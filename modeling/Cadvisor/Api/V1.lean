import Cadvisor.Api.Common
import Cadvisor.Manager.Events

/-!
# The events endpoint

The query string of an events request becomes an `EventQuery`.  Its time bounds
do not arrive: the detour through an owned JSON value loses every one of them,
and a lost bound is no bound.
-/

set_option autoImplicit false

namespace Cadvisor

open SortedSeq

def eventQuery (parseFromRfc3339 : String → Option GoTime) (containerName : String)
    (params : Params) : EventQuery :=
  let all := params.getBool "all_events"
  { containerName
    includeSubcontainers := params.getBool "subcontainers"
    eventTypes :=
      (if all || params.getBool "oom_events" then [EventType.oom] else []) ++
      (if all || params.getBool "oom_kill_events" then [EventType.oomKill] else []) ++
      (if all || params.getBool "creation_events" then [EventType.containerCreation] else []) ++
      (if all || params.getBool "deletion_events" then [EventType.containerDeletion] else [])
    maxEvents := ((params.get "max_events").bind (Str.parseUnsigned (2 ^ 64))).getD 10
    startTime := params.getTime parseFromRfc3339 "start_time"
    endTime := params.getTime parseFromRfc3339 "end_time" }

/-- The body of an events response: one document, or a stream of what matches. -/
inductive EventsResponse where
  | json (events : List Event)
  | stream (q : EventQuery)

def handleEvents (parseFromRfc3339 : String → Option GoTime) (store : EventStore)
    (containerName : String) (params : Params) : EventsResponse :=
  let q := eventQuery parseFromRfc3339 containerName params
  if ¬ params.getBool "stream" then .json (store.query q) else .stream q

/-- The container a request path names behind version and request type. -/
def containerNameOf (args : List String) : String :=
  let named :=
    if args.isEmpty ∨ args = [""] then "/"
    else Str.trimEndMatches ("/" ++ Str.join "/" args) '/'
  if named = "" then "/" else named

/-- The paths that `dispatch` hands to `handle_events`, with the container they name. -/
def eventsContainer (rest : String) : Option String :=
  let segments := Str.split rest '/'
  let version := segments.headD ""
  let requestType := (segments.drop 1).headD ""
  if version ∈ ["v1.3", "v2.0", "v2.1"] ∧ requestType = "events" then
    some (containerNameOf (segments.drop 2))
  else none

/-- `dispatch` on the paths of the events endpoint; `none` is every other answer. -/
def dispatchEvents (parseFromRfc3339 : String → Option GoTime) (store : EventStore)
    (rest : String) (rawQuery : Option String) : Option EventsResponse :=
  (eventsContainer rest).map fun containerName =>
    handleEvents parseFromRfc3339 store containerName (Params.parse rawQuery)

structure WindowRequest (parseFromRfc3339 : String → Option GoTime) where
  rest : String
  rawQuery : Option String
  container : String
  start : GoTime
  stop : GoTime
  routed : eventsContainer rest = some container
  notStreaming : (Params.parse rawQuery).getBool "stream" = false
  startGiven : ((Params.parse rawQuery).get "start_time").bind parseFromRfc3339 = some start
  stopGiven : ((Params.parse rawQuery).get "end_time").bind parseFromRfc3339 = some stop
  startSet : start ≠ GoTime.zero
  stopSet : stop ≠ GoTime.zero

namespace WindowRequest

variable {parseFromRfc3339 : String → Option GoTime}

def query (request : WindowRequest parseFromRfc3339) : EventQuery :=
  eventQuery parseFromRfc3339 request.container (Params.parse request.rawQuery)

/-- How many events are asked for: ten when the parameter is absent or zero. -/
def limit (request : WindowRequest parseFromRfc3339) : Nat :=
  if request.query.maxEvents = 0 then 10 else request.query.maxEvents

/-- Whether an event has a requested type and container, at whatever time. -/
def asks (request : WindowRequest parseFromRfc3339) (e : Event) : Bool :=
  e.eventType ∈ request.query.eventTypes ∧ request.query.nameMatches e

theorem limit_pos (request : WindowRequest parseFromRfc3339) : 0 < request.limit := by
  unfold limit
  split
  · decide
  · rename_i nonzero
    exact Nat.pos_of_ne_zero nonzero

theorem query_matches (request : WindowRequest parseFromRfc3339) (e : Event) :
    request.query.matches e = request.asks e := by
  have noStart : request.query.startTime.isZero = true := by
    simp [query, eventQuery, Params.getTime_eq_zero, GoTime.isZero]
  have noEnd : request.query.endTime.isZero = true := by
    simp [query, eventQuery, Params.getTime_eq_zero, GoTime.isZero]
  unfold EventQuery.matches asks
  by_cases typed : e.eventType ∈ request.query.eventTypes
  · by_cases named : request.query.nameMatches e = true
    · simp [typed, named, noStart, noEnd]
    · simp [typed, named]
  · simp [typed]

theorem answer (request : WindowRequest parseFromRfc3339) (store : EventStore) :
    dispatchEvents parseFromRfc3339 store request.rest request.rawQuery =
      some (.json ((store.events.filter request.asks).rtake request.limit)) := by
  have testIs : request.query.matches = request.asks := funext request.query_matches
  rw [dispatchEvents, request.routed, Option.map_some, handleEvents]
  simp only [request.notStreaming, Bool.false_eq_true, not_false_iff, if_true]
  rw [← testIs]
  rfl

/-- A windowed request gets the most recent events of its window exactly when
its window ends behind everything it asks for and begins before all of it, or
before as much of it as it asks for. -/
theorem answer_eq_window_iff (request : WindowRequest parseFromRfc3339)
    (calls : List RecordCall) (store : EventStore)
    (run : EventStore.new.recordAll calls = some store) :
    (∃ events, dispatchEvents parseFromRfc3339 store request.rest request.rawQuery =
        some (.json events) ∧
      (∀ e ∈ events, request.start ≤ e.timestamp ∧ e.timestamp ≤ request.stop) ∧
      events = (store.events.filter fun e => request.asks e ∧
        request.start ≤ e.timestamp ∧ e.timestamp ≤ request.stop).rtake request.limit) ↔
      (∀ e ∈ store.events, request.asks e → e.timestamp ≤ request.stop) ∧
        ((∀ e ∈ store.events, request.asks e → request.start ≤ e.timestamp) ∨
          request.limit ≤ (store.events.filter fun e =>
            request.asks e ∧ request.start ≤ e.timestamp).length) := by
  have inv := EventStore.retains_of_recordAll run
  have sorted : SortedBy Event.timestamp (store.events.filter request.asks) :=
    inv.sorted.filter _
  have windowIs : (store.events.filter fun e => request.asks e ∧
      request.start ≤ e.timestamp ∧ e.timestamp ≤ request.stop) =
      (store.events.filter request.asks).filter fun e =>
        request.start ≤ e.timestamp ∧ e.timestamp ≤ request.stop := by
    rw [List.filter_filter]
    congr 1
    funext e
    simp [Bool.and_comm]
  have lateIs : (store.events.filter fun e => request.asks e ∧ request.start ≤ e.timestamp) =
      (store.events.filter request.asks).filter fun e => request.start ≤ e.timestamp := by
    rw [List.filter_filter]
    congr 1
    funext e
    simp [Bool.and_comm]
  have exact' := sorted.rtake_eq_rtake_window_iff request.start request.stop request.limit_pos
  simp only [List.mem_filter, and_imp] at exact'
  rw [windowIs, lateIs, ← exact', request.answer store]
  constructor
  · rintro ⟨events, found, _, eventsAre⟩
    cases found
    exact eventsAre
  · intro same
    refine ⟨_, rfl, fun e member => ?_, same⟩
    rw [same] at member
    simpa using (List.mem_filter.mp (List.mem_of_mem_drop member)).2

def epochTexts (text : String) : Option GoTime :=
  if text = "1970-01-01T00:00:00Z" then some (.sinceEpoch 0)
  else if text = "1970-01-01T00:30:00Z" then some (.sinceEpoch 1800000000000)
  else none

theorem firstHalfHour_parse :
    Params.parse (some ("creation_events=true&subcontainers=true&" ++
      "start_time=1970-01-01T00%3A00%3a00Z&end_time=1970-01-01T00:30:00Z")) =
      ⟨[("creation_events", "true"), ("subcontainers", "true"),
        ("start_time", "1970-01-01T00:00:00Z"), ("end_time", "1970-01-01T00:30:00Z")]⟩ := by
  apply congrArg Params.mk
  decide +kernel

/-- Creations anywhere in the first half hour, the colons partly encoded. -/
def firstHalfHour : WindowRequest epochTexts where
  rest := "v1.3/events"
  rawQuery := some ("creation_events=true&subcontainers=true&" ++
    "start_time=1970-01-01T00%3A00%3a00Z&end_time=1970-01-01T00:30:00Z")
  container := "/"
  start := .sinceEpoch 0
  stop := .sinceEpoch 1800000000000
  routed := by decide
  notStreaming := by
    rw [firstHalfHour_parse]
    simp [Params.getBool, Params.get]
  startGiven := by
    rw [firstHalfHour_parse]
    simp [Params.get, epochTexts]
  stopGiven := by
    rw [firstHalfHour_parse]
    simp [Params.get, epochTexts]
  startSet := by decide
  stopSet := by decide

theorem firstHalfHour_query :
    firstHalfHour.query =
      { containerName := "/"
        includeSubcontainers := true
        eventTypes := [.containerCreation]
        maxEvents := 10
        startTime := GoTime.zero
        endTime := GoTime.zero } := by
  have parsed : Params.parse firstHalfHour.rawQuery = _ := firstHalfHour_parse
  rw [query, parsed]
  simp [eventQuery, Params.getBool, Params.get, Params.getTime_eq_zero, firstHalfHour]

theorem answer_eq_window_inside :
    ∃ store, EventStore.new.recordAll [⟨"/a", .containerCreation, .sinceEpoch 600000000000⟩] =
        some store ∧
      ∃ events, dispatchEvents epochTexts store firstHalfHour.rest firstHalfHour.rawQuery =
          some (.json events) ∧
        (∀ e ∈ events, firstHalfHour.start ≤ e.timestamp ∧ e.timestamp ≤ firstHalfHour.stop) ∧
        events = (store.events.filter fun e => firstHalfHour.asks e ∧
          firstHalfHour.start ≤ e.timestamp ∧
            e.timestamp ≤ firstHalfHour.stop).rtake firstHalfHour.limit := by
  have run : EventStore.new.recordAll
      [⟨"/a", .containerCreation, .sinceEpoch 600000000000⟩] =
      some ⟨[⟨"/a", .sinceEpoch 600000000000, .containerCreation, {}⟩],
        [⟨"/a", .sinceEpoch 600000000000, .containerCreation, {}⟩]⟩ := by
    decide
  refine ⟨_, run, (answer_eq_window_iff firstHalfHour _ _ run).mpr ?_⟩
  unfold asks limit
  rw [firstHalfHour_query]
  decide

theorem answer_outside_window :
    ¬ ∀ (parseFromRfc3339 : String → Option GoTime) (request : WindowRequest parseFromRfc3339)
      (calls : List RecordCall) (store : EventStore),
      EventStore.new.recordAll calls = some store →
      ∃ events, dispatchEvents parseFromRfc3339 store request.rest request.rawQuery =
          some (.json events) ∧
        (∀ e ∈ events, request.start ≤ e.timestamp ∧ e.timestamp ≤ request.stop) ∧
        events = (store.events.filter fun e => request.asks e ∧
          request.start ≤ e.timestamp ∧ e.timestamp ≤ request.stop).rtake request.limit := by
  intro claimed
  have run : EventStore.new.recordAll
      [⟨"/a", .containerCreation, .sinceEpoch 3600000000000⟩] =
      some ⟨[⟨"/a", .sinceEpoch 3600000000000, .containerCreation, {}⟩],
        [⟨"/a", .sinceEpoch 3600000000000, .containerCreation, {}⟩]⟩ := by
    decide
  obtain ⟨events, answered, inWindow, _⟩ := claimed epochTexts firstHalfHour _ _ run
  rw [firstHalfHour.answer, Option.some.injEq, EventsResponse.json.injEq] at answered
  unfold asks limit at answered
  rw [firstHalfHour_query] at answered
  rw [← answered] at inWindow
  exact absurd inWindow (by decide)

end WindowRequest

end Cadvisor
