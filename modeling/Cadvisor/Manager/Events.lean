import Cadvisor.Lib.SortedSeq
import Cadvisor.Lib.Str
import Cadvisor.Model.Container

/-!
# The event history

`record_event` keeps one buffer ordered by timestamp, cut to 24 hours before
its newest event and to 100,000 events.  However old the timestamps that
arrive, the buffer after a run is what one sort, one age cut and one count cut
of everything recorded give.  It is not what one buffer per event type would
hold, unless the types' newest events stay close to each other.
-/

set_option autoImplicit false

namespace Cadvisor

open SortedSeq

/-- `chrono::Duration::hours(24)`. -/
def day : Int := 24 * 3600 * nanosPerSecond

def eventCap : Nat := 100000

/-- The history behind its lock, and every event handed to the broadcast
channel so far. -/
structure EventStore where
  events : List Event
  sent : List Event
  deriving DecidableEq

namespace EventStore

def new : EventStore := ⟨[], []⟩

/-- The age part of the storage policy; `none` is the panic of the subtraction. -/
def retainDay (events : List Event) : Option (List Event) :=
  match events.getLast? with
  | none => some events
  | some newest =>
      match newest.timestamp.sub day with
      | none => none
      | some cutoff => some (events.filter fun e => cutoff ≤ e.timestamp)

def drainExcess (events : List Event) : List Event :=
  let excess := events.length - eventCap
  if 0 < excess then events.drop excess else events

def recordEvent (store : EventStore) (name : String) (eventType : EventType)
    (timestamp : GoTime) : Option EventStore :=
  let event : Event := { containerName := name, timestamp, eventType }
  let sent := store.sent ++ [event]
  let pos := partitionPoint store.events fun e => e.timestamp ≤ event.timestamp
  let events := store.events.take pos ++ event :: store.events.drop pos
  match retainDay events with
  | none => none
  | some events => some ⟨drainExcess events, sent⟩

end EventStore

structure RecordCall where
  name : String
  eventType : EventType
  timestamp : GoTime

def RecordCall.event (call : RecordCall) : Event :=
  { containerName := call.name, timestamp := call.timestamp, eventType := call.eventType }

def EventStore.recordAll (store : EventStore) (calls : List RecordCall) : Option EventStore :=
  calls.foldlM (fun store call => store.recordEvent call.name call.eventType call.timestamp) store

/-- Filter for the events endpoint. -/
structure EventQuery where
  containerName : String
  includeSubcontainers : Bool
  eventTypes : List EventType
  maxEvents : Nat
  startTime : GoTime
  endTime : GoTime

namespace EventQuery

def nameMatches (q : EventQuery) (ev : Event) : Bool :=
  ev.containerName = q.containerName ||
    (q.includeSubcontainers &&
      Str.startsWith ev.containerName (Str.trimEndMatches q.containerName '/' ++ "/"))

def «matches» (q : EventQuery) (ev : Event) : Bool :=
  if ¬ ev.eventType ∈ q.eventTypes then false
  else if ¬ q.nameMatches ev then false
  else if ¬ q.startTime.isZero ∧ ev.timestamp < q.startTime then false
  else if ¬ q.endTime.isZero ∧ q.endTime < ev.timestamp then false
  else true

end EventQuery

/-- `Manager::events`: the last `max_events` matching events. -/
def EventStore.query (store : EventStore) (q : EventQuery) : List Event :=
  let max := if q.maxEvents = 0 then 10 else q.maxEvents
  let matching := store.events.filter q.matches
  matching.drop (matching.length - max)

namespace EventStore

/-! ## One call -/

theorem retainDay_eq {events : List Event} (sorted : SortedBy Event.timestamp events)
    {newest cutoff : GoTime} (top : IsNewest Event.timestamp events newest)
    (bound : newest.sub day = some cutoff) :
    retainDay events = some (events.filter fun e => cutoff ≤ e.timestamp) := by
  obtain ⟨last, lastIs, lastStamp⟩ := sorted.getLast?_of_isNewest top
  unfold retainDay
  simp only [lastIs, lastStamp, bound]

theorem drainExcess_eq_rtake (events : List Event) : drainExcess events = events.rtake eventCap := by
  simp only [drainExcess, List.rtake]
  split
  · rfl
  · rename_i fits
    rw [Nat.eq_zero_of_not_pos fits, List.drop_zero]

/-- What one call does: insert behind equal timestamps, keep 24 hours, keep the
last 100,000. -/
theorem recordEvent_eq (store : EventStore) (call : RecordCall)
    (sorted : SortedBy Event.timestamp store.events) {newest cutoff : GoTime}
    (top : IsNewest Event.timestamp
      (stableInsert Event.timestamp call.event store.events) newest)
    (bound : newest.sub day = some cutoff) :
    store.recordEvent call.name call.eventType call.timestamp = some
      ⟨((stableInsert Event.timestamp call.event store.events).filter
        fun e => cutoff ≤ e.timestamp).rtake eventCap, store.sent ++ [call.event]⟩ := by
  have placed := insert_at_partitionPoint Event.timestamp call.event sorted
  have inserted := stableInsert_sorted Event.timestamp call.event sorted
  have kept := retainDay_eq inserted top bound
  rw [← placed] at kept
  have unfolded : store.recordEvent call.name call.eventType call.timestamp =
      match retainDay (store.events.take
          (partitionPoint store.events fun e => e.timestamp ≤ call.event.timestamp) ++
        call.event :: store.events.drop
          (partitionPoint store.events fun e => e.timestamp ≤ call.event.timestamp)) with
      | none => none
      | some events => some ⟨drainExcess events, store.sent ++ [call.event]⟩ := rfl
  rw [unfolded, kept]
  simp only [drainExcess_eq_rtake, placed]

/-! ## A run of calls -/

def Retains (calls : List RecordCall) (store : EventStore) : Prop :=
  store.sent = calls.map RecordCall.event ∧
    (calls = [] ∧ store.events = [] ∨
      ∃ newest cutoff : GoTime,
        IsNewest Event.timestamp (calls.map RecordCall.event) newest ∧
        newest.sub day = some cutoff ∧
        store.events = ((stableSort Event.timestamp (calls.map RecordCall.event)).filter
          fun e => cutoff ≤ e.timestamp).rtake eventCap)

theorem Retains.sorted {calls : List RecordCall} {store : EventStore}
    (inv : Retains calls store) : SortedBy Event.timestamp store.events := by
  rcases inv.2 with ⟨_, empty⟩ | ⟨_, _, _, _, eventsAre⟩
  · rw [empty]
    exact List.Pairwise.nil
  · rw [eventsAre]
    exact ((stableSort_sorted _ _).filter _).sublist (List.drop_sublist _ _)

theorem retains_recordEvent {calls : List RecordCall} {store : EventStore}
    (inv : Retains calls store) (call : RecordCall)
    (fits : ∀ c ∈ (calls ++ [call]).head?, c.timestamp.Representable day) :
    ∃ next, store.recordEvent call.name call.eventType call.timestamp = some next ∧
      Retains (calls ++ [call]) next := by
  have sorted := inv.sorted
  obtain ⟨sentAre, state⟩ := inv
  have nextSent : store.sent ++ [call.event] = (calls ++ [call]).map RecordCall.event := by
    rw [sentAre, List.map_append]
    rfl
  rcases state with ⟨rfl, empty⟩ | ⟨old, oldCutoff, oldTop, oldBound, eventsAre⟩
  · obtain ⟨cutoff, bound⟩ := (GoTime.representable_iff _ _).mp (fits call (by simp))
    have inserted : stableInsert Event.timestamp call.event store.events = [call.event] := by
      rw [empty]
      rfl
    have top : IsNewest Event.timestamp [call.event] call.timestamp :=
      isNewest_singleton Event.timestamp call.event
    have stepIs := recordEvent_eq store call sorted (by rw [inserted]; exact top) bound
    have sortedOne : stableSort Event.timestamp (([] ++ [call]).map RecordCall.event) =
        [call.event] := rfl
    refine ⟨_, stepIs, nextSent, Or.inr ⟨call.timestamp, cutoff, top, bound, ?_⟩⟩
    rw [inserted, sortedOne]
  · have sortedAll := stableSort_sorted Event.timestamp (calls.map RecordCall.event)
    have keptTop : IsNewest Event.timestamp store.events old := by
      rw [eventsAre]
      refine IsNewest.rtake (sortedAll.filter _) ?_ (by decide)
      exact (oldTop.of_mem_iff fun e => mem_stableSort _ _ _).filter_le
        (GoTime.sub_le oldBound (by decide))
    have oldFits := (GoTime.representable_iff _ _).mpr ⟨oldCutoff, oldBound⟩
    obtain ⟨cutoff, bound⟩ := (GoTime.representable_iff _ _).mp
      (oldFits.of_le (le_max_left old call.timestamp) (by decide))
    have stepIs := recordEvent_eq store call sorted
      (keptTop.insert fun e => mem_stableInsert _ _ _ _) bound
    refine ⟨_, stepIs, nextSent, Or.inr ⟨max old call.timestamp, cutoff, ?_, bound, ?_⟩⟩
    · have members : ∀ e, e ∈ (calls ++ [call]).map RecordCall.event ↔
          e = call.event ∨ e ∈ calls.map RecordCall.event := by
        intro e
        simp [or_comm, eq_comm]
      exact oldTop.insert members
    · have rising := GoTime.sub_mono oldBound bound (le_max_left old call.timestamp)
      rw [List.map_append, List.map_singleton, stableSort_concat, eventsAre,
        rtake_filter_insert_rtake Event.timestamp call.event (sortedAll.filter _),
        filter_insert_filter_le Event.timestamp call.event sortedAll rising]

theorem recordAll_retains (calls : List RecordCall)
    (fits : ∀ c ∈ calls.head?, c.timestamp.Representable day) :
    ∃ store, new.recordAll calls = some store ∧ Retains calls store := by
  induction calls using List.reverseRecOn with
  | nil => exact ⟨new, rfl, rfl, Or.inl ⟨rfl, rfl⟩⟩
  | append_singleton calls call ih =>
      have earlierFits : ∀ c ∈ calls.head?, c.timestamp.Representable day := by
        intro c head
        apply fits
        cases calls with
        | nil => cases head
        | cons first rest => exact head
      obtain ⟨store, run, inv⟩ := ih earlierFits
      obtain ⟨next, stepIs, nextInv⟩ := retains_recordEvent inv call fits
      refine ⟨next, ?_, nextInv⟩
      unfold recordAll at run ⊢
      rw [List.foldlM_append, run]
      simp [stepIs]

/-- A run that does not panic began with an event 24 hours above the least date. -/
theorem representable_of_recordAll {calls : List RecordCall} {store : EventStore}
    (run : new.recordAll calls = some store) :
    ∀ c ∈ calls.head?, c.timestamp.Representable day := by
  cases calls with
  | nil =>
      intro c head
      cases head
  | cons first rest =>
      intro c head
      cases head
      by_contra overflow
      have panics : first.event.timestamp.sub day = none := by
        unfold GoTime.sub
        exact dif_neg overflow
      have firstPanics : new.recordEvent first.name first.eventType first.timestamp = none := by
        have only : retainDay [first.event] = none := by
          unfold retainDay
          simp only [List.getLast?_singleton, panics]
        have unfolded : new.recordEvent first.name first.eventType first.timestamp =
            match retainDay [first.event] with
            | none => none
            | some events => some ⟨drainExcess events, [first.event]⟩ := rfl
        rw [unfolded, only]
      unfold recordAll at run
      rw [List.foldlM_cons, firstPanics] at run
      cases run

theorem retains_of_recordAll {calls : List RecordCall} {store : EventStore}
    (run : new.recordAll calls = some store) : Retains calls store := by
  obtain ⟨found, foundRun, inv⟩ := recordAll_retains calls (representable_of_recordAll run)
  rw [run, Option.some.injEq] at foundRun
  exact foundRun ▸ inv

/-- Whatever the order of the timestamps, the history after a run is in
timestamp order, later calls behind earlier ones with the same timestamp, and
holds the last 100,000 recorded events that are at most 24 hours older than the
newest; a query returns the last matching ones. -/
theorem recordAll_closed_form (calls : List RecordCall)
    (fits : ∀ c ∈ calls, c.timestamp.Representable day) :
    ∃ store, new.recordAll calls = some store ∧
      (store.events.Pairwise fun a b => a.timestamp ≤ b.timestamp) ∧
      (∀ newest, IsNewest Event.timestamp (calls.map RecordCall.event) newest →
        store.events =
          (((calls.map RecordCall.event).mergeSort fun a b => a.timestamp ≤ b.timestamp).filter
            fun e => newest.nanos - day ≤ e.timestamp.nanos).rtake 100000) ∧
      ∀ q : EventQuery, store.query q =
        (store.events.filter q.matches).rtake (if q.maxEvents = 0 then 10 else q.maxEvents) := by
  obtain ⟨store, run, inv⟩ := recordAll_retains calls fun c head =>
    fits c (List.mem_of_mem_head? head)
  refine ⟨store, run, inv.sorted, ?_, fun q => rfl⟩
  intro newest top
  rcases inv.2 with ⟨rfl, _⟩ | ⟨found, cutoff, foundTop, bound, eventsAre⟩
  · obtain ⟨_, impossible, _⟩ := top.exists_holder
    cases impossible
  · have same : found = newest := foundTop.unique top
    subst same
    rw [eventsAre, stableSort_eq_mergeSort]
    simp only [GoTime.le_iff, (GoTime.sub_eq_some_iff _ _ _).mp bound, eventCap]

theorem recordAll_closed_form_late_creation :
    ∃ store, new.recordAll
        [⟨"/a", .oom, .sinceEpoch 300000000000⟩, ⟨"/b", .containerCreation, .sinceEpoch 0⟩] =
          some store ∧
      ∀ q : EventQuery, store.query q =
        (store.events.filter q.matches).rtake (if q.maxEvents = 0 then 10 else q.maxEvents) := by
  obtain ⟨store, run, _, _, queries⟩ := recordAll_closed_form
    [⟨"/a", .oom, .sinceEpoch 300000000000⟩, ⟨"/b", .containerCreation, .sinceEpoch 0⟩]
    (by decide)
  exact ⟨store, run, queries⟩

end EventStore

/-! ## One buffer per event type -/

/-- Whether `e` is at most 24 hours older than every event of `xs`. -/
def withinDay (xs : List Event) (e : Event) : Bool :=
  xs.all fun other => other.timestamp.nanos - day ≤ e.timestamp.nanos

/-- The storage policy the comment in `record_event` starts from: each type has
its own buffer, aged by that type's newest event. -/
def PerTypeStore := EventType → List Event

namespace PerTypeStore

def new : PerTypeStore := fun _ => []

def record (store : PerTypeStore) (e : Event) : PerTypeStore := fun eventType =>
  if eventType = e.eventType then
    let buffer := stableInsert Event.timestamp e (store eventType)
    buffer.filter (withinDay buffer)
  else store eventType

def recordAll (calls : List RecordCall) : PerTypeStore :=
  calls.foldl (fun store call => store.record call.event) new

end PerTypeStore

def ofType (eventType : EventType) (calls : List RecordCall) : List Event :=
  (calls.map RecordCall.event).filter fun e => e.eventType = eventType

theorem withinDay_iff (xs : List Event) (e : Event) :
    withinDay xs e = true ↔ ∀ other ∈ xs, other.timestamp.nanos - day ≤ e.timestamp.nanos := by
  simp [withinDay]

theorem exists_isNewest {xs : List Event} (nonempty : xs ≠ []) :
    ∃ newest ∈ xs, ∀ e ∈ xs, e.timestamp ≤ newest.timestamp := by
  induction xs with
  | nil => exact absurd rfl nonempty
  | cons x rest ih =>
      by_cases last : rest = []
      · subst last
        exact ⟨x, by simp, by simp⟩
      · obtain ⟨newest, member, above⟩ := ih last
        rcases le_total x.timestamp newest.timestamp with low | high
        · refine ⟨newest, List.mem_cons_of_mem _ member, fun e inList => ?_⟩
          rcases List.mem_cons.mp inList with rfl | later
          · exact low
          · exact above e later
        · refine ⟨x, List.mem_cons_self .., fun e inList => ?_⟩
          rcases List.mem_cons.mp inList with rfl | later
          · exact le_rfl
          · exact (above e later).trans high

theorem withinDay_insert_filter (xs : List Event) (x e : Event) :
    withinDay (stableInsert Event.timestamp x (xs.filter (withinDay xs))) e =
      withinDay (xs ++ [x]) e := by
  rw [Bool.eq_iff_iff, withinDay_iff, withinDay_iff]
  constructor
  · intro young other member
    rcases List.mem_append.mp member with earlier | isX
    · obtain ⟨newest, inList, above⟩ := exists_isNewest (List.ne_nil_of_mem earlier)
      have stays : newest ∈ xs.filter (withinDay xs) := by
        rw [List.mem_filter, withinDay_iff]
        refine ⟨inList, fun n nIn => ?_⟩
        have order : n.timestamp.nanos ≤ newest.timestamp.nanos := above n nIn
        have forward : 0 ≤ day := by decide
        omega
      have bound := young newest ((mem_stableInsert _ _ _ _).mpr (Or.inr stays))
      have order : other.timestamp.nanos ≤ newest.timestamp.nanos := above other earlier
      omega
    · rw [List.mem_singleton.mp isX]
      exact young x ((mem_stableInsert _ _ _ _).mpr (Or.inl rfl))
  · intro young other member
    rcases (mem_stableInsert _ _ _ _).mp member with rfl | kept
    · exact young other (by simp)
    · exact young other (by simp [(List.mem_filter.mp kept).1])

theorem withinDay_congr {xs ys : List Event} (members : ∀ e, e ∈ xs ↔ e ∈ ys) (e : Event) :
    withinDay xs e = withinDay ys e := by
  rw [Bool.eq_iff_iff, withinDay_iff, withinDay_iff]
  simp only [members]

theorem mem_ofType {eventType : EventType} {calls : List RecordCall} {e : Event} :
    e ∈ ofType eventType calls ↔ ∃ c ∈ calls, c.eventType = eventType ∧ c.event = e := by
  simp only [ofType, List.mem_filter, List.mem_map, decide_eq_true_eq]
  constructor
  · rintro ⟨⟨c, member, rfl⟩, typed⟩
    exact ⟨c, member, typed, rfl⟩
  · rintro ⟨c, member, typed, rfl⟩
    exact ⟨⟨c, member, rfl⟩, typed⟩

theorem withinDay_ofType_iff (calls : List RecordCall) (eventType : EventType) (e : Event) :
    withinDay (ofType eventType calls) e = true ↔
      ∀ d ∈ calls, d.eventType = eventType → d.timestamp.nanos - day ≤ e.timestamp.nanos := by
  rw [withinDay_iff]
  constructor
  · intro young d member typed
    exact young d.event (mem_ofType.mpr ⟨d, member, typed, rfl⟩)
  · intro young other member
    obtain ⟨d, dIn, typed, rfl⟩ := mem_ofType.mp member
    exact young d dIn typed

namespace PerTypeStore

theorem recordAll_eq (calls : List RecordCall) (eventType : EventType) :
    recordAll calls eventType = (stableSort Event.timestamp (ofType eventType calls)).filter
      (withinDay (ofType eventType calls)) := by
  induction calls using List.reverseRecOn with
  | nil => rfl
  | append_singleton calls call ih =>
      have stepIs : recordAll (calls ++ [call]) = (recordAll calls).record call.event := by
        simp [recordAll]
      rw [stepIs, record]
      by_cases mine : eventType = call.event.eventType
      · have grown : ofType eventType (calls ++ [call]) =
            ofType eventType calls ++ [call.event] := by
          simp [ofType, mine]
        have sorted := stableSort_sorted Event.timestamp (ofType eventType calls)
        have earlierTest : withinDay (ofType eventType calls) =
            withinDay (stableSort Event.timestamp (ofType eventType calls)) := by
          funext e
          exact (withinDay_congr (mem_stableSort _ · _) e).symm
        have newTest : withinDay (stableInsert Event.timestamp call.event
            ((stableSort Event.timestamp (ofType eventType calls)).filter
              (withinDay (ofType eventType calls)))) =
            withinDay (ofType eventType calls ++ [call.event]) := by
          funext e
          rw [earlierTest, withinDay_insert_filter]
          exact withinDay_congr (by simp) e
        rw [if_pos mine, ih, grown, stableSort_concat]
        simp only [newTest]
        apply filter_insert_filter Event.timestamp call.event sorted
        intro y _ pass
        rw [withinDay_iff] at pass ⊢
        exact fun other member => pass other (List.mem_append_left _ member)
      · have same : ofType eventType (calls ++ [call]) = ofType eventType calls := by
          simp [ofType, Ne.symm mine]
        rw [if_neg mine, ih, same]

end PerTypeStore

theorem filter_eq_filter_iff {α : Type} (left right : α → Bool) (xs : List α) :
    xs.filter left = xs.filter right ↔ ∀ x ∈ xs, left x = right x := by
  refine ⟨fun same x member => ?_, List.filter_congr⟩
  rw [Bool.eq_iff_iff]
  constructor
  · intro pass
    have kept : x ∈ xs.filter left := List.mem_filter.mpr ⟨member, pass⟩
    rw [same] at kept
    exact (List.mem_filter.mp kept).2
  · intro pass
    have kept : x ∈ xs.filter right := List.mem_filter.mpr ⟨member, pass⟩
    rw [← same] at kept
    exact (List.mem_filter.mp kept).2

namespace EventStore

theorem Retains.events_eq {calls : List RecordCall} {store : EventStore}
    (inv : Retains calls store) (few : calls.length ≤ 100000) :
    store.events = (stableSort Event.timestamp (calls.map RecordCall.event)).filter
      (withinDay (calls.map RecordCall.event)) := by
  rcases inv.2 with ⟨rfl, empty⟩ | ⟨newest, cutoff, top, bound, eventsAre⟩
  · rw [empty]
    rfl
  · have fewSorted : (stableSort Event.timestamp (calls.map RecordCall.event)).length ≤
        eventCap := by
      rw [(stableSort_perm _ _).length_eq, List.length_map]
      exact few
    rw [eventsAre, rtake_eq_self _ _ ((List.length_filter_le _ _).trans fewSorted)]
    apply List.filter_congr
    intro e _
    rw [Bool.eq_iff_iff, withinDay_iff, decide_eq_true_eq, GoTime.le_iff,
      (GoTime.sub_eq_some_iff _ _ _).mp bound]
    constructor
    · intro young other member
      have order : other.timestamp.nanos ≤ newest.nanos := top.le member
      omega
    · intro young
      obtain ⟨holder, member, rfl⟩ := top.exists_holder
      exact young holder member

/-- The single buffer holds of each type what that type's own buffer would
exactly when everything that is recent for its type is recent altogether. -/
theorem recordAll_eq_perType_iff (calls : List RecordCall) (few : calls.length ≤ 100000) :
    (∃ store, new.recordAll calls = some store ∧ ∀ eventType : EventType,
        (store.events.filter fun e => e.eventType = eventType) =
          PerTypeStore.recordAll calls eventType) ↔
      (∀ c ∈ calls.head?, c.timestamp.Representable day) ∧
        ∀ c ∈ calls,
          (∀ d ∈ calls, d.eventType = c.eventType →
            d.timestamp.nanos - day ≤ c.timestamp.nanos) →
          ∀ d ∈ calls, d.timestamp.nanos - day ≤ c.timestamp.nanos := by
  have agree : ∀ store, Retains calls store →
      ((∀ eventType : EventType, (store.events.filter fun e => e.eventType = eventType) =
          PerTypeStore.recordAll calls eventType) ↔
        ∀ c ∈ calls, (∀ d ∈ calls, d.eventType = c.eventType →
            d.timestamp.nanos - day ≤ c.timestamp.nanos) →
          ∀ d ∈ calls, d.timestamp.nanos - day ≤ c.timestamp.nanos) := by
    intro store inv
    have single : ∀ eventType : EventType,
        (store.events.filter fun e => e.eventType = eventType) =
          (stableSort Event.timestamp (ofType eventType calls)).filter
            (withinDay (calls.map RecordCall.event)) := by
      intro eventType
      rw [inv.events_eq few, ofType, ← filter_stableSort, List.filter_filter, List.filter_filter]
      congr 1
      funext e
      exact Bool.and_comm _ _
    simp only [single, PerTypeStore.recordAll_eq, filter_eq_filter_iff, mem_stableSort]
    constructor
    · intro same c member recent
      have typed : c.event ∈ ofType c.eventType calls := by
        simp only [ofType, List.mem_filter, List.mem_map]
        exact ⟨⟨c, member, rfl⟩, by simp [RecordCall.event]⟩
      have tests := same c.eventType c.event typed
      have typeRecent : withinDay (ofType c.eventType calls) c.event = true := by
        rw [withinDay_ofType_iff]
        exact recent
      rw [typeRecent, withinDay_iff] at tests
      intro d dIn
      exact tests d.event (List.mem_map_of_mem dIn)
    · intro implied eventType e member
      obtain ⟨c, cIn, rfl, rfl⟩ := mem_ofType.mp member
      rw [Bool.eq_iff_iff, withinDay_ofType_iff, withinDay_iff]
      constructor
      · intro young d dIn _
        exact young d.event (List.mem_map_of_mem dIn)
      · intro young other otherIn
        obtain ⟨d, dIn, rfl⟩ := List.mem_map.mp otherIn
        exact implied c cIn young d dIn
  constructor
  · rintro ⟨store, run, same⟩
    exact ⟨representable_of_recordAll run, (agree store (retains_of_recordAll run)).mp same⟩
  · rintro ⟨fits, implied⟩
    obtain ⟨store, run, inv⟩ := recordAll_retains calls fits
    exact ⟨store, run, (agree store inv).mpr implied⟩

theorem recordAll_eq_perType_same_day :
    ∃ store, new.recordAll
        [⟨"/a", .oom, .sinceEpoch 0⟩, ⟨"/b", .containerCreation, .sinceEpoch 3600000000000⟩] =
          some store ∧
      ∀ eventType : EventType, (store.events.filter fun e => e.eventType = eventType) =
        PerTypeStore.recordAll
          [⟨"/a", .oom, .sinceEpoch 0⟩, ⟨"/b", .containerCreation, .sinceEpoch 3600000000000⟩]
          eventType :=
  (recordAll_eq_perType_iff
    [⟨"/a", .oom, .sinceEpoch 0⟩, ⟨"/b", .containerCreation, .sinceEpoch 3600000000000⟩]
    (by decide)).mpr (by decide)

/-- An out-of-memory event and, 25 hours later, a container that starts: the
history loses the event that its own type's buffer keeps. -/
theorem recordAll_loses_other_type :
    ¬ ∀ calls : List RecordCall, calls.length ≤ 100000 →
      ∃ store, new.recordAll calls = some store ∧ ∀ eventType : EventType,
        (store.events.filter fun e => e.eventType = eventType) =
          PerTypeStore.recordAll calls eventType := by
  intro claimed
  obtain ⟨store, run, same⟩ := claimed
    [⟨"/a", .oom, .sinceEpoch 0⟩, ⟨"/b", .containerCreation, .sinceEpoch 90000000000000⟩]
    (by decide)
  have left : new.recordAll
      [⟨"/a", .oom, .sinceEpoch 0⟩, ⟨"/b", .containerCreation, .sinceEpoch 90000000000000⟩] =
      some ⟨[⟨"/b", .sinceEpoch 90000000000000, .containerCreation, {}⟩],
        [⟨"/a", .sinceEpoch 0, .oom, {}⟩,
          ⟨"/b", .sinceEpoch 90000000000000, .containerCreation, {}⟩]⟩ := by
    decide
  rw [left, Option.some.injEq] at run
  subst run
  exact absurd (same .oom) (by decide)

end EventStore

end Cadvisor
