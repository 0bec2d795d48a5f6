import Cadvisor.Api.V1
import Cadvisor.Lib.Run

/-!
# The event stream

A streaming response has a task of its own between the broadcast channel, which
overwrites what it is too slow to receive, and a queue to the client that makes it
wait.  The receiver hands out what was sent in order and says so before it skips
anything; that is all that is assumed of it.
-/

set_option autoImplicit false

namespace Cadvisor

/-- The capacity of the queue between the task and the response's body. -/
def streamQueueCapacity : Nat := 16

/-- Where the streaming task is: at `recv`, at `send` with a line, or gone. -/
inductive StreamPhase where
  | receiving
  | sending (line : List UInt8)
  | ended

def StreamPhase.pending : StreamPhase → List (List UInt8)
  | .receiving => []
  | .sending line => [line]
  | .ended => []

/-- One streaming response; `pos` is how many broadcast events the receiver is past. -/
structure EventStream where
  store : EventStore
  pos : Nat
  phase : StreamPhase
  queue : List (List UInt8)
  connected : Bool
  written : List (List UInt8)

inductive StreamAction where
  | record (call : RecordCall)
  | receive
  | lag (missed : Nat)
  | close
  | send
  | write
  | disconnect

namespace EventStream

/-- `subscribe_events` and the new queue. -/
def subscribe (store : EventStore) : EventStream :=
  ⟨store, store.sent.length, .receiving, [], true, []⟩

def line (toVec : Event → Option (List UInt8)) (ev : Event) : Option (List UInt8) :=
  (toVec ev).map (· ++ [0x0A])

/-- The body of the task's loop. -/
def afterReceive (toVec : Event → Option (List UInt8)) (q : EventQuery) (ev : Event) :
    StreamPhase :=
  if q.matches ev then
    match line toVec ev with
    | some l => .sending l
    | none => .receiving
  else .receiving

def step (toVec : Event → Option (List UInt8)) (q : EventQuery) (s : EventStream) :
    StreamAction → Option EventStream
  | .record call =>
      (s.store.recordEvent call.name call.eventType call.timestamp).map fun store =>
        { s with store }
  | .receive =>
      match s.phase, s.store.sent[s.pos]? with
      | .receiving, some ev => some { s with pos := s.pos + 1, phase := afterReceive toVec q ev }
      | _, _ => none
  -- Any error ends the loop: `Lagged`, or that the sender is gone.
  | .lag missed =>
      match s.phase with
      | .receiving => some { s with pos := s.pos + missed, phase := .ended }
      | _ => none
  | .close =>
      match s.phase with
      | .receiving => some { s with phase := .ended }
      | _ => none
  | .send =>
      match s.phase with
      | .sending l =>
          if s.connected = false then some { s with phase := .ended }
          else if s.queue.length < streamQueueCapacity then
            some { s with queue := s.queue ++ [l], phase := .receiving }
          else none
      | _ => none
  | .write =>
      match s.queue with
      | [] => none
      | l :: rest => some { s with queue := rest, written := s.written ++ [l] }
  | .disconnect => some { s with connected := false, queue := [] }

/-! ## What has been handed over -/

variable {toVec : Event → Option (List UInt8)} {q : EventQuery} {start : Nat}

/-- The lines of the matching events among those sent from `start` on. -/
def linesFrom (toVec : Event → Option (List UInt8)) (q : EventQuery) (start : Nat)
    (sent : List Event) : List (List UInt8) :=
  ((sent.drop start).filter q.matches).filterMap (line toVec)

/-- What has left the task is a prefix of what it has to deliver, and while it runs
for a connected client nothing is missing up to its position. -/
structure Inv (toVec : Event → Option (List UInt8)) (q : EventQuery) (start : Nat)
    (s : EventStream) : Prop where
  handed : s.written ++ s.queue <+: linesFrom toVec q start s.store.sent
  subscribed : start ≤ s.store.sent.length
  reached : s.phase ≠ .ended → start ≤ s.pos ∧ s.pos ≤ s.store.sent.length
  complete : s.connected = true → s.phase ≠ .ended →
    s.written ++ s.queue ++ s.phase.pending =
      linesFrom toVec q start (s.store.sent.take s.pos)

theorem linesFrom_append {sent : List Event} (after : start ≤ sent.length) (more : List Event) :
    linesFrom toVec q start (sent ++ more) =
      linesFrom toVec q start sent ++ (more.filter q.matches).filterMap (line toVec) := by
  rw [linesFrom, List.drop_append_of_le_length after, List.filter_append, List.filterMap_append]
  rfl

theorem linesFrom_take {sent : List Event} {pos : Nat} (after : start ≤ pos)
    (before : pos ≤ sent.length) :
    linesFrom toVec q start (sent.take pos) <+: linesFrom toVec q start sent := by
  have reached : start ≤ (sent.take pos).length := by
    rw [List.length_take, Nat.min_eq_left before]
    exact after
  have whole : linesFrom toVec q start (sent.take pos ++ sent.drop pos) = _ :=
    linesFrom_append reached (sent.drop pos)
  rw [List.take_append_drop] at whole
  rw [whole]
  exact List.prefix_append ..

theorem linesFrom_receive {sent : List Event} {pos : Nat} {ev : Event} (after : start ≤ pos)
    (here : sent[pos]? = some ev) :
    linesFrom toVec q start (sent.take (pos + 1)) = linesFrom toVec q start (sent.take pos) ++
      (afterReceive toVec q ev).pending := by
  have before : pos < sent.length := (List.getElem?_eq_some_iff.mp here).1
  have reached : start ≤ (sent.take pos).length := by
    rw [List.length_take, Nat.min_eq_left (Nat.le_of_lt before)]
    exact after
  rw [List.take_add_one, here, linesFrom_append reached]
  congr 1
  unfold afterReceive
  cases wanted : q.matches ev with
  | false => simp [wanted, StreamPhase.pending]
  | true => cases encoded : line toVec ev <;> simp [wanted, encoded, StreamPhase.pending]

theorem inv_subscribe (store : EventStore) :
    Inv toVec q store.sent.length (subscribe store) where
  handed := List.nil_prefix
  subscribed := Nat.le_refl _
  reached _ := ⟨Nat.le_refl _, Nat.le_refl _⟩
  complete _ _ := by
    simp [subscribe, linesFrom, StreamPhase.pending]

theorem recordEvent_sent {store next : EventStore} {call : RecordCall}
    (recorded : store.recordEvent call.name call.eventType call.timestamp = some next) :
    next.sent = store.sent ++ [call.event] := by
  simp only [EventStore.recordEvent] at recorded
  split at recorded
  · cases recorded
  · rw [Option.some.injEq] at recorded
    rw [← recorded]
    rfl

section

variable {s : EventStream}

theorem Inv.record (inv : Inv toVec q start s) {store : EventStore} {call : RecordCall}
    (recorded : s.store.recordEvent call.name call.eventType call.timestamp = some store) :
    Inv toVec q start { s with store } := by
  have sentIs := recordEvent_sent recorded
  constructor
  case handed =>
    rw [sentIs, linesFrom_append inv.subscribed]
    exact inv.handed.trans (List.prefix_append ..)
  case subscribed =>
    rw [sentIs, List.length_append]
    exact Nat.le_add_right_of_le inv.subscribed
  case reached =>
    intro running
    obtain ⟨after, before⟩ := inv.reached running
    rw [sentIs, List.length_append]
    exact ⟨after, Nat.le_add_right_of_le before⟩
  case complete =>
    intro connected running
    have before := (inv.reached running).2
    rw [sentIs, List.take_append_of_le_length before]
    exact inv.complete connected running

theorem Inv.receive (inv : Inv toVec q start s) (receiving : s.phase = .receiving) {ev : Event}
    (here : s.store.sent[s.pos]? = some ev) :
    Inv toVec q start { s with pos := s.pos + 1, phase := afterReceive toVec q ev } := by
  have running : s.phase ≠ .ended := by
    rw [receiving]
    exact nofun
  obtain ⟨after, _⟩ := inv.reached running
  refine ⟨inv.handed, inv.subscribed, fun _ => ?_, fun connected _ => ?_⟩
  · exact ⟨Nat.le_add_right_of_le after, (List.getElem?_eq_some_iff.mp here).1⟩
  · have delivered := inv.complete connected running
    rw [receiving, StreamPhase.pending, List.append_nil] at delivered
    rw [linesFrom_receive after here, ← delivered]

theorem Inv.ended (inv : Inv toVec q start s) (pos : Nat) :
    Inv toVec q start { s with pos, phase := .ended } where
  handed := inv.handed
  subscribed := inv.subscribed
  reached running := absurd rfl running
  complete _ running := absurd rfl running

theorem Inv.send (inv : Inv toVec q start s) {l : List UInt8} (sending : s.phase = .sending l)
    (connected : s.connected = true) :
    Inv toVec q start { s with queue := s.queue ++ [l], phase := .receiving } := by
  have running : s.phase ≠ .ended := by
    rw [sending]
    exact nofun
  obtain ⟨after, before⟩ := inv.reached running
  have delivered := inv.complete connected running
  rw [sending, StreamPhase.pending] at delivered
  refine ⟨?_, inv.subscribed, fun _ => ⟨after, before⟩, fun _ _ => ?_⟩
  · rw [← List.append_assoc, delivered]
    exact linesFrom_take after before
  · rw [StreamPhase.pending, List.append_nil, ← List.append_assoc]
    exact delivered

theorem Inv.write (inv : Inv toVec q start s) {l : List UInt8} {rest : List (List UInt8)}
    (queueIs : s.queue = l :: rest) :
    Inv toVec q start { s with queue := rest, written := s.written ++ [l] } := by
  have moved : s.written ++ [l] ++ rest = s.written ++ s.queue := by
    rw [queueIs, List.append_assoc, List.singleton_append]
  refine ⟨moved ▸ inv.handed, inv.subscribed, inv.reached, fun connected running => ?_⟩
  rw [moved]
  exact inv.complete connected running

theorem Inv.disconnect (inv : Inv toVec q start s) :
    Inv toVec q start { s with connected := false, queue := [] } := by
  refine ⟨?_, inv.subscribed, inv.reached, fun connected _ => Bool.noConfusion connected⟩
  rw [List.append_nil]
  exact (List.prefix_append ..).trans inv.handed

end

theorem step_inv {s next : EventStream} {a : StreamAction} (inv : Inv toVec q start s)
    (stepIs : s.step toVec q a = some next) : Inv toVec q start next := by
  cases a with
  | record call =>
      obtain ⟨store, recorded, rfl⟩ := Option.map_eq_some_iff.mp stepIs
      exact inv.record recorded
  | receive =>
      simp only [step] at stepIs
      split at stepIs
      · rename_i ev receiving here
        cases stepIs
        exact inv.receive receiving here
      · cases stepIs
  | lag missed =>
      simp only [step] at stepIs
      split at stepIs
      · cases stepIs
        exact inv.ended (s.pos + missed)
      · cases stepIs
  | close =>
      simp only [step] at stepIs
      split at stepIs
      · cases stepIs
        exact inv.ended s.pos
      · cases stepIs
  | send =>
      simp only [step] at stepIs
      split at stepIs
      · rename_i l sending
        split_ifs at stepIs with gone room
        · cases stepIs
          exact inv.ended s.pos
        · cases stepIs
          exact inv.send sending (Bool.not_eq_false _ ▸ gone)
      · cases stepIs
  | write =>
      simp only [step] at stepIs
      split at stepIs
      · cases stepIs
      · rename_i l rest queueIs
        cases stepIs
        exact inv.write queueIs
  | disconnect =>
      cases stepIs
      exact inv.disconnect

/-- What a stream has written are the first of the matching events recorded since it
subscribed, in the order in which they were broadcast. -/
theorem written_isPrefix (encodes : ∀ ev, ∃ bytes, toVec ev = some bytes) (q : EventQuery)
    (store : EventStore) {actions : List StreamAction} {final : EventStream}
    (run : Run.exec (step toVec q) (subscribe store) actions = some final) :
    ∃ events, events <+: (final.store.sent.drop store.sent.length).filter q.matches ∧
      final.written.map some = events.map (line toVec) := by
  have inv : Inv toVec q store.sent.length final :=
    Run.exec_keeps_all (fun _ _ _ inv stepIs => step_inv inv stepIs) (inv_subscribe store) run
  have written : final.written <+: ((final.store.sent.drop store.sent.length).filter
      q.matches).filterMap (line toVec) :=
    (List.prefix_append final.written final.queue).trans inv.handed
  have encoded : ∀ events : List Event,
      (events.filterMap (line toVec)).map some = events.map (line toVec) := by
    intro events
    induction events with
    | nil => rfl
    | cons ev rest ih =>
        obtain ⟨bytes, isBytes⟩ := encodes ev
        have lineIs : line toVec ev = some (bytes ++ [0x0A]) := by rw [line, isBytes]; rfl
        rw [List.filterMap_cons_some lineIs, List.map_cons, List.map_cons, ih, lineIs]
  refine ⟨((final.store.sent.drop store.sent.length).filter q.matches).take final.written.length,
    List.take_prefix .., ?_⟩
  have asOptions := written.map some
  rw [encoded] at asOptions
  rw [List.map_take, ← List.length_map (f := some), ← List.prefix_iff_eq_take.mp asOptions]

def allCreations : EventQuery :=
  ⟨"/", true, [.containerCreation], 10, GoTime.zero, GoTime.zero⟩

def creationToVec (ev : Event) : Option (List UInt8) :=
  some (Str.utf8Bytes ("\x7b\"container_name\":\"" ++ ev.containerName ++
    "\",\"timestamp\":\"0001-01-01T00:00:00Z\",\"event_type\":\"containerCreation\"," ++
    "\"event_data\":\x7b\x7d\x7d"))

/-- Two creations are recorded, and the client reads the first before it goes away. -/
def twoCreations : List StreamAction :=
  [.record ⟨"/a", .containerCreation, GoTime.zero⟩, .receive, .send,
    .record ⟨"/b", .containerDeletion, GoTime.zero⟩,
    .record ⟨"/c", .containerCreation, GoTime.zero⟩, .write, .receive, .receive, .send, .disconnect]

theorem written_isPrefix_two_creations :
    ∃ final, Run.exec (step creationToVec allCreations) (subscribe EventStore.new) twoCreations =
        some final ∧ final.written.length = 1 ∧
      ∃ events, events <+:
          (final.store.sent.drop EventStore.new.sent.length).filter allCreations.matches ∧
        final.written.map some = events.map (line creationToVec) := by
  have ran : (Run.exec (step creationToVec allCreations) (subscribe EventStore.new)
      twoCreations).map (fun s => s.written.length) = some 1 := rfl
  obtain ⟨final, run, oneLine⟩ := Option.map_eq_some_iff.mp ran
  exact ⟨final, run, oneLine,
    written_isPrefix (fun ev => ⟨_, rfl⟩) allCreations EventStore.new run⟩

end EventStream

end Cadvisor
