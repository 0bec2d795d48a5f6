import Cadvisor.Api.Stream
import Cadvisor.Lib.Fields
import Cadvisor.Lib.Framing
import Cadvisor.Lib.Slice
import Cadvisor.Lib.Utf8

/-!
# Following the event stream

The suites read a stream of events line by line from whatever chunks arrive, and one
call after another looks for an event.  However the bytes were cut, the calls see the
events that the server matched, in the order in which it broadcast them, each once.
-/

set_option autoImplicit false

namespace Cadvisor

namespace Cad

variable {ν : Type}

inductive Stop where
  | late
  | failed
  | ended
  deriving DecidableEq

/-- What a call of `next_event` ends with. -/
inductive NextEvent (ν : Type) where
  | event (v : ν)
  | notJson (text : String)
  | stopped (stop : Stop)

/-- What the inner loop ends with. -/
inductive Buffered (ν : Type) where
  | event (v : ν)
  | notJson (text : String)
  | more

/-- The inner loop over the lines in the buffer, and what it leaves there.
`decode` is `serde_json::from_str`. -/
def readBuffered (decode : String → Option ν) (want : ν → Bool) (buf : List UInt8) :
    Buffered ν × List UInt8 :=
  match _position : buf.idxOf? 0x0A with
  | none => (.more, buf)
  | some nl =>
      let text := Str.fromUtf8Lossy (buf.take (nl + 1))
      let buf := buf.drop (nl + 1)
      if Str.trim text = "" then readBuffered decode want buf
      else
        match decode (Str.trim text) with
        | none => (.notJson text, buf)
        | some v => if want v then (.event v, buf) else readBuffered decode want buf
termination_by buf.length
decreasing_by
  all_goals
    have inside := (List.idxOf?_eq_some_iff.mp _position).1
    rw [List.length_drop]
    omega

/-- One call: the chunks that arrive while it waits, and how the waiting ends after these.
The buffer and the chunks it leaves are what the next call finds. -/
def nextEvent (decode : String → Option ν) (stop : Stop) (want : ν → Bool) :
    List UInt8 → List (List UInt8) → NextEvent ν × List UInt8 × List (List UInt8)
  | buf, chunks =>
      match readBuffered decode want buf with
      | (.event v, buf) => (.event v, buf, chunks)
      | (.notJson text, buf) => (.notJson text, buf, chunks)
      | (.more, buf) =>
          match chunks with
          | [] => (.stopped stop, buf, [])
          | chunk :: chunks => nextEvent decode stop want (buf ++ chunk) chunks

def follow (decode : String → Option ν) (stop : Stop) :
    List (ν → Bool) → List UInt8 → List (List UInt8) → List (NextEvent ν)
  | [], _, _ => []
  | want :: wants, buf, chunks =>
      match nextEvent decode stop want buf chunks with
      | (.event v, buf, chunks) => .event v :: follow decode stop wants buf chunks
      | (other, _, _) => [other]

def picks (stop : Stop) : List (ν → Bool) → List ν → List (NextEvent ν)
  | [], _ => []
  | want :: wants, vs =>
      match vs.dropWhile fun v => ¬ want v with
      | [] => [.stopped stop]
      | v :: later => .event v :: picks stop wants later

/-! ## One buffer -/

variable {decode : String → Option ν} {want : ν → Bool}

/-- A line's bytes without its line feed, and the value that is read from it. -/
structure Reads (decode : String → Option ν) (entry : List UInt8 × ν) : Prop where
  oneLine : (0x0A : UInt8) ∉ entry.1
  text : Str.trim (Str.fromUtf8Lossy (entry.1 ++ [0x0A])) ≠ ""
  value : decode (Str.trim (Str.fromUtf8Lossy (entry.1 ++ [0x0A]))) = some entry.2

def bytesOf (entries : List (List UInt8 × ν)) : List UInt8 :=
  Framing.terminated 0x0A (entries.map Prod.fst)

theorem idxOf?_line {frame : List UInt8} (plain : (0x0A : UInt8) ∉ frame) (rest : List UInt8) :
    (frame ++ 0x0A :: rest).idxOf? 0x0A = some frame.length := by
  induction frame with
  | nil => simp [List.idxOf?_cons]
  | cons b frame ih =>
      obtain ⟨differs, framePlain⟩ := not_or.mp (List.mem_cons.not.mp plain)
      have other : (b == 0x0A) = false := beq_eq_false_iff_ne.mpr (Ne.symm differs)
      rw [List.cons_append, List.idxOf?_cons, other, ih framePlain]
      rfl

theorem readBuffered_entries {entries : List (List UInt8 × ν)}
    (reads : ∀ e ∈ entries, Reads decode e) {part : List UInt8} (plain : (0x0A : UInt8) ∉ part) :
    readBuffered decode want (bytesOf entries ++ part) =
      match entries.dropWhile fun e => ¬ want e.2 with
      | [] => (.more, part)
      | e :: later => (.event e.2, bytesOf later ++ part) := by
  induction entries with
  | nil =>
      have none : part.idxOf? 0x0A = none := List.idxOf?_eq_none_iff.mpr plain
      rw [bytesOf, List.map_nil, Framing.terminated_nil, List.nil_append, readBuffered]
      split
      · rfl
      · rename_i nl found
        rw [none] at found
        cases found
  | cons e entries ih =>
      obtain ⟨first, others⟩ := List.forall_mem_cons.mp reads
      have bytes : bytesOf (e :: entries) ++ part = e.1 ++ 0x0A :: (bytesOf entries ++ part) := by
        simp [bytesOf]
      have line : (e.1 ++ 0x0A :: (bytesOf entries ++ part)).take (e.1.length + 1) =
          e.1 ++ [0x0A] := by
        rw [List.take_length_add_append, List.take_succ_cons, List.take_zero]
      have rest : (e.1 ++ 0x0A :: (bytesOf entries ++ part)).drop (e.1.length + 1) =
          bytesOf entries ++ part := by
        rw [List.drop_length_add_append, List.drop_succ_cons, List.drop_zero]
      rw [bytes, readBuffered]
      split
      · rename_i absent
        rw [idxOf?_line first.oneLine] at absent
        cases absent
      · rename_i nl found
        rw [idxOf?_line first.oneLine, Option.some.injEq] at found
        subst found
        simp only [line, rest, if_neg first.text, first.value]
        cases wanted : want e.2 with
        | true => simp [wanted]
        | false => simp [wanted, ih others]

/-! ## One call -/

theorem nextEvent_entries (stop : Stop) {chunks : List (List UInt8)}
    {entries : List (List UInt8 × ν)} (reads : ∀ e ∈ entries, Reads decode e)
    {tail : List UInt8} (tailPlain : (0x0A : UInt8) ∉ tail) {buf : List UInt8}
    (stream : buf ++ chunks.flatten = bytesOf entries ++ tail) :
    ∃ left coming, nextEvent decode stop want buf chunks =
        (match entries.dropWhile fun e => ¬ want e.2 with
          | [] => .stopped stop
          | e :: _ => .event e.2, left, coming) ∧
      ∀ e later, (entries.dropWhile fun e => ¬ want e.2) = e :: later →
        left ++ coming.flatten = bytesOf later ++ tail := by
  induction chunks generalizing buf entries with
  | nil =>
      rw [List.flatten_nil, List.append_nil] at stream
      have read := @readBuffered_entries ν decode want entries reads tail tailPlain
      rw [nextEvent, stream, read]
      cases found : entries.dropWhile fun e => ¬ want e.2 with
      | nil => exact ⟨tail, [], rfl, by simp⟩
      | cons e later =>
          refine ⟨bytesOf later ++ tail, [], rfl, ?_⟩
          intro first rest same
          cases same
          simp
  | cons chunk chunks ih =>
      obtain ⟨before, after, part, parts, held, partPlain, rest⟩ :=
        Framing.exists_cut tailPlain (List.forall_mem_map.mpr fun e member =>
          (reads e member).oneLine) stream
      obtain ⟨front, back, rfl, rfl, rfl⟩ := List.map_eq_append_iff.mp parts
      obtain ⟨frontReads, backReads⟩ := List.forall_mem_append.mp reads
      have read := @readBuffered_entries ν decode want front frontReads part partPlain
      have heldIs : buf = bytesOf front ++ part := held
      rw [nextEvent, heldIs, read, List.dropWhile_append]
      cases found : front.dropWhile fun e => ¬ want e.2 with
      | nil =>
          rw [List.flatten_cons, ← List.append_assoc] at rest
          exact ih backReads rest
      | cons e later =>
          refine ⟨bytesOf later ++ part, chunk :: chunks, rfl, ?_⟩
          intro first more same
          rw [List.isEmpty_cons, if_neg Bool.false_ne_true, List.cons_append] at same
          obtain ⟨_, rfl⟩ := List.cons.inj same
          rw [List.append_assoc, rest, bytesOf, bytesOf, List.map_append,
            Framing.terminated_append, List.append_assoc]

/-! ## One call after another -/

theorem follow_entries (stop : Stop) {wants : List (ν → Bool)} {chunks : List (List UInt8)}
    {entries : List (List UInt8 × ν)} (reads : ∀ e ∈ entries, Reads decode e)
    {tail : List UInt8} (tailPlain : (0x0A : UInt8) ∉ tail) {buf : List UInt8}
    (stream : buf ++ chunks.flatten = bytesOf entries ++ tail) :
    follow decode stop wants buf chunks = picks stop wants (entries.map Prod.snd) := by
  induction wants generalizing buf chunks entries with
  | nil => rfl
  | cons want wants ih =>
      obtain ⟨left, coming, found, restIs⟩ :=
        @nextEvent_entries ν decode want stop chunks entries reads tail tailPlain buf stream
      have values : (entries.map Prod.snd).dropWhile (fun v => ¬ want v) =
          (entries.dropWhile fun e => ¬ want e.2).map Prod.snd := List.dropWhile_map ..
      rw [follow, found, picks, values]
      cases ahead : entries.dropWhile fun e => ¬ want e.2 with
      | nil => rfl
      | cons e later =>
          have laterReads : ∀ e ∈ later, Reads decode e := by
            intro other member
            refine reads other ((List.dropWhile_sublist fun e => ¬ want e.2).subset ?_)
            rw [ahead]
            exact List.mem_cons_of_mem _ member
          exact congrArg (NextEvent.event e.2 :: ·) (ih laterReads (restIs e later ahead))

/-! ## The server's lines -/

theorem lineFeed_notMem {s : String} (oneLine : '\n' ∉ s.toList) :
    (0x0A : UInt8) ∉ Str.utf8Bytes s := by
  intro member
  obtain ⟨c, inText, inCode⟩ := List.mem_flatMap.mp member
  by_cases ascii : c.toNat < 128
  · rw [Str.utf8EncodeChar_ascii ascii, List.mem_singleton] at inCode
    have code : c.toNat = 10 := by
      have bytes := congrArg UInt8.toNat inCode
      rw [UInt8.toNat_ofNat'] at bytes
      have ten : (0x0A : UInt8).toNat = 10 := rfl
      omega
    have isLineFeed : c = '\n' := by
      rw [← Char.ofNat_toNat c, code]
    exact oneLine (isLineFeed ▸ inText)
  · have wide := Slice.le_of_mem_utf8EncodeChar ascii inCode
    exact absurd wide (by decide)

theorem reads_object {json middle : String} {v : ν} (object : json = "\x7b" ++ middle ++ "\x7d")
    (oneLine : '\n' ∉ json.toList) (value : decode json = some v) :
    Reads decode (Str.utf8Bytes json, v) := by
  have lineFeed : Str.utf8Bytes "\n" = [0x0A] := by decide
  have bytes : Str.utf8Bytes json ++ [0x0A] = Str.utf8Bytes (json ++ "\n") := by
    rw [← lineFeed, Str.utf8Bytes, Str.utf8Bytes, Str.utf8Bytes, String.toList_append,
      List.flatMap_append]
  have opening : "\x7b".toList = ['{'] := rfl
  have closing : "\x7d".toList = ['}'] := rfl
  have lineEnd : "\n".toList = ['\n'] := rfl
  have chars : json.toList = '{' :: (middle.toList ++ ['}']) := by
    rw [object, String.toList_append, String.toList_append, opening, closing]
    simp
  have trimmed : Str.trim (Str.fromUtf8Lossy (Str.utf8Bytes json ++ [0x0A])) = json := by
    have text : json ++ "\n" = String.ofList ([] ++ (json.toList ++ ['\n'])) := by
      rw [List.nil_append, ← lineEnd, ← String.toList_append, String.ofList_toList]
    rw [bytes, Str.fromUtf8Lossy_utf8Bytes, text, Str.trim_framed [] ['\n'] ?_ ?_
      (List.forall_mem_nil _) Str.newline_white, String.ofList_toList]
    · intro c first
      rw [chars, List.head?_cons, Option.some.injEq] at first
      rw [← first]
      decide
    · intro c last
      rw [chars, ← List.cons_append, List.getLast?_concat, Option.some.injEq] at last
      rw [← last]
      decide
  refine ⟨lineFeed_notMem oneLine, ?_, ?_⟩
  · rw [trimmed]
    intro isEmpty
    rw [isEmpty] at chars
    cases chars
  · rw [trimmed]
    exact value

theorem written_eq {json : Event → String} {q : EventQuery} {start : Nat} {s : EventStream}
    (inv : EventStream.Inv (fun ev => some (Str.utf8Bytes (json ev))) q start s) :
    ∃ events, events <+: (s.store.sent.drop start).filter q.matches ∧
      s.written = events.map fun ev => Str.utf8Bytes (json ev) ++ [0x0A] := by
  have lines : EventStream.linesFrom (fun ev => some (Str.utf8Bytes (json ev))) q start
      s.store.sent = ((s.store.sent.drop start).filter q.matches).map
        fun ev => Str.utf8Bytes (json ev) ++ [0x0A] := by
    rw [EventStream.linesFrom, ← List.filterMap_eq_map]
    rfl
  have written := (List.prefix_append s.written s.queue).trans inv.handed
  rw [lines] at written
  refine ⟨_, List.take_prefix s.written.length _, ?_⟩
  rw [List.map_take]
  exact List.prefix_iff_eq_take.mp written

/-- Whatever chunks a client has received of a streaming response, its calls see the values
of the matching events broadcast since the subscription whose lines are complete, each once
and in that order, and skip those that they do not look for. -/
theorem follow_stream (json : Event → String) (decode : String → Option ν) (value : Event → ν)
    (q : EventQuery) (store : EventStore) {actions : List StreamAction} {final : EventStream}
    (run : Run.exec (EventStream.step (fun ev => some (Str.utf8Bytes (json ev))) q)
      (EventStream.subscribe store) actions = some final)
    (object : ∀ ev ∈ final.store.sent, ∃ middle, json ev = "\x7b" ++ middle ++ "\x7d")
    (oneLine : ∀ ev ∈ final.store.sent, '\n' ∉ (json ev).toList)
    (decodes : ∀ ev ∈ final.store.sent, decode (json ev) = some (value ev))
    (stop : Stop) (wants : List (ν → Bool)) {chunks : List (List UInt8)}
    (received : chunks.flatten <+: final.written.flatten) :
    ∃ events, events <+: (final.store.sent.drop store.sent.length).filter q.matches ∧
      events.length = chunks.flatten.count 0x0A ∧
      follow decode stop wants [] chunks = picks stop wants (events.map value) := by
  have inv : EventStream.Inv _ q store.sent.length final :=
    Run.exec_keeps_all (fun _ _ _ inv stepIs => EventStream.step_inv inv stepIs)
      (EventStream.inv_subscribe store) run
  obtain ⟨events, inOrder, writtenIs⟩ := written_eq inv
  have known : ∀ ev ∈ events, ev ∈ final.store.sent := fun ev member =>
    List.mem_of_mem_drop (List.mem_of_mem_filter (inOrder.subset member))
  have reads : ∀ ev ∈ events, Reads decode (Str.utf8Bytes (json ev), value ev) := by
    intro ev member
    obtain ⟨middle, isObject⟩ := object ev (known ev member)
    exact reads_object isObject (oneLine ev (known ev member)) (decodes ev (known ev member))
  obtain ⟨rest, whole⟩ := received
  have stream : chunks.flatten ++ rest =
      Framing.terminated 0x0A (events.map fun ev => Str.utf8Bytes (json ev)) ++ [] := by
    rw [whole, writtenIs, List.append_nil, Framing.terminated, List.flatMap_map, List.flatMap_def]
  obtain ⟨before, after, part, parts, held, partPlain, _⟩ :=
    Framing.exists_cut List.not_mem_nil
      (List.forall_mem_map.mpr fun ev member => (reads ev member).oneLine) stream
  obtain ⟨front, back, rfl, rfl, rfl⟩ := List.map_eq_append_iff.mp parts
  obtain ⟨frontReads, _⟩ := List.forall_mem_append.mp reads
  refine ⟨front, (List.prefix_append front back).trans inOrder, ?_, ?_⟩
  · have linesPlain : ∀ frame ∈ front.map fun ev => Str.utf8Bytes (json ev),
        (0x0A : UInt8) ∉ frame :=
      List.forall_mem_map.mpr fun ev member => (frontReads ev member).oneLine
    rw [held, List.count_append, Framing.count_terminated linesPlain,
      List.count_eq_zero_of_not_mem partPlain, List.length_map, Nat.add_zero]
  · have entries : ([] : List UInt8) ++ chunks.flatten =
        bytesOf (front.map fun ev => (Str.utf8Bytes (json ev), value ev)) ++ part := by
      rw [List.nil_append, held, bytesOf, List.map_map]
      rfl
    rw [follow_entries stop (List.forall_mem_map.mpr frontReads) partPlain entries, List.map_map]
    rfl

def creationJson (ev : Event) : String :=
  "\x7b" ++ ("\"container_name\":\"" ++ ev.containerName ++
    "\",\"timestamp\":\"0001-01-01T00:00:00Z\",\"event_type\":\"containerCreation\"," ++
    "\"event_data\":\x7b\x7d") ++ "\x7d"

def creationName (text : String) : Option String := do
  let behind ← Str.splitOnceAt text "\"container_name\":\""
  let name ← Str.splitOnceAt behind.2 "\""
  return name.1

/-- Two creations are written, with a deletion between them that is not asked for. -/
def writtenCreations : List StreamAction :=
  [.record ⟨"/a", .containerCreation, GoTime.zero⟩, .receive, .send,
    .record ⟨"/b", .containerDeletion, GoTime.zero⟩,
    .record ⟨"/c", .containerCreation, GoTime.zero⟩, .write, .receive, .receive, .send, .write]

theorem follow_stream_creations :
    ∃ final, Run.exec (EventStream.step (fun ev => some (Str.utf8Bytes (creationJson ev)))
        EventStream.allCreations) (EventStream.subscribe EventStore.new) writtenCreations =
        some final ∧
      ∃ events, events <+: (final.store.sent.drop EventStore.new.sent.length).filter
          EventStream.allCreations.matches ∧
        events.length =
          [final.written.flatten.take 20, final.written.flatten.drop 20].flatten.count 0x0A ∧
        follow creationName .late [fun name => name = "/c"] []
            [final.written.flatten.take 20, final.written.flatten.drop 20] =
          picks .late [fun name => name = "/c"] (events.map Event.containerName) := by
  have ran : (Run.exec (EventStream.step (fun ev => some (Str.utf8Bytes (creationJson ev)))
      EventStream.allCreations) (EventStream.subscribe EventStore.new) writtenCreations).map
        (fun s => s.store.sent.map Event.containerName) = some ["/a", "/b", "/c"] := rfl
  obtain ⟨final, run, names⟩ := Option.map_eq_some_iff.mp ran
  have named : ∀ ev ∈ final.store.sent, ev.containerName ∈ ["/a", "/b", "/c"] := by
    intro ev member
    exact names ▸ List.mem_map_of_mem member
  refine ⟨final, run, follow_stream creationJson creationName Event.containerName
    EventStream.allCreations EventStore.new run (fun ev _ => ⟨_, rfl⟩) ?_ ?_ .late
    [fun name => name = "/c"] ?_⟩
  · intro ev member
    have plain : ∀ name ∈ ["/a", "/b", "/c"],
        '\n' ∉ (creationJson { containerName := name }).toList := by
      decide +kernel
    exact plain _ (named ev member)
  · intro ev member
    have decodes : ∀ name ∈ ["/a", "/b", "/c"],
        creationName (creationJson { containerName := name }) = some name := by
      decide +kernel
    exact decodes _ (named ev member)
  · simp

end Cad

end Cadvisor
