import Cadvisor.Lib.Fallible
import Cadvisor.Metrics.Exposition
import Cadvisor.Metrics.Scrape

/-!
# Scraping what was rendered

The strict reader takes the text of a snapshot apart again.  What it finds is the
series that the text was written for, each with the value its text stands for,
and nothing else; the read fails exactly if the text of some value does.
-/

set_option autoImplicit false

namespace Cadvisor

open SortedSeq Output

/-! ## The text of a value has no white space -/

/-- `ryu` writes no white space. -/
def Ryu.Black (ryu : Ryu) : Prop := ∀ v, ∀ c ∈ (ryu.format v).toList, Str.isWhitespace c = false

theorem layoutDigits_black {digits : List Char}
    (black : ∀ c ∈ digits, Str.isWhitespace c = false) (exp : Int) :
    ∀ c ∈ layoutDigits digits exp, Str.isWhitespace c = false := by
  have zeros : ∀ n, ∀ c ∈ List.replicate n '0', Str.isWhitespace c = false := by
    intro n c member
    rw [List.eq_of_mem_replicate member]
    decide
  have front : ∀ n, ∀ c ∈ digits.take n, Str.isWhitespace c = false :=
    fun n c member => black c (List.mem_of_mem_take member)
  have back : ∀ n, ∀ c ∈ digits.drop n, Str.isWhitespace c = false :=
    fun n c member => black c (List.mem_of_mem_drop member)
  have power := Str.toString_black exp.natAbs
  have point : Str.isWhitespace '.' = false := by decide
  have zero : Str.isWhitespace '0' = false := by decide
  unfold layoutDigits
  split_ifs
  all_goals
    simp only [List.forall_mem_append, List.forall_mem_cons, List.nil_append, List.append_nil]
    repeat' apply And.intro
  all_goals first
    | assumption
    | exact front _
    | exact back _
    | exact zeros _
    | exact List.forall_mem_nil _

theorem reshape_black {s : List Char} (black : ∀ c ∈ s, Str.isWhitespace c = false) :
    ∀ c ∈ reshape s, Str.isWhitespace c = false := by
  unfold reshape
  dsimp only
  split_ifs
  · exact layoutDigits_black (List.forall_mem_singleton.mpr rfl) 0
  · apply layoutDigits_black
    exact fun c member => black c (mem_of_mem_significant (mem_of_mem_trimEndZeros member))

theorem fmtFloat_black {ryu : Ryu} (black : ryu.Black) (v : Float) :
    ∀ c ∈ (fmtFloat ryu v).toList, Str.isWhitespace c = false := by
  unfold fmtFloat
  split_ifs
  · exact Str.black_of_all rfl
  · exact Str.black_of_all rfl
  · exact Str.black_of_all rfl
  · exact Str.black_of_all rfl
  · exact Str.black_of_all rfl
  · exact Str.black_of_all rfl
  · cases stripped : Str.stripPrefix (ryu.format v) "-" with
    | none =>
        rw [String.toList_ofList]
        exact reshape_black (black v)
    | some rest =>
        have parts := Str.stripPrefix_eq_some_iff.mp stripped
        have restBlack : ∀ c ∈ rest.toList, Str.isWhitespace c = false := by
          intro c member
          refine black v c ?_
          rw [parts]
          exact List.mem_append_right _ member
        have digits := reshape_black restBlack
        have sign : ∀ c ∈ "-".toList, Str.isWhitespace c = false := Str.black_of_all rfl
        simp only [String.toList_append, String.toList_ofList, List.forall_mem_append]
        exact ⟨sign, digits⟩

/-! ## Timestamps are milliseconds of instants -/

/-- A timestamp that is the milliseconds of an instant. -/
def Stamp (ts : Option Int) : Prop := ∀ ms ∈ ts, ∃ t : GoTime, ms = t.timestampMillis

theorem stamp_none : Stamp none := by
  intro ms member
  cases member

theorem stamp_some (t : GoTime) : Stamp (some t.timestampMillis) := by
  intro ms member
  cases member
  exact ⟨t, rfl⟩

theorem Stamp.int64 {ts : Option Int} (stamp : Stamp ts) :
    ∃ n : Option Int64, n.map Int64.toInt = ts := by
  cases ts with
  | none => exact ⟨none, rfl⟩
  | some ms =>
      obtain ⟨t, rfl⟩ := stamp ms rfl
      have low := t.notBefore
      have high := t.notAfter
      unfold chronoMin at low
      unfold chronoMax at high
      refine ⟨some (Int64.ofInt t.timestampMillis), congrArg some ?_⟩
      apply Int64.toInt_ofInt_of_le
      · unfold GoTime.timestampMillis
        rw [Int.fdiv_eq_ediv_of_nonneg _ (by decide)]
        omega
      · unfold GoTime.timestampMillis
        rw [Int.fdiv_eq_ediv_of_nonneg _ (by decide)]
        omega

theorem specReadings_stamp (opts : MetricsOpts) (spec : ContainerSpec) (now : GoTime) :
    ∀ r ∈ specReadings opts spec now, Stamp r.ts := by
  have stamp := stamp_none
  have clock := stamp_some now
  unfold specReadings
  split_ifs
  all_goals
    simp only [List.forall_mem_append, List.forall_mem_cons, List.nil_append]
    simp [stamp, clock]

theorem operationReading_ts (family device op : String) (entry : PerDiskStats)
    (ts : Option Int) : ∀ r ∈ operationReading family device op entry ts, r.ts = ts := by
  unfold operationReading
  split
  · exact List.forall_mem_singleton.mpr rfl
  · exact List.forall_mem_nil _

theorem cpuReadings_ts (spec : ContainerSpec) (s : ContainerStats) (ts : Option Int) :
    ∀ r ∈ cpuReadings spec s ts, r.ts = ts := by
  unfold cpuReadings
  simp only [List.forall_mem_append]
  refine ⟨⟨by simp, ?_⟩, ?_⟩
  · split_ifs
    · simp
    · exact List.forall_mem_nil _
    · intro r member
      obtain ⟨cpu, _, isReading⟩ := List.mem_filterMap.mp member
      split_ifs at isReading
      rw [← Option.some.inj isReading]
  · split_ifs
    · simp
    · exact List.forall_mem_nil _

theorem diskIoReadings_ts (diskMap : SortedMap String DiskInfo) (s : ContainerStats)
    (ts : Option Int) : ∀ r ∈ diskIoReadings diskMap s ts, r.ts = ts := by
  unfold diskIoReadings
  simp only [List.forall_mem_append, List.forall_mem_flatMap, List.forall_mem_map]
  refine ⟨⟨fun entry _ => ⟨⟨by simp, ?_⟩, ?_⟩, fun entry _ => ⟨?_, ?_⟩⟩, fun fs _ => by simp⟩
  all_goals exact operationReading_ts _ _ _ entry ts

theorem latestReadings_ts (opts : MetricsOpts) (diskMap : SortedMap String DiskInfo)
    (spec : ContainerSpec) (s : ContainerStats) :
    ∀ r ∈ latestReadings opts diskMap spec s, r.ts = some s.timestamp.timestampMillis := by
  have gated : ∀ {readings : List Reading} {group : String},
      (∀ r ∈ readings, r.ts = some s.timestamp.timestampMillis) →
        ∀ r ∈ opts.gate group readings, r.ts = some s.timestamp.timestampMillis := by
    intro readings group timed
    unfold MetricsOpts.gate
    split_ifs
    · exact timed
    · exact List.forall_mem_nil _
  unfold latestReadings
  simp only [List.forall_mem_append]
  refine ⟨⟨⟨⟨⟨⟨?_, ?_⟩, ?_⟩, ?_⟩, ?_⟩, ?_⟩, ?_⟩
  all_goals apply gated
  · exact cpuReadings_ts spec s _
  · simp [cpuLoadReadings]
  · simp [memoryReadings]
  · exact List.forall_mem_flatMap.mpr fun fs _ => by simp
  · exact diskIoReadings_ts diskMap s _
  · exact List.forall_mem_flatMap.mpr fun iface _ => by simp
  · simp [oomReadings]

namespace Snapshot

theorem pushes_stamp (snap : Snapshot) (opts : MetricsOpts) :
    ∀ p ∈ snap.pushes opts, Stamp p.ts := by
  have machine := stamp_some snap.machineInfo.timestamp
  refine List.forall_mem_append.mpr ⟨List.forall_mem_cons.mpr ⟨stamp_none, ?_⟩,
    List.forall_mem_cons.mpr ⟨stamp_none, ?_⟩⟩
  · refine List.forall_mem_flatMap.mpr fun h _ => List.forall_mem_map.mpr fun r inReadings => ?_
    rcases List.mem_append.mp inReadings with fromSpec | fromSample
    · exact specReadings_stamp opts h.spec snap.now r fromSpec
    · cases latest : h.store.latest with
      | none =>
          rw [latest] at fromSample
          exact absurd fromSample List.not_mem_nil
      | some s =>
          rw [latest] at fromSample
          rw [latestReadings_ts opts _ h.spec s r fromSample]
          exact stamp_some s.timestamp
  · simp [machinePushes, machine, stamp_none]

end Snapshot

/-! ## Lines that the reader sees -/

theorem dropCarriageReturn_append {front back : List Char} (some' : back ≠ [])
    (plain : '\r' ∉ back) : Str.dropCarriageReturn (front ++ back) = front ++ back := by
  rw [Str.dropCarriageReturn, if_neg]
  intro ends
  rw [List.getLast?_append_of_ne_nil _ some'] at ends
  exact plain (List.mem_of_getLast? ends)

theorem lines_unlines {lines : List String} (oneLine : ∀ line ∈ lines, '\n' ∉ line.toList)
    (kept : ∀ line ∈ lines, Str.dropCarriageReturn line.toList = line.toList) :
    Str.lines (unlines lines) = lines := by
  have chars : lines.flatMap (fun line => line.toList ++ ['\n']) =
      (lines.map String.toList).flatMap fun part => part ++ ['\n'] := by
    rw [List.flatMap_map]
  rw [unlines, chars, Str.lines_terminated (List.forall_mem_map.mpr oneLine), List.map_map,
    List.map_map]
  refine (List.map_congr_left fun line member => ?_).trans (List.map_id lines)
  simp [kept line member]

set_option maxRecDepth 4000 in
theorem families_readable : ∀ family ∈ families,
    Expo.isName family.name.toList = true ∧ '\r' ∉ family.help.toList := by
  have spelled : ∀ {l : List Char}, Expo.isName l = true →
      Expo.isName (String.ofList l).toList = true := by
    intro l isName
    rw [String.toList_ofList]
    exact isName
  dsimp only [families]
  repeat
    refine List.forall_mem_cons.mpr ⟨⟨spelled ?_, Str.notMem_ofList ?_⟩, ?_⟩
    · decide +kernel
    · decide +kernel
  exact fun _ member => absurd member List.not_mem_nil

theorem LabelName.isName {name : String} (legal : LabelName name) :
    Expo.isName name.toList = true := by
  obtain ⟨plain, first, rest, spelled, notDigit⟩ := legal
  have parts : ∀ c ∈ name.toList, Expo.isNamePart c = true := by
    intro c member
    have isChar := plain c member
    simp only [isNameChar, decide_eq_true_eq] at isChar
    simp only [Expo.isNamePart, Expo.isNameStart, Expo.isAsciiAlphabetic, decide_eq_true_eq]
    tauto
  rw [spelled] at parts ⊢
  obtain ⟨firstPart, restParts⟩ := List.forall_mem_cons.mp parts
  refine decide_eq_true ⟨?_, List.all_eq_true.mpr restParts⟩
  simp only [Expo.isNamePart, decide_eq_true_eq] at firstPart
  rcases firstPart with start | digit
  · exact start
  · have isDigit : first.isDigit = true := by
      rw [Char.isDigit, Bool.and_eq_true, decide_eq_true_eq, decide_eq_true_eq]
      exact digit
    rw [isDigit] at notDigit
    cases notDigit

/-! ## The lines of one family -/

def Output.Block.pushes (b : Block) : List Push :=
  b.samples.map fun s => ⟨b.family.name, s.labels, s.value, s.ts⟩

/-- The pushes whose series are in the text, in its order. -/
def served (pushes : List Push) : List Push := (blocks pushes).flatMap Block.pushes

/-- A push with names and a timestamp that the reader takes. -/
structure Push.Readable (p : Push) : Prop where
  family : Expo.isName p.family.toList = true
  labels : ∀ l ∈ p.labels, Expo.isName l.1.toList = true
  stamp : Stamp p.ts

namespace Expo

variable {ryu : Ryu} {parseF64 : String → Option Float}

def reread (ryu : Ryu) (parseF64 : String → Option Float) (p : Push) : Option Sample :=
  (parseValue parseF64 (fmtFloat ryu p.value)).map fun v => ⟨p.family, p.labels, v, p.ts⟩

theorem sample_text (black : ryu.Black) {p : Push} (readable : p.Readable) :
    (sample parseF64 (p.text ryu)).toOption = reread ryu parseF64 p := by
  obtain ⟨ts, stampIs⟩ := readable.stamp.int64
  have noSpace := Str.space_notMem_of_black (fmtFloat_black black p.value)
  have read := sample_line parseF64 readable.family readable.labels noSpace ts
  rw [stampIs] at read
  rw [Push.text, sampleText, read, readBack, reread]
  cases parseValue parseF64 (fmtFloat ryu p.value) <;> rfl

theorem readLine_named {e : Expo} {n : Nat} {line : String} {c : Char} {rest : List Char}
    (spelled : line.toList = c :: rest) (notHash : c ≠ '#') :
    readLine parseF64 e n line =
      match sample parseF64 line with
      | .error m => .error (.sample n m line)
      | .ok s =>
          if ¬ e.types.contains (family s.name e.types) then .error (.noType n s.name)
          else .ok (e, some s) := by
  have written : line ≠ "" := by
    intro isEmpty
    rw [isEmpty] at spelled
    cases spelled
  have notComment : ¬ Str.startsWith line "#" = true := by
    intro comment
    obtain ⟨back, parts⟩ := Str.startsWith_iff.mp comment
    rw [spelled] at parts
    exact notHash (List.cons.inj parts).1
  have notStripped : Str.stripPrefix line "# " = none := by
    by_contra found
    obtain ⟨behind, stripped⟩ := Option.ne_none_iff_exists'.mp found
    exact notComment (Str.startsWith_iff.mpr
      ⟨' ' :: behind.toList, Str.stripPrefix_eq_some_iff.mp stripped⟩)
  rw [readLine, if_neg written, notStripped]
  exact if_neg notComment

theorem readLine_text (black : ryu.Black) {e : Expo} {n : Nat} {p : Push}
    (readable : p.Readable) (typed : e.types.contains p.family = true) :
    (readLine parseF64 e n (p.text ryu)).toOption =
      (reread ryu parseF64 p).map fun s => (e, some s) := by
  obtain ⟨c, rest, spelled, start, _⟩ := isName_cons readable.family
  have notHash : c ≠ '#' := by
    intro isHash
    rw [isHash] at start
    exact absurd start (by decide)
  have lineIs : (p.text ryu).toList = c :: (rest ++ (labelSet p.labels ++ " " ++
      fmtFloat ryu p.value ++ timestampText p.ts).toList) := by
    simp [Push.text, sampleText, seriesHead, spelled]
  have read := @sample_text ryu parseF64 black p readable
  rw [readLine_named lineIs notHash]
  cases isSample : sample parseF64 (p.text ryu) with
  | error m =>
      rw [isSample] at read
      rw [← read]
      rfl
  | ok s =>
      rw [isSample] at read
      obtain ⟨v, _, sampleIs⟩ := Option.map_eq_some_iff.mp read.symm
      have named : family s.name e.types = p.family := by
        rw [← sampleIs, family, if_pos typed]
      rw [← read]
      dsimp only
      rw [named, if_neg (not_not.mpr typed)]
      rfl

theorem readLines_texts (black : ryu.Black) {ps : List Push} (rest : List String)
    (readable : ∀ p ∈ ps, p.Readable) {e : Expo}
    (typed : ∀ p ∈ ps, e.types.contains p.family = true) (i : Nat) :
    (readLines parseF64 i (ps.map (Push.text ryu) ++ rest) e).toOption =
      (ps.mapM (reread ryu parseF64)).bind fun read =>
        (readLines parseF64 (i + ps.length) rest
          { e with samples := e.samples ++ read }).toOption := by
  induction ps generalizing i e with
  | nil => simp
  | cons p ps ih =>
      obtain ⟨pReadable, psReadable⟩ := List.forall_mem_cons.mp readable
      obtain ⟨pTyped, psTyped⟩ := List.forall_mem_cons.mp typed
      have first := @readLine_text ryu parseF64 black e (i + 1) p pReadable pTyped
      rw [List.map_cons, List.cons_append, readLines, List.mapM_cons]
      cases value : reread ryu parseF64 p with
      | none =>
          rw [value] at first
          cases line : readLine parseF64 e (i + 1) (p.text ryu) with
          | error err => rfl
          | ok out =>
              rw [line] at first
              cases first
      | some s =>
          rw [value] at first
          cases line : readLine parseF64 e (i + 1) (p.text ryu) with
          | error err =>
              rw [line] at first
              cases first
          | ok out =>
              rw [line] at first
              cases first
              have others := @ih psReadable (e.push (some s)) psTyped (i + 1)
              have length : i + 1 + ps.length = i + (p :: ps).length := by
                rw [List.length_cons]
                omega
              dsimp only
              rw [others, length]
              cases ps.mapM (reread ryu parseF64) with
              | none => rfl
              | some read => simp [push]

def withHeader (e : Expo) (f : Family) : Expo :=
  { e with types := e.types.insert f.name f.kind.asStr, helps := e.helps.insert f.name () }

theorem splitThree_header {word name back : String} (wordPlain : ' ' ∉ word.toList)
    (namePlain : ' ' ∉ name.toList) :
    splitThree (word ++ " " ++ name ++ " " ++ back) = (word, some name, some back) := by
  have space : " ".toList = [' '] := rfl
  have first : Str.splitOnce (word ++ " " ++ name ++ " " ++ back) ' ' =
      some (word, name ++ " " ++ back) := by
    rw [Str.splitOnce_eq_some_iff]
    exact ⟨by simp [space], wordPlain⟩
  have second : Str.splitOnce (name ++ " " ++ back) ' ' = some (name, back) := by
    rw [Str.splitOnce_eq_some_iff]
    exact ⟨by simp [space], namePlain⟩
  rw [splitThree, first]
  dsimp only
  rw [second]

theorem readLine_comment {e : Expo} {n : Nat} (rest : String) :
    readLine parseF64 e n ("# " ++ rest) = (readComment e n rest).map fun e => (e, none) := by
  have written : "# " ++ rest ≠ "" := by
    intro isEmpty
    have hash : "# ".toList = ['#', ' '] := rfl
    have chars := congrArg String.toList isEmpty
    rw [String.toList_append, hash] at chars
    cases chars
  rw [readLine, if_neg written, Str.stripPrefix_append]

theorem readLine_help {e : Expo} {n : Nat} {f : Family} (plain : ' ' ∉ f.name.toList) :
    readLine parseF64 e n ("# HELP " ++ f.name ++ " " ++ f.help) =
      .ok ({ e with helps := e.helps.insert f.name () }, none) := by
  have parts : "# HELP " ++ f.name ++ " " ++ f.help =
      "# " ++ ("HELP" ++ " " ++ f.name ++ " " ++ f.help) := by
    have word : "# HELP " = "# " ++ ("HELP" ++ " ") := by decide
    simp only [word, String.append_assoc]
  rw [parts, readLine_comment, readComment, splitThree_header (by decide) plain]
  dsimp only
  rw [if_pos rfl]
  rfl

theorem readLine_type {e : Expo} {n : Nat} {f : Family} (plain : ' ' ∉ f.name.toList)
    (fresh : e.types.contains f.name = false) :
    readLine parseF64 e n ("# TYPE " ++ f.name ++ " " ++ f.kind.asStr) =
      .ok ({ e with types := e.types.insert f.name f.kind.asStr }, none) := by
  have parts : "# TYPE " ++ f.name ++ " " ++ f.kind.asStr =
      "# " ++ ("TYPE" ++ " " ++ f.name ++ " " ++ f.kind.asStr) := by
    have word : "# TYPE " = "# " ++ ("TYPE" ++ " ") := by decide
    simp only [word, String.append_assoc]
  have known : f.kind.asStr ∈ ["counter", "gauge", "histogram", "summary", "untyped"] := by
    cases f.kind <;> simp [Kind.asStr]
  rw [parts, readLine_comment, readComment, splitThree_header (by decide) plain]
  dsimp only
  rw [if_neg (by decide), if_pos rfl, readType, if_neg (not_not.mpr known),
    if_neg (by simp [fresh])]
  rfl

theorem push_none (e : Expo) : e.push none = e := by simp [push]

theorem lines_eq (ryu : Ryu) (b : Block) :
    b.lines ryu = ("# HELP " ++ b.family.name ++ " " ++ b.family.help) ::
      ("# TYPE " ++ b.family.name ++ " " ++ b.family.kind.asStr) ::
        b.pushes.map (Push.text ryu) := by
  rw [Block.lines, Block.pushes, List.map_map]
  rfl

theorem readLines_block (black : ryu.Black) {b : Block} (rest : List String)
    (plain : ' ' ∉ b.family.name.toList) (readable : ∀ p ∈ b.pushes, p.Readable) {e : Expo}
    (fresh : e.types.contains b.family.name = false) (i : Nat) :
    (readLines parseF64 i (b.lines ryu ++ rest) e).toOption =
      (b.pushes.mapM (reread ryu parseF64)).bind fun read =>
        (readLines parseF64 (i + (b.pushes.length + 2)) rest
          { e.withHeader b.family with samples := e.samples ++ read }).toOption := by
  have typed : ∀ p ∈ b.pushes, (e.withHeader b.family).types.contains p.family = true := by
    intro p member
    obtain ⟨s, _, rfl⟩ := List.mem_map.mp member
    exact (SortedMap.contains_iff_mem_keys _ _).mpr
      ((SortedMap.mem_keys_insert _ _ _ _).mpr (Or.inl rfl))
  have body := @readLines_texts ryu parseF64 black b.pushes rest readable
    (e.withHeader b.family) typed (i + 1 + 1)
  have place : i + 1 + 1 + b.pushes.length = i + (b.pushes.length + 2) := by omega
  rw [place] at body
  have typeLine := @readLine_type parseF64
    { e with helps := e.helps.insert b.family.name () } (i + 1 + 1) b.family plain fresh
  rw [lines_eq, List.cons_append, List.cons_append, readLines, readLine_help plain]
  dsimp only
  rw [push_none, readLines, typeLine]
  dsimp only
  rw [push_none]
  exact body

def typesOf (bs : List Block) : List (String × String) :=
  bs.map fun b => (b.family.name, b.family.kind.asStr)

def namesOf (bs : List Block) : List String := bs.map fun b => b.family.name

/-- What reading some blocks adds: their samples, and their headers. -/
def withBlocks (e : Expo) (bs : List Block) (read : List Sample) : Expo where
  samples := e.samples ++ read
  types := (typesOf bs).foldl (fun types t => types.insert t.1 t.2) e.types
  helps := SortedSet.extend e.helps (namesOf bs)

theorem readLines_blocks (black : ryu.Black) {bs : List Block}
    (plain : ∀ b ∈ bs, ' ' ∉ b.family.name.toList)
    (readable : ∀ b ∈ bs, ∀ p ∈ b.pushes, p.Readable) (distinct : (namesOf bs).Nodup) {e : Expo}
    (fresh : ∀ name ∈ namesOf bs, e.types.contains name = false) (i : Nat) :
    (readLines parseF64 i (bs.flatMap (Block.lines ryu)) e).toOption =
      ((bs.flatMap Block.pushes).mapM (reread ryu parseF64)).map (e.withBlocks bs) := by
  induction bs generalizing i e with
  | nil =>
      have same : e.withBlocks [] [] = e := by simp [withBlocks, typesOf, namesOf, SortedSet.extend]
      simp [readLines, Except.toOption, same]
  | cons b bs ih =>
      obtain ⟨bPlain, bsPlain⟩ := List.forall_mem_cons.mp plain
      obtain ⟨bReadable, bsReadable⟩ := List.forall_mem_cons.mp readable
      obtain ⟨bFresh, bsFresh⟩ := List.forall_mem_cons.mp fresh
      obtain ⟨bNew, bsDistinct⟩ := List.nodup_cons.mp distinct
      have stillFresh : ∀ name ∈ namesOf bs,
          (e.withHeader b.family).types.contains name = false := by
        intro name member
        have other : name ≠ b.family.name := by
          rintro rfl
          exact bNew member
        have absent := bsFresh name member
        simp only [withHeader, SortedMap.contains, SortedMap.get?_insert, if_neg other]
        exact absent
      rw [List.flatMap_cons, List.flatMap_cons, readLines_block black _ bPlain bReadable bFresh,
        List.mapM_append]
      cases b.pushes.mapM (reread ryu parseF64) with
      | none => rfl
      | some read =>
          have others := @ih bsPlain bsReadable bsDistinct
            { e.withHeader b.family with samples := e.samples ++ read } stillFresh
            (i + (b.pushes.length + 2))
          rw [Option.bind_some, others]
          cases (bs.flatMap Block.pushes).mapM (reread ryu parseF64) with
          | none => rfl
          | some more => simp [withBlocks, withHeader, typesOf, namesOf, SortedSet.extend]

theorem reread_eq_some {p : Push} {s : Sample} (value : reread ryu parseF64 p = some s) :
    s.name = p.family ∧ s.labels = p.labels ∧ s.ts = p.ts := by
  obtain ⟨v, _, rfl⟩ := Option.map_eq_some_iff.mp value
  exact ⟨rfl, rfl, rfl⟩

theorem mapM_reread_series {ps : List Push} {read : List Sample}
    (values : ps.mapM (reread ryu parseF64) = some read) :
    (read.map fun s => (s.name, s.labels, s.ts)) = ps.map fun p => (p.family, p.labels, p.ts) := by
  refine Traverse.map_of_mapM values fun p _ s value => ?_
  obtain ⟨name, labels, ts⟩ := reread_eq_some value
  rw [name, labels, ts]

theorem exists_read_iff {ps : List Push} {read : List Sample}
    (values : ps.mapM (reread ryu parseF64) = some read)
    (P : String × List (String × String) × Option Int → Prop) :
    (∃ s ∈ read, P (s.name, s.labels, s.ts)) ↔ ∃ p ∈ ps, P (p.family, p.labels, p.ts) := by
  have series := mapM_reread_series values
  have sides : ∀ {α : Type} (xs : List α) (g : α → String × List (String × String) × Option Int),
      (∃ x ∈ xs, P (g x)) ↔ ∃ y ∈ xs.map g, P y := by simp
  rw [sides read fun s => (s.name, s.labels, s.ts), series,
    ← sides ps fun p => (p.family, p.labels, p.ts)]

end Expo

/-! ## The series of a text -/

theorem mem_written_iff {series : List Series} {s : Series} :
    s ∈ written series ↔ series.find? (fun x => x.labels = s.labels) = some s := by
  have run := written_filter_labels series s.labels
  rw [List.take_one, List.head?_filter] at run
  have inRun : s ∈ (written series).filter (fun x => x.labels = s.labels) ↔ s ∈ written series := by
    simp
  rw [← inRun, run, Option.mem_toList]

theorem find?_bucket (pushes : List Push) (p : Push) :
    ((pushes.filter fun q => q.family = p.family).map Push.series).find?
        (fun s => s.labels = p.labels) =
      (pushes.find? fun q => p.SameSeries q).map Push.series := by
  rw [List.find?_map, List.find?_filter]
  congr 2
  funext q
  rw [Bool.eq_iff_iff, decide_eq_true_iff, decide_eq_true_iff, Function.comp_apply,
    decide_eq_true_iff, decide_eq_true_iff]
  exact Iff.rfl

theorem mem_served_iff {pushes : List Push} {p : Push} :
    p ∈ served pushes ↔
      p.family ∈ familyNames ∧ pushes.find? (fun q => p.SameSeries q) = some p := by
  constructor
  · intro member
    obtain ⟨b, isBlock, inBlock⟩ := List.mem_flatMap.mp member
    obtain ⟨s, inSamples, isPush⟩ := List.mem_map.mp inBlock
    obtain ⟨inTable, _, samplesAre⟩ := (mem_blocks_iff _ b).mp isBlock
    have sameFamily : b.family.name = p.family := by rw [← isPush]
    have sameSeries : s = p.series := by rw [← isPush]; rfl
    have sameLabels : s.labels = p.labels := by rw [sameSeries]; rfl
    rw [samplesAre, mem_written_iff, sameFamily, sameLabels, find?_bucket] at inSamples
    obtain ⟨q, found, isSeries⟩ := Option.map_eq_some_iff.mp inSamples
    have same : p.SameSeries q := by simpa using List.find?_some found
    have isFirst : q = p := by
      have values : q.series = p.series := isSeries.trans sameSeries
      have rebuilt : ∀ r : Push, r = ⟨r.family, r.series.labels, r.series.value, r.series.ts⟩ :=
        fun _ => rfl
      rw [rebuilt q, values, same.1, ← rebuilt p]
    exact ⟨sameFamily ▸ List.mem_map_of_mem inTable, isFirst ▸ found⟩
  · rintro ⟨inTable, found⟩
    obtain ⟨family, member, sameName⟩ := List.mem_map.mp inTable
    have inPushes : p ∈ pushes := List.mem_of_find?_eq_some found
    refine List.mem_flatMap.mpr ⟨⟨family, written
      ((pushes.filter fun q => q.family = family.name).map Push.series)⟩, ?_, ?_⟩
    · refine (mem_blocks_iff _ _).mpr ⟨member, ?_, rfl⟩
      exact List.ne_nil_of_mem (List.mem_filter.mpr ⟨inPushes, decide_eq_true sameName.symm⟩)
    · refine List.mem_map.mpr ⟨p.series, ?_, ?_⟩
      · have labels : p.series.labels = p.labels := rfl
        rw [mem_written_iff, sameName, labels, find?_bucket, found]
        rfl
      · rw [sameName]
        rfl

namespace Snapshot

theorem served_distinct (snap : Snapshot) (opts : MetricsOpts) :
    (served (snap.pushes opts)).Pairwise fun p q =>
      (p.family, p.labels) ≠ (q.family, q.labels) := by
  refine List.pairwise_flatMap.mpr ⟨fun b member => ?_, ?_⟩
  · have rises := (snap.blocks_wellFormed opts b member).valuesRise
    refine List.pairwise_map.mpr (rises.imp ?_)
    intro s t less same
    have labels : s.labels = t.labels := (Prod.mk.inj same).2
    rw [labels] at less
    exact lt_irrefl _ less
  · have names := (blocks_sublist (snap.pushes opts)).map Family.name
    rw [List.map_map] at names
    have distinct := List.pairwise_map.mp (familyNames_nodup.sublist names)
    refine distinct.imp ?_
    intro b c differ p inFirst q inSecond same
    obtain ⟨s, _, rfl⟩ := List.mem_map.mp inFirst
    obtain ⟨t, _, rfl⟩ := List.mem_map.mp inSecond
    exact differ (Prod.mk.inj same).1

theorem served_readable (snap : Snapshot) (opts : MetricsOpts) :
    ∀ b ∈ blocks (snap.pushes opts), ∀ p ∈ b.pushes, p.Readable := by
  intro b isBlock p member
  have formed := snap.blocks_wellFormed opts b isBlock
  have inServed : p ∈ served (snap.pushes opts) := List.mem_flatMap.mpr ⟨b, isBlock, member⟩
  have inPushes := List.mem_of_find?_eq_some (mem_served_iff.mp inServed).2
  obtain ⟨s, inSamples, rfl⟩ := List.mem_map.mp member
  refine ⟨?_, fun l inLabels => ?_, snap.pushes_stamp opts _ inPushes⟩
  · exact (families_readable b.family ((mem_blocks_iff _ b).mp isBlock).1).1
  · exact (formed.namesLegal s inSamples l inLabels).isName

theorem block_lines_kept {ryu : Ryu} (black : ryu.Black) (snap : Snapshot) (opts : MetricsOpts) :
    ∀ line ∈ (blocks (snap.pushes opts)).flatMap (Block.lines ryu),
      Str.dropCarriageReturn line.toList = line.toList := by
  have space : " ".toList = [' '] := rfl
  refine List.forall_mem_flatMap.mpr fun b isBlock => ?_
  obtain ⟨_, helpPlain⟩ := families_readable b.family ((mem_blocks_iff _ b).mp isBlock).1
  refine List.forall_mem_cons.mpr ⟨?_, List.forall_mem_cons.mpr ⟨?_, ?_⟩⟩
  · rw [String.append_assoc, String.toList_append, String.toList_append (s := " "), space]
    exact dropCarriageReturn_append (List.cons_ne_nil _ _) (by simp [helpPlain])
  · rw [String.append_assoc, String.toList_append, String.toList_append (s := " "), space]
    refine dropCarriageReturn_append (List.cons_ne_nil _ _) ?_
    cases b.family.kind <;> decide
  · refine List.forall_mem_map.mpr fun s _ => ?_
    have valuePlain : '\r' ∉ (fmtFloat ryu s.value).toList :=
      Str.white_notMem_of_black (by decide) (fmtFloat_black black s.value)
    have stampPlain : '\r' ∉ (timestampText s.ts).toList := by
      cases s.ts with
      | none => decide
      | some ts => simpa [timestampText] using Str.notMem_toString_int (by decide) (by decide) ts
    have parts : (sampleText ryu b.family.name s.labels s.value s.ts).toList =
        (b.family.name ++ labelSet s.labels).toList ++
          (' ' :: ((fmtFloat ryu s.value).toList ++ (timestampText s.ts).toList)) := by
      simp [sampleText, seriesHead, space]
    rw [parts]
    exact dropCarriageReturn_append (List.cons_ne_nil _ _) (by simp [valuePlain, stampPlain])

theorem keys_nodup {ryu : Ryu} {parseF64 : String → Option Float} (snap : Snapshot)
    (opts : MetricsOpts) (noNul : ∀ p ∈ snap.pushes opts, ∀ l ∈ p.labels, '\x00' ∉ l.2.toList)
    {read : List Expo.Sample}
    (values : (served (snap.pushes opts)).mapM (Expo.reread ryu parseF64) = some read) :
    (read.map Expo.seriesKey).Nodup := by
  have facts : ∀ s ∈ read, Expo.NamesOk s ∧ ∀ l ∈ s.labels, '\x00' ∉ l.2.toList := by
    intro s member
    obtain ⟨p, inServed, same⟩ := (Expo.exists_read_iff values fun series =>
      series = (s.name, s.labels, s.ts)).mp ⟨s, member, rfl⟩
    obtain ⟨names, others⟩ := Prod.mk.inj same
    have labels := (Prod.mk.inj others).1
    obtain ⟨b, isBlock, inBlock⟩ := List.mem_flatMap.mp inServed
    have readable := snap.served_readable opts b isBlock p inBlock
    have inPushes := List.mem_of_find?_eq_some (mem_served_iff.mp inServed).2
    rw [← labels]
    exact ⟨⟨names ▸ readable.family, labels ▸ readable.labels⟩, noNul p inPushes⟩
  have series : (read.map fun s => (s.name, s.labels)) =
      (served (snap.pushes opts)).map fun p => (p.family, p.labels) := by
    refine Traverse.map_of_mapM values fun p _ s value => ?_
    obtain ⟨name, labels, _⟩ := Expo.reread_eq_some value
    rw [name, labels]
  have distinct : (read.map fun s => (s.name, s.labels)).Nodup := by
    rw [series]
    exact List.pairwise_map.mpr (snap.served_distinct opts)
  refine List.pairwise_map.mpr ((List.pairwise_map.mp distinct).imp_of_mem ?_)
  intro s t sMember tMember differ same
  obtain ⟨sOk, sPlain⟩ := facts s sMember
  obtain ⟨tOk, tPlain⟩ := facts t tMember
  have names := (Expo.seriesKey_parts sOk tOk same).1
  have labels := Expo.seriesKey_labels sOk tOk sPlain tPlain same
  exact differ (Prod.ext names labels)

/-- What a scrape of the snapshot finds, if the text of every served value is a number. -/
def scraped (ryu : Ryu) (parseF64 : String → Option Float) (snap : Snapshot)
    (opts : MetricsOpts) : Option Expo :=
  ((served (snap.pushes opts)).mapM (Expo.reread ryu parseF64)).map
    (Expo.empty.withBlocks (blocks (snap.pushes opts)))

theorem parse_eq_scraped {ryu : Ryu} (black : ryu.Black) (parseF64 : String → Option Float)
    (snap : Snapshot) (opts : MetricsOpts)
    (noNul : ∀ p ∈ snap.pushes opts, ∀ l ∈ p.labels, '\x00' ∉ l.2.toList) :
    (Expo.parse parseF64 (snap.render ryu opts "")).toOption =
      snap.scraped ryu parseF64 opts := by
  have text : Str.lines (snap.render ryu opts "") =
      (blocks (snap.pushes opts)).flatMap (Block.lines ryu) := by
    rw [render, render_eq_blocks, String.empty_append]
    exact lines_unlines (snap.block_lines_oneLine ryu opts) (snap.block_lines_kept black opts)
  have spaceless : ∀ b ∈ blocks (snap.pushes opts), ' ' ∉ b.family.name.toList := by
    intro b isBlock space
    have plain := (families_plain b.family ((mem_blocks_iff _ b).mp isBlock).1).1
    exact absurd (plain ' ' space) (by decide)
  have distinct : (Expo.namesOf (blocks (snap.pushes opts))).Nodup := by
    have names := (blocks_sublist (snap.pushes opts)).map Family.name
    rw [List.map_map] at names
    exact familyNames_nodup.sublist names
  have read := @Expo.readLines_blocks ryu parseF64 black (blocks (snap.pushes opts)) spaceless
    (snap.served_readable opts) distinct Expo.empty (fun _ _ => rfl) 0
  rw [← text] at read
  unfold scraped
  cases values : (served (snap.pushes opts)).mapM (Expo.reread ryu parseF64) with
  | none =>
      rw [served] at values
      rw [values] at read
      cases parsed : Expo.parse parseF64 (snap.render ryu opts "") with
      | error err => rfl
      | ok out =>
          rw [(Expo.parse_ok_iff.mp parsed).1] at read
          cases read
  | some samples =>
      have keys := snap.keys_nodup opts noNul values
      rw [served] at values
      rw [values] at read
      cases lines : Expo.readLines parseF64 0 (Str.lines (snap.render ryu opts "")) Expo.empty with
      | error err =>
          rw [lines] at read
          cases read
      | ok out =>
          rw [lines] at read
          have outIs : out = Expo.empty.withBlocks (blocks (snap.pushes opts)) samples :=
            Option.some.inj read
          have found := Expo.readLines_samples lines
          have nothing : Expo.empty.samples = [] := rfl
          rw [nothing, List.nil_append, outIs] at found
          have onLines : samples = Expo.samplesOn parseF64
              (Str.lines (snap.render ryu opts "")) := found
          have parsed := Expo.parse_ok_iff.mpr ⟨lines, onLines ▸ keys⟩
          rw [parsed, outIs, Option.map_some]
          simp only [Except.toOption]

/-- Scraping the text of a snapshot gives the first push of every series whose family
the table has, each once, with its labels, its timestamp and the value that its text
stands for; it fails exactly if the text of one of these values is no number. -/
theorem parse_render {ryu : Ryu} (black : ryu.Black) (parseF64 : String → Option Float)
    (snap : Snapshot) (opts : MetricsOpts)
    (noNul : ∀ p ∈ snap.pushes opts, ∀ l ∈ p.labels, '\x00' ∉ l.2.toList) :
    (Expo.parse parseF64 (snap.render ryu opts "")).toOption =
        ((served (snap.pushes opts)).mapM (Expo.reread ryu parseF64)).map
          (Expo.empty.withBlocks (blocks (snap.pushes opts))) ∧
      (served (snap.pushes opts)).Nodup ∧
      ∀ p, p ∈ served (snap.pushes opts) ↔ p.family ∈ familyNames ∧
        (snap.pushes opts).find? (fun q => p.SameSeries q) = some p := by
  refine ⟨snap.parse_eq_scraped black parseF64 opts noNul, ?_, fun p => mem_served_iff⟩
  refine (snap.served_distinct opts).imp ?_
  rintro p q differ rfl
  exact differ rfl

theorem zeroRyu_black : zeroRyu.Black := by
  have digits : ∀ c ∈ "0.0".toList, Str.isWhitespace c = false := Str.black_of_all rfl
  exact fun _ => digits

theorem quotaSnapshot_noNul :
    ∀ p ∈ quotaSnapshot.pushes {}, ∀ l ∈ p.labels, '\x00' ∉ l.2.toList := by
  decide +kernel

/-- The values of the snapshot above, as numbers are read. -/
def zeroOrOne (v : String) : Option Float :=
  if v = "0" then some 0.0 else if v = "1" then some 1.0 else none

theorem parse_render_quota :
    (Expo.parse zeroOrOne (quotaSnapshot.render zeroRyu {} "")).toOption =
        ((served (quotaSnapshot.pushes {})).mapM (Expo.reread zeroRyu zeroOrOne)).map
          (Expo.empty.withBlocks (blocks (quotaSnapshot.pushes {}))) ∧
      (served (quotaSnapshot.pushes {})).Nodup ∧
      ∀ p, p ∈ served (quotaSnapshot.pushes {}) ↔ p.family ∈ familyNames ∧
        (quotaSnapshot.pushes {}).find? (fun q => p.SameSeries q) = some p :=
  quotaSnapshot.parse_render zeroRyu_black zeroOrOne {} quotaSnapshot_noNul

end Snapshot

end Cadvisor
