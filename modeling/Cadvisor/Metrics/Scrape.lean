import Cadvisor.Lib.Fields
import Cadvisor.Lib.SortedMap
import Cadvisor.Metrics.SeriesKey
import Mathlib.Data.String.Basic

/-!
# Reading an exposition

The strict reader goes through a text line by line.  It wants a family's type in front
of its samples and one sample per series, and takes two samples for one series when
their keys are the same text.
-/

set_option autoImplicit false

namespace Cadvisor

structure Expo where
  samples : List Expo.Sample
  types : SortedMap String String
  helps : SortedSet String

namespace Expo

def empty : Expo := ⟨[], SortedMap.empty, SortedMap.empty⟩

/-- A panic while a sample is read is one here, not an error. -/
inductive ParseError where
  | type (n : Nat) (t name : String)
  | secondType (n : Nat) (name : String)
  | sample (n : Nat) (m : SampleError) (line : String)
  | noType (n : Nat) (name : String)
  | secondSample (n : Nat) (line : String)

def ParseError.message (debugText : String → String) (debugByte : Option UInt8 → String)
    (debugChar : Option Char → String) : ParseError → String
  | .type n t name => s!"line {n}: TYPE " ++ debugText t ++ s!" for {name}"
  | .secondType n name => s!"line {n}: a second TYPE for {name}"
  | .sample n m line =>
      s!"line {n}: " ++ m.message debugText debugByte debugChar ++ ": " ++ debugText line
  | .noType n name => s!"line {n}: {name} has no TYPE line before it"
  | .secondSample n line =>
      s!"line {n}: a second sample for the same series: " ++ debugText line

/-- `splitn(3, ' ')`. -/
def splitThree (s : String) : String × Option String × Option String :=
  match Str.splitOnce s ' ' with
  | none => (s, none, none)
  | some (first, rest) =>
      match Str.splitOnce rest ' ' with
      | none => (first, some rest, none)
      | some (second, third) => (first, some second, some third)

def family (name : String) (types : SortedMap String String) : String :=
  if types.contains name then name
  else
    (["_bucket", "_sum", "_count"].findSome? fun suf =>
      (Str.stripSuffix name suf).filter types.contains).getD name

def readType (e : Expo) (n : Nat) (name t : String) : Except ParseError Expo :=
  if t ∉ ["counter", "gauge", "histogram", "summary", "untyped"] then .error (.type n t name)
  else if e.types.contains name then .error (.secondType n name)
  else .ok { e with types := e.types.insert name t }

def readComment (e : Expo) (n : Nat) (rest : String) : Except ParseError Expo :=
  match splitThree rest with
  | (word, some name, t) =>
      if word = "HELP" then .ok { e with helps := e.helps.insert name () }
      else if word = "TYPE" then
        match t with
        | some t => readType e n name t
        | none => .ok e
      else .ok e
  | _ => .ok e

def readLine (parseF64 : String → Option Float) (e : Expo) (n : Nat) (line : String) :
    Except ParseError (Expo × Option Sample) :=
  if line = "" then .ok (e, none)
  else
    match Str.stripPrefix line "# " with
    | some rest => (readComment e n rest).map fun e => (e, none)
    | none =>
        if Str.startsWith line "#" then .ok (e, none)
        else
          match sample parseF64 line with
          | .error m => .error (.sample n m line)
          | .ok s =>
              if ¬ e.types.contains (family s.name e.types) then .error (.noType n s.name)
              else .ok (e, some s)

def push (e : Expo) (s : Option Sample) : Expo := { e with samples := e.samples ++ s.toList }

/-- The loop over the lines from the one with index `i` on. -/
def parseLines (parseF64 : String → Option Float) :
    Nat → List String → Expo → SortedSet String → Except ParseError Expo
  | _, [], e, _ => .ok e
  | i, line :: rest, e, seen =>
      match readLine parseF64 e (i + 1) line with
      | .error err => .error err
      | .ok (e, none) => parseLines parseF64 (i + 1) rest e seen
      | .ok (e, some s) =>
          if seen.contains (seriesKey s) then .error (.secondSample (i + 1) line)
          else
            parseLines parseF64 (i + 1) rest (e.push (some s)) (seen.insert (seriesKey s) ())

def parse (parseF64 : String → Option Float) (text : String) : Except ParseError Expo :=
  parseLines parseF64 0 (Str.lines text) empty SortedMap.empty

/-! ## The samples of a text -/

/-- The sample on a line, if the line is neither empty nor a comment. -/
def sampleOn (parseF64 : String → Option Float) (line : String) : Option Sample :=
  if line = "" ∨ Str.startsWith line "#" then none else (sample parseF64 line).toOption

def samplesOn (parseF64 : String → Option Float) (lines : List String) : List Sample :=
  lines.filterMap (sampleOn parseF64)

/-- The same loop without the check. -/
def readLines (parseF64 : String → Option Float) : Nat → List String → Expo → Except ParseError Expo
  | _, [], e => .ok e
  | i, line :: rest, e =>
      match readLine parseF64 e (i + 1) line with
      | .error err => .error err
      | .ok (e, s) => readLines parseF64 (i + 1) rest (e.push s)

variable {parseF64 : String → Option Float} {e : Expo} {n : Nat} {line : String}

theorem readType_cases (e : Expo) (n : Nat) (name t : String) :
    (∃ next, readType e n name t = .ok next ∧ next.samples = e.samples) ∨
      ∃ err, readType e n name t = .error err ∧ ∀ m other, err ≠ .secondSample m other := by
  unfold readType
  split_ifs
  · exact Or.inr ⟨_, rfl, by simp⟩
  · exact Or.inl ⟨_, rfl, rfl⟩
  · exact Or.inr ⟨_, rfl, by simp⟩

theorem readComment_cases (e : Expo) (n : Nat) (rest : String) :
    (∃ next, readComment e n rest = .ok next ∧ next.samples = e.samples) ∨
      ∃ err, readComment e n rest = .error err ∧ ∀ m other, err ≠ .secondSample m other := by
  unfold readComment
  split
  · rename_i word name t _
    by_cases help : word = "HELP"
    · rw [if_pos help]
      exact Or.inl ⟨_, rfl, rfl⟩
    rw [if_neg help]
    by_cases type : word = "TYPE"
    · rw [if_pos type]
      cases t with
      | some t => exact readType_cases e n name t
      | none => exact Or.inl ⟨e, rfl, rfl⟩
    · rw [if_neg type]
      exact Or.inl ⟨e, rfl, rfl⟩
  · exact Or.inl ⟨e, rfl, rfl⟩

theorem readLine_cases (e : Expo) (n : Nat) (line : String) :
    (∃ next, readLine parseF64 e n line = .ok (next, sampleOn parseF64 line) ∧
      next.samples = e.samples) ∨
      ∃ err, readLine parseF64 e n line = .error err ∧ ∀ m other, err ≠ .secondSample m other := by
  unfold readLine sampleOn
  by_cases isEmpty : line = ""
  · rw [if_pos isEmpty, if_pos (Or.inl isEmpty)]
    exact Or.inl ⟨e, rfl, rfl⟩
  rw [if_neg isEmpty]
  cases stripped : Str.stripPrefix line "# " with
  | some rest =>
      have comment : Str.startsWith line "#" = true :=
        Str.startsWith_iff.mpr ⟨' ' :: rest.toList, Str.stripPrefix_eq_some_iff.mp stripped⟩
      rw [if_pos (Or.inr comment)]
      dsimp only
      rcases readComment_cases e n rest with ⟨next, after, same⟩ | ⟨err, after, other⟩
      · exact Or.inl ⟨next, by rw [after]; rfl, same⟩
      · exact Or.inr ⟨err, by rw [after]; rfl, other⟩
  | none =>
      by_cases comment : Str.startsWith line "#" = true
      · rw [if_pos (Or.inr comment)]
        exact Or.inl ⟨e, if_pos comment, rfl⟩
      rw [if_neg (not_or.mpr ⟨isEmpty, comment⟩)]
      dsimp only
      rw [if_neg comment]
      cases isSample : sample parseF64 line with
      | error m => exact Or.inr ⟨_, rfl, by simp⟩
      | ok s =>
          dsimp only
          split_ifs
          · exact Or.inl ⟨e, rfl, rfl⟩
          · exact Or.inr ⟨_, rfl, by simp⟩

theorem samplesOn_append (front back : List String) :
    samplesOn parseF64 (front ++ back) = samplesOn parseF64 front ++ samplesOn parseF64 back :=
  List.filterMap_append

theorem names_of_mem {lines : List String} {s : Sample} (member : s ∈ samplesOn parseF64 lines) :
    NamesOk s := by
  obtain ⟨line, _, onLine⟩ := List.mem_filterMap.mp member
  unfold sampleOn at onLine
  split_ifs at onLine
  cases isSample : sample parseF64 line with
  | error m =>
      rw [isSample] at onLine
      cases onLine
  | ok read =>
      rw [isSample] at onLine
      cases onLine
      exact sample_names isSample

/-! ## The run -/

theorem readLines_cons {i : Nat} {rest : List String} {next : Expo}
    (read : readLine parseF64 e (i + 1) line = .ok (next, sampleOn parseF64 line)) :
    readLines parseF64 i (line :: rest) e =
      readLines parseF64 (i + 1) rest (next.push (sampleOn parseF64 line)) := by
  rw [readLines, read]

theorem samples_push (e : Expo) (s : Option Sample) :
    (e.push s).samples = e.samples ++ s.toList := rfl

theorem samplesOn_cons (line : String) (rest : List String) :
    samplesOn parseF64 (line :: rest) =
      (sampleOn parseF64 line).toList ++ samplesOn parseF64 rest := by
  cases onLine : sampleOn parseF64 line <;> simp [samplesOn, onLine]

theorem readLines_samples {i : Nat} {lines : List String} {out : Expo}
    (read : readLines parseF64 i lines e = .ok out) :
    out.samples = e.samples ++ samplesOn parseF64 lines := by
  induction lines generalizing i e with
  | nil =>
      cases read
      exact (List.append_nil _).symm
  | cons line rest ih =>
      rcases @readLine_cases parseF64 e (i + 1) line with
        ⟨next, isLine, same⟩ | ⟨err, isLine, _⟩
      · rw [readLines_cons isLine] at read
        rw [ih read, samples_push, same, samplesOn_cons, List.append_assoc]
      · rw [readLines, isLine] at read
        cases read

/-- The keys that the loop has seen are those of the samples it has taken. -/
def Seen (seen : SortedSet String) (e : Expo) : Prop :=
  ∀ k, k ∈ seen.keys ↔ k ∈ e.samples.map seriesKey

theorem Seen.push {seen : SortedSet String} {next : Expo} (matching : Seen seen e)
    (same : next.samples = e.samples) (s : Option Sample) :
    Seen (SortedSet.extend seen (s.toList.map seriesKey)) (next.push s) := by
  intro k
  rw [SortedSet.mem_keys_extend, matching k, samples_push, same, List.map_append, List.mem_append]

/-- One more sample leaves the keys distinct unless its own was there. -/
theorem nodup_push_iff {next : Expo} (same : next.samples = e.samples) (s : Option Sample) :
    ((next.push s).samples.map seriesKey).Nodup ↔
      (e.samples.map seriesKey).Nodup ∧
        ¬ ∃ t ∈ s.toList, seriesKey t ∈ e.samples.map seriesKey := by
  rw [samples_push, same, List.map_append]
  cases s with
  | none => simp
  | some t =>
      rw [Option.toList_some, List.map_singleton, List.nodup_append_comm, List.singleton_append,
        List.nodup_cons, and_comm]
      simp

theorem parseLines_cons {i : Nat} {rest : List String} {next : Expo}
    (read : readLine parseF64 e (i + 1) line = .ok (next, sampleOn parseF64 line))
    {seen : SortedSet String} (matching : Seen seen e) :
    parseLines parseF64 i (line :: rest) e seen =
      if ∃ s ∈ (sampleOn parseF64 line).toList, seriesKey s ∈ e.samples.map seriesKey then
        .error (.secondSample (i + 1) line)
      else
        parseLines parseF64 (i + 1) rest (next.push (sampleOn parseF64 line))
          (SortedSet.extend seen ((sampleOn parseF64 line).toList.map seriesKey)) := by
  rw [parseLines, read]
  cases sampleOn parseF64 line with
  | none =>
      rw [if_neg (by simp)]
      have unchanged : next.push none = next := by
        rw [push, Option.toList_none, List.append_nil]
      rw [unchanged]
      rfl
  | some s =>
      have known : (∃ t ∈ (some s).toList, seriesKey t ∈ e.samples.map seriesKey) ↔
          seen.contains (seriesKey s) = true := by
        rw [SortedMap.contains_iff_mem_keys, matching]
        simp
      simp only [known]
      rfl

theorem parseLines_ok_iff {i : Nat} {lines : List String} {seen : SortedSet String} {out : Expo}
    (matching : Seen seen e) (distinct : (e.samples.map seriesKey).Nodup) :
    parseLines parseF64 i lines e seen = .ok out ↔
      readLines parseF64 i lines e = .ok out ∧ (out.samples.map seriesKey).Nodup := by
  induction lines generalizing i e seen with
  | nil =>
      rw [parseLines, readLines]
      constructor
      · intro ended
        cases ended
        exact ⟨rfl, distinct⟩
      · exact And.left
  | cons line rest ih =>
      rcases @readLine_cases parseF64 e (i + 1) line with
        ⟨next, isLine, same⟩ | ⟨err, isLine, _⟩
      · rw [parseLines_cons isLine matching, readLines_cons isLine]
        by_cases again : ∃ s ∈ (sampleOn parseF64 line).toList,
            seriesKey s ∈ e.samples.map seriesKey
        · rw [if_pos again]
          refine iff_of_false (fun failed => by cases failed) ?_
          rintro ⟨read, nodup⟩
          rw [readLines_samples read, List.map_append] at nodup
          exact ((nodup_push_iff same _).mp nodup.of_append_left).2 again
        · rw [if_neg again]
          exact ih (matching.push same _) ((nodup_push_iff same _).mpr ⟨distinct, again⟩)
      · rw [parseLines, readLines, isLine]
        simp

/-- The samples in front of `found` have keys of their own, and the one on `found` has
the key of one of these. -/
structure RepeatsAt (parseF64 : String → Option Float) (i : Nat) (e : Expo)
    (before : List String) (found : String) : Prop where
  reads : ∃ out, readLines parseF64 i (before ++ [found]) e = .ok out
  distinct : ((e.samples ++ samplesOn parseF64 before).map seriesKey).Nodup
  again : ∃ s ∈ sampleOn parseF64 found,
    seriesKey s ∈ (e.samples ++ samplesOn parseF64 before).map seriesKey

theorem repeatsAt_nil_iff {i : Nat} {next : Expo}
    (read : readLine parseF64 e (i + 1) line = .ok (next, sampleOn parseF64 line))
    (distinct : (e.samples.map seriesKey).Nodup) :
    RepeatsAt parseF64 i e [] line ↔
      ∃ s ∈ (sampleOn parseF64 line).toList, seriesKey s ∈ e.samples.map seriesKey := by
  have none : e.samples ++ samplesOn parseF64 [] = e.samples := List.append_nil _
  simp only [Option.mem_toList]
  constructor
  · intro repeats
    have again := repeats.again
    rw [none] at again
    exact again
  · intro again
    refine ⟨⟨next.push (sampleOn parseF64 line), ?_⟩, by rw [none]; exact distinct,
      by rw [none]; exact again⟩
    rw [List.nil_append, readLines_cons read, readLines]

theorem repeatsAt_cons_iff {i : Nat} {next : Expo} {before : List String} {found : String}
    (read : readLine parseF64 e (i + 1) line = .ok (next, sampleOn parseF64 line))
    (same : next.samples = e.samples) :
    RepeatsAt parseF64 i e (line :: before) found ↔
      RepeatsAt parseF64 (i + 1) (next.push (sampleOn parseF64 line)) before found := by
  have reads : readLines parseF64 i (line :: before ++ [found]) e =
      readLines parseF64 (i + 1) (before ++ [found]) (next.push (sampleOn parseF64 line)) :=
    readLines_cons read
  have samples : e.samples ++ samplesOn parseF64 (line :: before) =
      (next.push (sampleOn parseF64 line)).samples ++ samplesOn parseF64 before := by
    rw [samples_push, same, samplesOn_cons, List.append_assoc]
  constructor
  · rintro ⟨isRead, distinct, again⟩
    rw [reads] at isRead
    rw [samples] at distinct again
    exact ⟨isRead, distinct, again⟩
  · rintro ⟨isRead, distinct, again⟩
    rw [← reads] at isRead
    rw [← samples] at distinct again
    exact ⟨isRead, distinct, again⟩

theorem exists_cut_cons_iff {α : Type} {x found : α} {xs : List α} {P : List α → Prop} :
    (∃ before after, x :: xs = before ++ found :: after ∧ P before) ↔
      (x = found ∧ P []) ∨ ∃ before after, xs = before ++ found :: after ∧ P (x :: before) := by
  constructor
  · rintro ⟨before, after, parts, holds⟩
    cases before with
    | nil =>
        cases parts
        exact Or.inl ⟨rfl, holds⟩
    | cons y before =>
        cases parts
        exact Or.inr ⟨before, after, rfl, holds⟩
  · rintro (⟨rfl, holds⟩ | ⟨before, after, rfl, holds⟩)
    · exact ⟨[], xs, rfl, holds⟩
    · exact ⟨x :: before, after, rfl, holds⟩

theorem parseLines_second_iff {i n : Nat} {lines : List String} {seen : SortedSet String}
    {found : String} (matching : Seen seen e) (distinct : (e.samples.map seriesKey).Nodup) :
    parseLines parseF64 i lines e seen = .error (.secondSample n found) ↔
      ∃ before after, lines = before ++ found :: after ∧
        n = i + before.length + 1 ∧ RepeatsAt parseF64 i e before found := by
  induction lines generalizing i e seen with
  | nil => simp [parseLines]
  | cons line rest ih =>
      rw [exists_cut_cons_iff]
      rcases @readLine_cases parseF64 e (i + 1) line with
        ⟨next, isLine, same⟩ | ⟨err, isLine, other⟩
      · rw [parseLines_cons isLine matching]
        simp only [repeatsAt_cons_iff isLine same]
        by_cases again : ∃ s ∈ (sampleOn parseF64 line).toList,
            seriesKey s ∈ e.samples.map seriesKey
        · rw [if_pos again]
          constructor
          · intro failed
            cases failed
            exact Or.inl ⟨rfl, rfl, (repeatsAt_nil_iff isLine distinct).mpr again⟩
          · rintro (⟨rfl, rfl, _⟩ | ⟨before, after, rfl, _, repeats⟩)
            · rfl
            · have nodup := repeats.distinct
              rw [List.map_append] at nodup
              exact absurd again ((nodup_push_iff same _).mp nodup.of_append_left).2
        · rw [if_neg again, ih (matching.push same _)
            ((nodup_push_iff same _).mpr ⟨distinct, again⟩)]
          constructor
          · rintro ⟨before, after, parts, number, repeats⟩
            refine Or.inr ⟨before, after, parts, ?_, repeats⟩
            rw [number, List.length_cons]
            omega
          · rintro (⟨rfl, _, repeats⟩ | ⟨before, after, parts, number, repeats⟩)
            · exact absurd ((repeatsAt_nil_iff isLine distinct).mp repeats) again
            · refine ⟨before, after, parts, ?_, repeats⟩
              rw [number, List.length_cons]
              omega
      · have unread : ∀ more, readLines parseF64 i (line :: more) e = .error err := by
          intro more
          rw [readLines, isLine]
        rw [parseLines, isLine]
        refine iff_of_false (fun failed => other n found (Except.error.inj failed)) ?_
        rintro (⟨rfl, _, repeats⟩ | ⟨before, _, _, _, repeats⟩)
        · obtain ⟨out, read⟩ := repeats.reads
          rw [List.nil_append, unread] at read
          cases read
        · obtain ⟨out, read⟩ := repeats.reads
          rw [List.cons_append, unread] at read
          cases read

/-! ## One sample per series -/

/-- What the check of the keys is for: an accepted text has one sample per series, each
label named once, and one is rejected for two samples of a series only if it has them. -/
structure OnePerSeries (parseF64 : String → Option Float) (text : String) : Prop where
  accepted : ∀ e, parse parseF64 text = .ok e →
    e.samples.Pairwise (fun s t => ¬ SameSeries s t) ∧
      ∀ s ∈ e.samples, (s.labels.map Prod.fst).Nodup
  rejected : ∀ n line, parse parseF64 text = .error (.secondSample n line) →
    ∃ s t, [s, t].Sublist (samplesOn parseF64 ((Str.lines text).take n)) ∧ SameSeries s t

/-- Every line can be read and no key comes twice. -/
structure Distinct (parseF64 : String → Option Float) (lines : List String) : Prop where
  reads : ∃ e, readLines parseF64 0 lines empty = .ok e
  keys : ((samplesOn parseF64 lines).map seriesKey).Nodup

/-- The keys tell the series of this text apart: no label is given twice, no series is
listed in two ways, and no value imitates the pairs of another sample. -/
structure KeysTell (parseF64 : String → Option Float) (text : String) : Prop where
  names : Distinct parseF64 (Str.lines text) →
    ∀ s ∈ samplesOn parseF64 (Str.lines text), (s.labels.map Prod.fst).Nodup
  orders : Distinct parseF64 (Str.lines text) →
    (samplesOn parseF64 (Str.lines text)).Pairwise fun s t => ¬ Relisted s t
  values : ∀ before line after, Str.lines text = before ++ line :: after →
    RepeatsAt parseF64 0 empty before line → ∀ s ∈ sampleOn parseF64 line,
      ∀ t ∈ samplesOn parseF64 before, Imitates t s →
        ¬ (samplesOn parseF64 (before ++ [line])).Pairwise fun s t => ¬ Relisted s t

theorem exists_pair_iff {α : Type} {R : α → α → Prop} {xs : List α} :
    (∃ a b, [a, b].Sublist xs ∧ R a b) ↔ ¬ xs.Pairwise fun a b => ¬ R a b := by
  rw [List.pairwise_iff_forall_sublist]
  push Not
  rfl

theorem take_through {α : Type} (front : List α) (x : α) (back : List α) :
    (front ++ x :: back).take (front.length + 1) = front ++ [x] := by
  rw [List.take_length_add_append, List.take_succ_cons, List.take_zero]

theorem seen_empty : Seen SortedMap.empty empty := fun _ => Iff.rfl

theorem parse_ok_iff {text : String} {out : Expo} :
    parse parseF64 text = .ok out ↔
      readLines parseF64 0 (Str.lines text) empty = .ok out ∧
        ((samplesOn parseF64 (Str.lines text)).map seriesKey).Nodup := by
  rw [parse, parseLines_ok_iff seen_empty List.nodup_nil]
  refine and_congr_right fun read => ?_
  rw [readLines_samples read]
  rfl

theorem parse_second_iff {text : String} {found : String} :
    parse parseF64 text = .error (.secondSample n found) ↔
      ∃ before after, Str.lines text = before ++ found :: after ∧
        n = before.length + 1 ∧ RepeatsAt parseF64 0 empty before found := by
  rw [parse, parseLines_second_iff seen_empty List.nodup_nil]
  simp only [Nat.zero_add]

/-- Where a line repeats a key, the check is right exactly if the keys tell. -/
theorem repeatsAt_iff {before : List String} (repeats : RepeatsAt parseF64 0 empty before line) :
    (∃ s t, [s, t].Sublist (samplesOn parseF64 (before ++ [line])) ∧ SameSeries s t) ↔
      ∀ s ∈ sampleOn parseF64 line, ∀ t ∈ samplesOn parseF64 before, Imitates t s →
        ¬ (samplesOn parseF64 (before ++ [line])).Pairwise fun s t => ¬ Relisted s t := by
  obtain ⟨s, onLine, again⟩ := repeats.again
  have isLine : sampleOn parseF64 line = some s := onLine
  have samples : samplesOn parseF64 (before ++ [line]) = samplesOn parseF64 before ++ [s] := by
    rw [samplesOn_append, samplesOn_cons, isLine]
    rfl
  have inLine : s ∈ samplesOn parseF64 [line] := by
    rw [samplesOn_cons, isLine]
    exact List.mem_cons_self ..
  rw [exists_pair_iff, samples, pairwise_repeat_iff (fun _ => names_of_mem) (names_of_mem inLine)
    repeats.distinct again]
  simp only [isLine, Option.mem_def, Option.some.injEq, forall_eq']

/-- The check does what it is for on the texts whose series their keys tell apart, and on
no others. -/
theorem onePerSeries_iff (parseF64 : String → Option Float) (text : String) :
    OnePerSeries parseF64 text ↔ KeysTell parseF64 text := by
  constructor
  · intro one
    have accepted : Distinct parseF64 (Str.lines text) →
        (samplesOn parseF64 (Str.lines text)).Pairwise (fun s t => ¬ SameSeries s t) ∧
          ∀ s ∈ samplesOn parseF64 (Str.lines text), (s.labels.map Prod.fst).Nodup := by
      rintro ⟨⟨out, read⟩, keys⟩
      have facts := one.accepted out (parse_ok_iff.mpr ⟨read, keys⟩)
      rw [readLines_samples read] at facts
      exact facts
    refine ⟨fun distinct => (accepted distinct).2, fun distinct => ?_, ?_⟩
    · exact (pairwise_sameSeries_iff distinct.keys).mp (accepted distinct).1
    · intro before line after parts repeats
      have pair := one.rejected (before.length + 1) line
        (parse_second_iff.mpr ⟨before, after, parts, rfl, repeats⟩)
      rw [parts, take_through] at pair
      exact (repeatsAt_iff repeats).mp pair
  · intro tell
    refine ⟨fun out parsed => ?_, fun n line failed => ?_⟩
    · obtain ⟨read, keys⟩ := parse_ok_iff.mp parsed
      have distinct : Distinct parseF64 (Str.lines text) := ⟨⟨out, read⟩, keys⟩
      have samples : out.samples = samplesOn parseF64 (Str.lines text) := readLines_samples read
      rw [samples]
      exact ⟨(pairwise_sameSeries_iff keys).mpr (tell.orders distinct), tell.names distinct⟩
    · obtain ⟨before, after, parts, rfl, repeats⟩ := parse_second_iff.mp failed
      rw [parts, take_through]
      exact (repeatsAt_iff repeats).mpr (tell.values before line after parts repeats)

/-! ## Where the keys do not tell -/

theorem sampleOn_of_readLine {next : Expo} {s : Option Sample}
    (read : readLine parseF64 e n line = .ok (next, s)) : sampleOn parseF64 line = s := by
  rcases @readLine_cases parseF64 e n line with ⟨_, isLine, _⟩ | ⟨_, isLine, _⟩
  · rw [isLine] at read
    cases read
    rfl
  · rw [isLine] at read
    cases read

theorem readLine_sample {s : Sample} (written : line ≠ "")
    (notComment : ¬ Str.startsWith line "#" = true) (read : sample parseF64 line = .ok s)
    (typed : e.types.contains (family s.name e.types) = true) :
    readLine parseF64 e n line = .ok (e, some s) := by
  have notStripped : Str.stripPrefix line "# " = none := by
    by_contra found
    obtain ⟨rest, stripped⟩ := Option.ne_none_iff_exists'.mp found
    exact notComment (Str.startsWith_iff.mpr
      ⟨' ' :: rest.toList, Str.stripPrefix_eq_some_iff.mp stripped⟩)
  rw [readLine, if_neg written, notStripped]
  dsimp only
  rw [if_neg notComment, read]
  dsimp only
  rw [if_neg (not_not.mpr typed)]

def oneOrTwo (v : String) : Option Float :=
  if v = "1" then some 1.0 else if v = "2" then some 2.0 else none

/-- What the reader knows behind the type of `x`. -/
def typedGauge : Expo := ⟨[], SortedMap.empty.insert "x" "gauge", SortedMap.empty⟩

theorem readLine_gauge : readLine parseF64 empty 1 "# TYPE x gauge" = .ok (typedGauge, none) := by
  have stripped : Str.stripPrefix "# TYPE x gauge" "# " = some "TYPE x gauge" := by decide +kernel
  have words : splitThree "TYPE x gauge" = ("TYPE", some "x", some "gauge") := by decide +kernel
  rw [readLine, if_neg (by decide +kernel), stripped]
  dsimp only
  rw [readComment, words]
  rfl

theorem readLine_x {labels : List (String × String)} {v : String} {value : Float}
    (isValue : v = "1" ∧ value = 1.0 ∨ v = "2" ∧ value = 2.0)
    (namesOk : ∀ l ∈ labels, isName l.1.toList = true)
    (isLine : line = seriesHead "x" labels ++ v ++ timestampText none)
    (written : line ≠ "") (notComment : ¬ Str.startsWith line "#" = true)
    (typed : e.types = typedGauge.types) :
    readLine oneOrTwo e n line = .ok (e, some ⟨"x", labels, value, none⟩) := by
  have family : e.types.contains (family "x" e.types) = true := by
    rw [typed]
    decide +kernel
  refine readLine_sample written notComment ?_ family
  rw [isLine]
  rcases isValue with ⟨rfl, rfl⟩ | ⟨rfl, rfl⟩
  · exact sample_line oneOrTwo (by decide) namesOk (by decide) none
  · exact sample_line oneOrTwo (by decide) namesOk (by decide) none

theorem readLines_gauge {first second : String} {s t : Sample}
    (isFirst : readLine parseF64 typedGauge 2 first = .ok (typedGauge, some s))
    (isSecond : readLine parseF64 (typedGauge.push (some s)) 3 second =
      .ok (typedGauge.push (some s), some t)) :
    readLines parseF64 0 ["# TYPE x gauge", first, second] empty =
        .ok ((typedGauge.push (some s)).push (some t)) ∧
      samplesOn parseF64 ["# TYPE x gauge", first] = [s] ∧
      samplesOn parseF64 ["# TYPE x gauge", first, second] = [s, t] := by
  have onGauge : sampleOn parseF64 "# TYPE x gauge" = none := sampleOn_of_readLine readLine_gauge
  have onFirst := sampleOn_of_readLine isFirst
  have onSecond := sampleOn_of_readLine isSecond
  refine ⟨?_, ?_, ?_⟩
  · rw [readLines, readLine_gauge]
    dsimp only
    rw [readLines, show typedGauge.push none = typedGauge from rfl, isFirst]
    dsimp only
    rw [readLines, isSecond]
    rfl
  · simp only [samplesOn_cons, onGauge, onFirst]
    rfl
  · simp only [samplesOn_cons, onGauge, onFirst, onSecond]
    rfl

def listed : Sample := ⟨"x", [("a", "1"), ("b", "2")], 1.0, none⟩

theorem readLine_listed : readLine oneOrTwo typedGauge 2 "x\x7ba=\"1\",b=\"2\"\x7d 1" =
    .ok (typedGauge, some listed) :=
  readLine_x (Or.inl ⟨rfl, rfl⟩) (by decide) (by decide +kernel) (by decide +kernel)
    (by decide +kernel) rfl

/-- The same pairs in the other order are taken for another series. -/
theorem parse_reordered :
    ∃ out, parse oneOrTwo
        "# TYPE x gauge\nx\x7ba=\"1\",b=\"2\"\x7d 1\nx\x7bb=\"2\",a=\"1\"\x7d 2\n" = .ok out ∧
      out.samples = [listed, ⟨"x", [("b", "2"), ("a", "1")], 2.0, none⟩] := by
  have lines : Str.lines
      "# TYPE x gauge\nx\x7ba=\"1\",b=\"2\"\x7d 1\nx\x7bb=\"2\",a=\"1\"\x7d 2\n" =
        ["# TYPE x gauge", "x\x7ba=\"1\",b=\"2\"\x7d 1", "x\x7bb=\"2\",a=\"1\"\x7d 2"] := by
    decide +kernel
  have second : readLine oneOrTwo (typedGauge.push (some listed)) 3 "x\x7bb=\"2\",a=\"1\"\x7d 2" =
      .ok (typedGauge.push (some listed), some ⟨"x", [("b", "2"), ("a", "1")], 2.0, none⟩) :=
    readLine_x (Or.inr ⟨rfl, rfl⟩) (by decide) (by decide +kernel) (by decide +kernel)
      (by decide +kernel) rfl
  obtain ⟨read, _, samples⟩ := readLines_gauge readLine_listed second
  refine ⟨_, parse_ok_iff.mpr ⟨by rw [lines]; exact read, ?_⟩, rfl⟩
  rw [lines, samples]
  decide +kernel

/-- One value that reads like the rest of the first sample. -/
theorem parse_imitated :
    parse oneOrTwo
        "# TYPE x gauge\nx\x7ba=\"1\",b=\"2\"\x7d 1\nx\x7ba=\"1\x00b=2\"\x7d 2\n" =
      .error (.secondSample 3 "x\x7ba=\"1\x00b=2\"\x7d 2") ∧
    samplesOn oneOrTwo ((Str.lines
        "# TYPE x gauge\nx\x7ba=\"1\",b=\"2\"\x7d 1\nx\x7ba=\"1\x00b=2\"\x7d 2\n").take 3) =
      [listed, ⟨"x", [("a", "1\x00b=2")], 2.0, none⟩] := by
  have lines : Str.lines
      "# TYPE x gauge\nx\x7ba=\"1\",b=\"2\"\x7d 1\nx\x7ba=\"1\x00b=2\"\x7d 2\n" =
        ["# TYPE x gauge", "x\x7ba=\"1\",b=\"2\"\x7d 1", "x\x7ba=\"1\x00b=2\"\x7d 2"] := by
    decide +kernel
  have second : readLine oneOrTwo (typedGauge.push (some listed)) 3 "x\x7ba=\"1\x00b=2\"\x7d 2" =
      .ok (typedGauge.push (some listed), some ⟨"x", [("a", "1\x00b=2")], 2.0, none⟩) :=
    readLine_x (Or.inr ⟨rfl, rfl⟩) (by decide) (by decide +kernel) (by decide +kernel)
      (by decide +kernel) rfl
  obtain ⟨read, before, samples⟩ := readLines_gauge readLine_listed second
  rw [lines]
  refine ⟨parse_second_iff.mpr ⟨["# TYPE x gauge", "x\x7ba=\"1\",b=\"2\"\x7d 1"], [], lines, rfl,
    ⟨_, read⟩, ?_, ?_⟩, samples⟩
  · rw [before]
    exact List.nodup_singleton _
  · refine ⟨_, sampleOn_of_readLine second, ?_⟩
    rw [before]
    decide +kernel

theorem onePerSeries_misses :
    ¬ OnePerSeries oneOrTwo
        "# TYPE x gauge\nx\x7ba=\"1\",b=\"2\"\x7d 1\nx\x7bb=\"2\",a=\"1\"\x7d 2\n" ∧
      ¬ OnePerSeries oneOrTwo
        "# TYPE x gauge\nx\x7ba=\"1\",b=\"2\"\x7d 1\nx\x7ba=\"1\x00b=2\"\x7d 2\n" := by
  constructor
  · intro one
    obtain ⟨out, parsed, samples⟩ := parse_reordered
    have others := (one.accepted out parsed).1
    rw [samples] at others
    have same : SameSeries listed ⟨"x", [("b", "2"), ("a", "1")], 2.0, none⟩ := by
      refine ⟨rfl, fun l => ?_⟩
      simp [listed, or_comm]
    exact (List.pairwise_cons.mp others).1 _ (List.mem_singleton_self _) same
  · intro one
    obtain ⟨failed, samples⟩ := parse_imitated
    have pair := one.rejected 3 _ failed
    rw [samples, exists_pair_iff, List.pairwise_pair] at pair
    refine pair fun same => ?_
    have listedToo := (same.2 ("b", "2")).mp (by simp [listed])
    simp at listedToo

end Expo

end Cadvisor
