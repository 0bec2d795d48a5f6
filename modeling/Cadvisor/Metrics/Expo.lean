import Cadvisor.Lib.Slice
import Cadvisor.Metrics.Encode

/-!
# Reading sample lines

The strict reader of the test suites takes one line apart by looking at single
bytes of it.  Whatever the label values are, a line that the encoder has written
reads back as what was written.
-/

set_option autoImplicit false

namespace Cadvisor

open Slice

namespace Expo

structure Sample where
  name : String
  labels : List (String × String)
  value : Float
  ts : Option Int

/-- `panic` is a slice at a byte at which no character starts. -/
inductive SampleError where
  | noValue
  | badMetricName (name : String)
  | noEquals
  | badLabelName (k : String)
  | notQuoted (k : String)
  | notClosed (k : String)
  | badEscape (k : String) (other : Option UInt8)
  | afterLabel (k : String) (other : Option UInt8)
  | noSpace
  | value (v : String)
  | timestamp (t : String)
  | tooMany
  | panic

/-- The messages; the reader quotes texts and bytes the way `Debug` prints them. -/
def SampleError.message (debugText : String → String) (debugByte : Option UInt8 → String)
    (debugChar : Option Char → String) : SampleError → String
  | .noValue => "no value"
  | .badMetricName name => "bad metric name " ++ debugText name
  | .noEquals => "a label with no '='"
  | .badLabelName k => "bad label name " ++ debugText k
  | .notQuoted k => "label " ++ k ++ " is not quoted"
  | .notClosed k => "label " ++ k ++ " is not closed"
  | .badEscape k other => "label " ++ k ++ ": bad escape " ++ debugByte other
  | .afterLabel k other =>
      "after label " ++ k ++ ": " ++ debugChar (other.map fun b => Char.ofNat b.toNat)
  | .noSpace => "no space before the value"
  | .value v => "value " ++ debugText v
  | .timestamp t => "timestamp " ++ debugText t
  | .tooMany => "more than a value and a timestamp"
  | .panic => "byte index is not a char boundary"

def isAsciiAlphabetic (c : Char) : Bool := ('a' ≤ c ∧ c ≤ 'z') ∨ ('A' ≤ c ∧ c ≤ 'Z')

def isNameStart (c : Char) : Bool := isAsciiAlphabetic c ∨ c = '_' ∨ c = ':'

def isNamePart (c : Char) : Bool := isNameStart c ∨ ('0' ≤ c ∧ c ≤ '9')

def isName (s : List Char) : Bool :=
  match s with
  | [] => false
  | first :: rest => isNameStart first ∧ rest.all isNamePart

def unescape (b : Option UInt8) : Option Char :=
  if b = some 0x6E then some '\n'
  else if b = some 0x5C then some '\\'
  else if b = some 0x22 then some '"'
  else none

/-- The inner loop: a value from byte `j` to its closing quote, and where that is. -/
def readValue (r : List Char) (k : String) (v : List Char) (j : Nat) :
    Except SampleError (List Char × Nat) :=
  match _here : byteAt r j with
  | none => .error (.notClosed k)
  | some b =>
      if b = 0x5C then
        match unescape (byteAt r (j + 1)) with
        | some ch => readValue r k (v ++ [ch]) (j + 2)
        | none => .error (.badEscape k (byteAt r (j + 1)))
      else if b = 0x22 then .ok (v, j)
      else
        match dropBytes j r with
        | some (ch :: _) => readValue r k (v ++ [ch]) (j + ch.utf8Size)
        | _ => .error .panic
termination_by byteLen r - j
decreasing_by
  all_goals have inside : j < byteLen r := (List.getElem?_eq_some_iff.mp _here).1
  · omega
  · have positive := ch.utf8Size_pos
    omega

/-- A value ends in the text, not before it starts. -/
theorem readValue_bounds {r : List Char} {k : String} {v : List Char} {j : Nat}
    {out : List Char × Nat} (read : readValue r k v j = .ok out) :
    j ≤ out.2 ∧ out.2 < byteLen r := by
  fun_induction readValue r k v j with
  | case1 => cases read
  | case2 v j _ ch _ ih =>
      obtain ⟨later, inside⟩ := ih read
      exact ⟨by omega, inside⟩
  | case3 => cases read
  | case4 v j here notEscape =>
      cases read
      exact ⟨Nat.le_refl _, (List.getElem?_eq_some_iff.mp here).1⟩
  | case5 v j b _ _ _ ch _ _ ih =>
      obtain ⟨later, inside⟩ := ih read
      exact ⟨by omega, inside⟩
  | case6 => cases read

/-- The loop over the labels from byte `i` on, and where it ends. -/
def readLabels (r : List Char) (labels : List (String × String)) (i : Nat) :
    Except SampleError (List (String × String) × Nat) :=
  if byteAt r i = some 0x7D then .ok (labels, i + 1)
  else
    match dropBytes i r with
    | none => .error .panic
    | some tail =>
        match find (· = '=') tail with
        | none => .error .noEquals
        | some offset =>
            match takeBytes offset tail with
            | none => .error .panic
            | some name =>
                let k := String.ofList name
                if ¬ isName name then .error (.badLabelName k)
                else if byteAt r (offset + i + 1) ≠ some 0x22 then .error (.notQuoted k)
                else
                  match _read : readValue r k [] (offset + i + 2) with
                  | .error e => .error e
                  | .ok (v, j) =>
                      let labels := labels ++ [(k, String.ofList v)]
                      if byteAt r (j + 1) = some 0x2C then readLabels r labels (j + 2)
                      else if byteAt r (j + 1) = some 0x7D then readLabels r labels (j + 1)
                      else .error (.afterLabel k (byteAt r (j + 1)))
termination_by byteLen r - i
decreasing_by
  all_goals
    obtain ⟨later, inside⟩ := readValue_bounds _read
    dsimp only at later inside
    omega

def parseValue (parseF64 : String → Option Float) (v : String) : Option Float :=
  if v = "+Inf" then some (1.0 / 0.0)
  else if v = "-Inf" then some (-1.0 / 0.0)
  else if v = "NaN" then some (0.0 / 0.0)
  else parseF64 v

/-- What stands behind the labels: a value and perhaps a timestamp. -/
def readRest (parseF64 : String → Option Float) (name : String)
    (labels : List (String × String)) (rest : List Char) : Except SampleError Sample :=
  match rest with
  | ' ' :: rest =>
      match Str.split (String.ofList rest) ' ' with
      | [] => .error .noValue
      | v :: more =>
          match parseValue parseF64 v with
          | none => .error (.value v)
          | some value =>
              match more with
              | [] => .ok ⟨name, labels, value, none⟩
              | t :: more =>
                  match Str.parseSigned (2 ^ 63) t with
                  | none => .error (.timestamp t)
                  | some ts =>
                      if more = [] then .ok ⟨name, labels, value, some ts⟩ else .error .tooMany
  | _ => .error .noSpace

def sample (parseF64 : String → Option Float) (line : String) : Except SampleError Sample :=
  match find (fun c => c = '{' ∨ c = ' ') line.toList with
  | none => .error .noValue
  | some i =>
      match takeBytes i line.toList, dropBytes i line.toList with
      | some name, some rest =>
          if ¬ isName name then .error (.badMetricName (String.ofList name))
          else
            match rest with
            | '{' :: r =>
                match readLabels r [] 0 with
                | .error e => .error e
                | .ok (labels, i) =>
                    match dropBytes i r with
                    | none => .error .panic
                    | some rest => readRest parseF64 (String.ofList name) labels rest
            | rest => readRest parseF64 (String.ofList name) [] rest
      | _, _ => .error .panic

/-! ## A written value reads back -/

theorem readValue_quote {r : List Char} {k : String} {j : Nat} (v : List Char)
    (quote : byteAt r j = some 0x22) : readValue r k v j = .ok (v, j) := by
  rw [readValue]
  split
  · rename_i none
    rw [quote] at none
    cases none
  · rename_i b here
    rw [quote] at here
    cases here
    rfl

theorem readValue_escape {r : List Char} {k : String} {j : Nat} {ch : Char} (v : List Char)
    (backslash : byteAt r j = some 0x5C) (code : unescape (byteAt r (j + 1)) = some ch) :
    readValue r k v j = readValue r k (v ++ [ch]) (j + 2) := by
  rw [readValue]
  split
  · rename_i none
    rw [backslash] at none
    cases none
  · rename_i b here
    rw [backslash] at here
    cases here
    rw [if_pos rfl, code]

theorem readValue_plain {r rest : List Char} {k : String} {j : Nat} {ch : Char} (v : List Char)
    (notEnd : byteAt r j ≠ none) (notEscape : byteAt r j ≠ some 0x5C)
    (notQuote : byteAt r j ≠ some 0x22) (here : dropBytes j r = some (ch :: rest)) :
    readValue r k v j = readValue r k (v ++ [ch]) (j + ch.utf8Size) := by
  rw [readValue]
  split
  · rename_i none
    exact absurd none notEnd
  · rename_i b byteIs
    rw [byteIs] at notEscape notQuote
    rw [if_neg fun same => notEscape (congrArg some same),
      if_neg fun same => notQuote (congrArg some same), here]

theorem readValue_escapeChar (c : Char) (front back : List Char) (k : String) (v : List Char) :
    readValue (front ++ (escapeChar c ++ back)) k v (byteLen front) =
      readValue (front ++ (escapeChar c ++ back)) k (v ++ [c])
        (byteLen (front ++ escapeChar c)) := by
  have escaped : ∀ code : Char, escapeChar c = ['\\', code] → code.toNat < 128 →
      unescape (some (UInt8.ofNat code.toNat)) = some c →
      readValue (front ++ (escapeChar c ++ back)) k v (byteLen front) =
        readValue (front ++ (escapeChar c ++ back)) k (v ++ [c])
          (byteLen (front ++ escapeChar c)) := by
    intro code isEscape ascii means
    have lengthIs : byteLen (front ++ escapeChar c) = byteLen front + 2 := by
      rw [isEscape, byteLen_append, byteLen_ascii (by decide), byteLen_ascii ascii]
      rfl
    have first : byteAt (front ++ (escapeChar c ++ back)) (byteLen front) = some 0x5C := by
      rw [isEscape]
      exact (byteAt_ascii (d := '\\') (by decide) front (code :: back)).mpr rfl
    have second : byteAt (front ++ (escapeChar c ++ back)) (byteLen front + 1) =
        some (UInt8.ofNat code.toNat) := by
      have one : byteLen (front ++ ['\\']) = byteLen front + 1 := by
        rw [byteLen_append, byteLen_ascii (by decide)]
        rfl
      have split : front ++ (escapeChar c ++ back) = (front ++ ['\\']) ++ code :: back := by
        rw [isEscape]
        simp
      rw [split, ← one]
      exact (byteAt_ascii ascii (front ++ ['\\']) back).mpr rfl
    rw [lengthIs]
    exact readValue_escape v first (second ▸ means)
  by_cases isBackslash : c = '\\'
  · subst isBackslash
    exact escaped '\\' rfl (by decide) rfl
  by_cases isQuote : c = '"'
  · subst isQuote
    exact escaped '"' rfl (by decide) rfl
  by_cases isLineFeed : c = '\n'
  · subst isLineFeed
    exact escaped 'n' rfl (by decide) rfl
  have plain : escapeChar c = [c] := by
    rw [escapeChar, if_neg isBackslash, if_neg isQuote, if_neg isLineFeed]
  have lengthIs : byteLen (front ++ escapeChar c) = byteLen front + c.utf8Size := by
    rw [plain, byteLen_append, byteLen_cons]
    rfl
  rw [lengthIs, plain]
  have here : dropBytes (byteLen front) (front ++ ([c] ++ back)) = some (c :: back) :=
    dropBytes_append front (c :: back)
  refine readValue_plain v ?_ ?_ ?_ here
  · intro ended
    have inside := List.getElem?_eq_none_iff.mp ended
    have longer : byteLen (front ++ ([c] ++ back)) =
        byteLen front + (c.utf8Size + byteLen back) := by
      rw [byteLen_append, List.singleton_append, byteLen_cons]
    have positive := c.utf8Size_pos
    rw [byteLen] at longer
    omega
  · exact fun same => isBackslash ((byteAt_ascii (by decide) front back).mp same)
  · exact fun same => isQuote ((byteAt_ascii (by decide) front back).mp same)

theorem readValue_escaped (value front back : List Char) (k : String) (v : List Char) :
    readValue (front ++ (value.flatMap escapeChar ++ '"' :: back)) k v (byteLen front) =
      .ok (v ++ value, byteLen (front ++ value.flatMap escapeChar)) := by
  induction value generalizing front v with
  | nil =>
      rw [List.flatMap_nil, List.append_nil, List.append_nil]
      exact readValue_quote v ((byteAt_ascii (by decide) front back).mpr rfl)
  | cons c rest ih =>
      rw [List.flatMap_cons, List.append_assoc, readValue_escapeChar]
      have next := ih (front ++ escapeChar c) (v ++ [c])
      rw [List.append_assoc, List.append_assoc, List.append_assoc, List.singleton_append] at next
      exact next

/-! ## A written label list reads back -/

theorem isName_cons {k : List Char} (nameOk : isName k = true) :
    ∃ first rest, k = first :: rest ∧ isNameStart first = true ∧ rest.all isNamePart = true := by
  cases k with
  | nil => exact absurd nameOk Bool.false_ne_true
  | cons first rest =>
      obtain ⟨start, parts⟩ := of_decide_eq_true nameOk
      exact ⟨first, rest, rfl, start, parts⟩

theorem isNamePart_of_mem {k : List Char} (nameOk : isName k = true) :
    ∀ c ∈ k, isNamePart c = true := by
  obtain ⟨first, rest, rfl, start, parts⟩ := isName_cons nameOk
  intro c member
  rcases List.mem_cons.mp member with isFirst | inRest
  · rw [isFirst]
    exact decide_eq_true (Or.inl start)
  · exact List.all_eq_true.mp parts c inRest

theorem ne_of_notNamePart {k : List Char} (nameOk : isName k = true) {d : Char}
    (notPart : isNamePart d = false) : ∀ c ∈ k, c ≠ d := by
  intro c member same
  have part := isNamePart_of_mem nameOk c member
  rw [same, notPart] at part
  exact Bool.false_ne_true part

theorem readLabels_label (front back : List Char) (label : String × String) (c : Char)
    (labels : List (String × String)) (nameOk : isName label.1.toList = true) :
    let r := front ++ ((labelText label).toList ++ c :: back)
    let stop := byteLen (front ++ (labelText label).toList)
    readLabels r labels (byteLen front) =
      if byteAt r stop = some 0x2C then readLabels r (labels ++ [label]) (stop + 1)
      else if byteAt r stop = some 0x7D then readLabels r (labels ++ [label]) stop
      else .error (.afterLabel label.1 (byteAt r stop)) := by
  intro r stop
  obtain ⟨k, value⟩ := label
  have rIs : r = front ++ (k.toList ++ '=' ::
      ('"' :: (value.toList.flatMap escapeChar ++ '"' :: c :: back))) := by
    simp [r, toList_labelText]
  -- The loop does not end here: a name does not start with a brace.
  have notClosed : byteAt r (byteLen front) ≠ some 0x7D := by
    obtain ⟨first, rest, spelled, start, _⟩ := isName_cons nameOk
    dsimp only at spelled
    rw [rIs, spelled]
    intro closed
    have isBrace := (byteAt_ascii (d := '}') (by decide) front _).mp closed
    rw [isBrace] at start
    exact absurd start (by decide)
  have tailIs : dropBytes (byteLen front) r = some (k.toList ++ '=' ::
      ('"' :: (value.toList.flatMap escapeChar ++ '"' :: c :: back))) := by
    rw [rIs]
    exact dropBytes_append _ _
  have equalsAt := find_append (p := (· = '=')) (c := '=') k.toList
    ('"' :: (value.toList.flatMap escapeChar ++ '"' :: c :: back))
    (fun x member => decide_eq_false (ne_of_notNamePart nameOk (by decide) x member)) (by decide)
  have keyIs := takeBytes_append k.toList ('=' ::
    ('"' :: (value.toList.flatMap escapeChar ++ '"' :: c :: back)))
  have equalsLen : byteLen (front ++ (k.toList ++ ['='])) =
      byteLen k.toList + byteLen front + 1 := by
    rw [byteLen_append, byteLen_append, byteLen_ascii (by decide)]
    have none : byteLen [] = 0 := rfl
    omega
  have openLen : byteLen (front ++ (k.toList ++ ['=', '"'])) =
      byteLen k.toList + byteLen front + 2 := by
    rw [byteLen_append, byteLen_append, byteLen_ascii (by decide), byteLen_ascii (by decide)]
    have none : byteLen [] = 0 := rfl
    omega
  have quoted : byteAt r (byteLen k.toList + byteLen front + 1) = some 0x22 := by
    have shape : r = (front ++ (k.toList ++ ['='])) ++ '"' ::
        (value.toList.flatMap escapeChar ++ '"' :: c :: back) := by
      rw [rIs]
      simp
    rw [shape, ← equalsLen]
    exact (byteAt_ascii (d := '"') (by decide) _ _).mpr rfl
  have valueIs : readValue r k [] (byteLen k.toList + byteLen front + 2) =
      .ok (value.toList, byteLen (front ++ (k.toList ++ ['=', '"']) ++
        value.toList.flatMap escapeChar)) := by
    have shape : r = (front ++ (k.toList ++ ['=', '"'])) ++
        (value.toList.flatMap escapeChar ++ '"' :: c :: back) := by
      rw [rIs]
      simp
    rw [shape, ← openLen]
    exact readValue_escaped value.toList _ (c :: back) k []
  have stopIs : stop = byteLen (front ++ (k.toList ++ ['=', '"']) ++
      value.toList.flatMap escapeChar) + 1 := by
    have shape : front ++ (labelText (k, value)).toList =
        (front ++ (k.toList ++ ['=', '"']) ++ value.toList.flatMap escapeChar) ++ ['"'] := by
      simp [toList_labelText]
    have one : byteLen ['"'] = 1 := byteLen_ascii (by decide) []
    rw [show stop = byteLen (front ++ (labelText (k, value)).toList) from rfl, shape,
      byteLen_append, one]
  rw [readLabels, if_neg notClosed, tailIs]
  simp only [equalsAt, keyIs, nameOk, not_true_eq_false, if_false, String.ofList_toList, quoted,
    ne_eq]
  split
  · rename_i e failed
    rw [String.ofList_toList, valueIs] at failed
    cases failed
  · rename_i v j read
    rw [String.ofList_toList, valueIs] at read
    cases read
    rw [String.ofList_toList, stopIs]

theorem readLabels_written {ls : List (String × String)} (someLabel : ls ≠ [])
    (namesOk : ∀ l ∈ ls, isName l.1.toList = true) (front back : List Char)
    (labels : List (String × String)) :
    readLabels (front ++ ((labelsText ls).toList ++ '}' :: back)) labels (byteLen front) =
      .ok (labels ++ ls, byteLen (front ++ ((labelsText ls).toList ++ ['}']))) := by
  induction ls generalizing front labels with
  | nil => exact absurd rfl someLabel
  | cons label rest ih =>
      have nameOk := namesOk label (List.mem_cons_self ..)
      cases rest with
      | nil =>
          have closes : byteAt (front ++ ((labelText label).toList ++ '}' :: back))
              (byteLen (front ++ (labelText label).toList)) = some 0x7D := by
            rw [← List.append_assoc]
            exact (byteAt_ascii (d := '}') (by decide) _ back).mpr rfl
          have one : byteLen (front ++ ((labelText label).toList ++ ['}'])) =
              byteLen (front ++ (labelText label).toList) + 1 := by
            rw [← List.append_assoc, byteLen_append, byteLen_ascii (by decide)]
            rfl
          rw [labelsText, one]
          have step := readLabels_label front back label '}' labels nameOk
          dsimp only at step
          rw [step, closes, if_neg (by decide), if_pos rfl, readLabels, if_pos closes]
      | cons next rest =>
          have comma : ",".toList = [','] := rfl
          have textIs : (labelsText (label :: next :: rest)).toList =
              (labelText label).toList ++ ',' :: (labelsText (next :: rest)).toList := by
            simp [labelsText, comma]
          have goesOn : byteAt (front ++ ((labelText label).toList ++ ',' ::
              ((labelsText (next :: rest)).toList ++ '}' :: back)))
              (byteLen (front ++ (labelText label).toList)) = some 0x2C := by
            rw [← List.append_assoc]
            exact (byteAt_ascii (d := ',') (by decide) _ _).mpr rfl
          have others := ih (List.cons_ne_nil _ _)
            (fun l member => namesOk l (List.mem_cons_of_mem _ member))
            (front ++ ((labelText label).toList ++ [','])) (labels ++ [label])
          have one : byteLen (front ++ ((labelText label).toList ++ [','])) =
              byteLen (front ++ (labelText label).toList) + 1 := by
            rw [← List.append_assoc, byteLen_append, byteLen_ascii (by decide)]
            rfl
          have step := readLabels_label front ((labelsText (next :: rest)).toList ++ '}' :: back)
            label ',' labels nameOk
          dsimp only at step
          rw [one] at others
          rw [textIs, List.append_assoc, List.cons_append, step, goesOn, if_pos rfl]
          simpa using others

/-! ## A written line reads back -/

/-- What `sample` makes of a line whose value reads `valueText`. -/
def readBack (parseF64 : String → Option Float) (name : String)
    (labels : List (String × String)) (valueText : String) (ts : Option Int) :
    Except SampleError Sample :=
  match parseValue parseF64 valueText with
  | none => .error (.value valueText)
  | some value => .ok ⟨name, labels, value, ts⟩

theorem parseSigned_int64 (ts : Int64) :
    Str.parseSigned (2 ^ 63) (toString ts.toInt) = some ts.toInt :=
  Str.parseSigned_toString ts.le_toInt ts.toInt_lt

theorem readRest_written (parseF64 : String → Option Float) (name : String)
    (labels : List (String × String)) {valueText : String} (noSpace : ' ' ∉ valueText.toList)
    (ts : Option Int64) :
    readRest parseF64 name labels
        (' ' :: (valueText.toList ++ (timestampText (ts.map Int64.toInt)).toList)) =
      readBack parseF64 name labels valueText (ts.map Int64.toInt) := by
  cases ts with
  | none =>
      have parts : Str.split (String.ofList (valueText.toList ++ "".toList)) ' ' = [valueText] := by
        rw [Str.split, String.toList_ofList, String.toList_empty, List.append_nil,
          List.splitOn_eq_singleton noSpace, List.map_singleton, String.ofList_toList]
      simp only [readRest, Option.map_none, timestampText, parts, readBack]
  | some ts =>
      have noSpaceInStamp : ' ' ∉ (toString ts.toInt).toList :=
        Str.notMem_toString_int (by decide) (by decide) _
      have space : (" " ++ toString ts.toInt).toList = ' ' :: (toString ts.toInt).toList := by
        rw [String.toList_append]
        rfl
      have parts : Str.split (String.ofList (valueText.toList ++
          ' ' :: (toString ts.toInt).toList)) ' ' = [valueText, toString ts.toInt] := by
        rw [Str.split, String.toList_ofList, List.splitOn_append_cons_self_of_not_mem noSpace,
          List.splitOn_eq_singleton noSpaceInStamp, List.map_cons, List.map_singleton,
          String.ofList_toList, String.ofList_toList]
      simp only [readRest, Option.map_some, timestampText, space, parts, parseSigned_int64,
        readBack, if_true]

theorem isName_oneLine {name : String} (nameOk : isName name.toList = true) :
    '\n' ∉ name.toList :=
  fun member => ne_of_notNamePart nameOk (by decide) _ member rfl

theorem sample_head (parseF64 : String → Option Float) {name : List Char}
    (nameOk : isName name = true) {line : String} {c : Char} {back : List Char}
    (ends : c = '{' ∨ c = ' ') (lineIs : line.toList = name ++ c :: back) :
    sample parseF64 line =
      if c = '{' then
        match readLabels back [] 0 with
        | .error e => .error e
        | .ok (labels, i) =>
            match dropBytes i back with
            | none => .error .panic
            | some rest => readRest parseF64 (String.ofList name) labels rest
      else readRest parseF64 (String.ofList name) [] (c :: back) := by
  have notIn : ∀ x ∈ name, decide (x = '{' ∨ x = ' ') = false := by
    intro x member
    refine decide_eq_false ?_
    rintro (brace | space)
    · exact ne_of_notNamePart nameOk (by decide) x member brace
    · exact ne_of_notNamePart nameOk (by decide) x member space
  have at' := find_append (p := fun c => decide (c = '{' ∨ c = ' ')) name back notIn
    (decide_eq_true ends)
  rw [sample, lineIs, at']
  dsimp only
  rw [takeBytes_append, dropBytes_append]
  dsimp only
  rw [if_neg (not_not.mpr nameOk)]
  rcases ends with rfl | rfl
  · rfl
  · rfl

theorem sample_line (parseF64 : String → Option Float) {name valueText : String}
    {labels : List (String × String)} (nameOk : isName name.toList = true)
    (namesOk : ∀ l ∈ labels, isName l.1.toList = true) (noSpace : ' ' ∉ valueText.toList)
    (ts : Option Int64) :
    sample parseF64
        (seriesHead name labels ++ valueText ++ timestampText (ts.map Int64.toInt)) =
      readBack parseF64 name labels valueText (ts.map Int64.toInt) := by
  have space : " ".toList = [' '] := rfl
  by_cases noLabels : labels = []
  · have lineIs : (seriesHead name labels ++ valueText ++
        timestampText (ts.map Int64.toInt)).toList =
        name.toList ++ ' ' :: (valueText.toList ++
          (timestampText (ts.map Int64.toInt)).toList) := by
      simp [seriesHead, labelSet, noLabels, space]
    rw [sample_head parseF64 nameOk (Or.inr rfl) lineIs, if_neg (by decide),
      readRest_written parseF64 _ [] noSpace, String.ofList_toList, noLabels]
  · have openBrace : "\x7b".toList = ['{'] := rfl
    have closeBrace : "\x7d".toList = ['}'] := rfl
    have lineIs : (seriesHead name labels ++ valueText ++
        timestampText (ts.map Int64.toInt)).toList =
        name.toList ++ '{' :: ((labelsText labels).toList ++ '}' :: ' ' :: (valueText.toList ++
          (timestampText (ts.map Int64.toInt)).toList)) := by
      simp [seriesHead, labelSet, noLabels, space, openBrace, closeBrace]
    have read := readLabels_written noLabels namesOk []
      (' ' :: (valueText.toList ++ (timestampText (ts.map Int64.toInt)).toList)) []
    have behind := dropBytes_append ((labelsText labels).toList ++ ['}'])
      (' ' :: (valueText.toList ++ (timestampText (ts.map Int64.toInt)).toList))
    rw [List.append_assoc, List.singleton_append] at behind
    rw [List.nil_append, List.nil_append, List.nil_append] at read
    rw [sample_head parseF64 nameOk (Or.inl rfl) lineIs, if_pos rfl]
    change (match readLabels _ [] (byteLen []) with
      | .error e => _
      | .ok (labels, i) => _) = _
    rw [read]
    dsimp only
    rw [behind]
    dsimp only
    rw [readRest_written parseF64 _ labels noSpace, String.ofList_toList]

/-- A written sample is one line, and reading that line gives the sample again. -/
theorem sample_sampleLineText (parseF64 : String → Option Float) {name valueText : String}
    {labels : List (String × String)} (nameOk : isName name.toList = true)
    (namesOk : ∀ l ∈ labels, isName l.1.toList = true) (noSpace : ' ' ∉ valueText.toList)
    (noLineFeed : '\n' ∉ valueText.toList) (ts : Option Int64) :
    ∃ line, sampleLineText name labels valueText (ts.map Int64.toInt) = line ++ "\n" ∧
      '\n' ∉ line.toList ∧
      sample parseF64 line =
        match parseValue parseF64 valueText with
        | none => .error (.value valueText)
        | some value => .ok ⟨name, labels, value, ts.map Int64.toInt⟩ := by
  refine ⟨_, rfl, ?_, sample_line parseF64 nameOk namesOk noSpace ts⟩
  exact lineText_oneLine (isName_oneLine nameOk)
    (fun label member => isName_oneLine (namesOk label member)) noLineFeed _

theorem sample_sampleLineText_hostileLabel :
    let hostile := "/a\"b\\n\n\x7d,c=\"d\"\x7d 7 # é"
    ∃ line, sampleLineText "m_total" [("id", hostile), ("image", "")] "2" (some (-5)) =
        line ++ "\n" ∧ '\n' ∉ line.toList ∧
      sample (fun v => if v = "2" then some 2.0 else none) line =
        .ok ⟨"m_total", [("id", hostile), ("image", "")], 2.0, some (-5)⟩ :=
  sample_sampleLineText (fun v => if v = "2" then some 2.0 else none) (by decide) (by decide)
    (by decide) (by decide) (some (-5))

end Expo

end Cadvisor
