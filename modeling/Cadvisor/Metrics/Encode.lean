import Cadvisor.Lib.Str
import Mathlib.Data.List.TakeWhile

/-!
# The Prometheus text format

One sample is one line: the family's name, the label set in braces, the value as
Go prints it, and a timestamp.  Label values are escaped, so the part in front of
the value tells which series a line belongs to.
-/

set_option autoImplicit false

namespace Cadvisor

/-- Shortest digits of a float.  `ryu` writes finite numbers with digits, a
point, an exponent sign and minus signs only. -/
structure Ryu where
  format : Float → String
  oneLine : ∀ v, '\n' ∉ (format v).toList

/-- `str::parse` at `i32`. -/
def parseI32 (s : List Char) : Option Int :=
  let bounded (n : Int) : Option Int := if -2 ^ 31 ≤ n ∧ n < 2 ^ 31 then some n else none
  match s with
  | '-' :: digits => (Str.parseDigits digits).bind fun n => bounded (-n)
  | '+' :: digits => (Str.parseDigits digits).bind fun n => bounded n
  | digits => (Str.parseDigits digits).bind fun n => bounded n

def trimEndZeros (s : List Char) : List Char := (s.reverse.dropWhile (· == '0')).reverse

def isExponentMark (c : Char) : Bool := c = 'e' ∨ c = 'E'

/-- Significant digits, and the place of the point behind the first of them. -/
def significant (s : List Char) : List Char × Int :=
  let mantissa := s.takeWhile fun c => ¬ isExponentMark c
  let intPart := mantissa.takeWhile (· != '.')
  let fracPart := trimEndZeros ((mantissa.dropWhile (· != '.')).drop 1)
  if s.any isExponentMark then
    (intPart ++ fracPart, (parseI32 ((s.dropWhile fun c => ¬ isExponentMark c).drop 1)).getD 0)
  else if intPart = ['0'] then
    let digits := fracPart.dropWhile (· == '0')
    (digits, -((fracPart.length - digits.length : Nat) : Int) - 1)
  else (intPart ++ fracPart, (intPart.length : Int) - 1)

/-- Scientific below 10^-4 and from 10^6 on, plain between. -/
def layoutDigits (digits : List Char) (exp : Int) : List Char :=
  if exp < -4 ∨ 6 ≤ exp then
    digits.take 1 ++ (if 1 < digits.length then '.' :: digits.drop 1 else []) ++
      'e' :: (if 0 ≤ exp then '+' else '-') ::
        ((if exp.natAbs < 10 then ['0'] else []) ++ (toString exp.natAbs).toList)
  else if (digits.length : Int) - 1 ≤ exp then
    digits ++ List.replicate (exp - (digits.length - 1)).toNat '0'
  else if 0 ≤ exp then
    digits.take (exp.toNat + 1) ++ '.' :: digits.drop (exp.toNat + 1)
  else '0' :: '.' :: (List.replicate (-exp - 1).toNat '0' ++ digits)

/-- The digits that `ryu` wrote for a magnitude, laid out as Go would. -/
def reshape (s : List Char) : List Char :=
  let (digits, exp) := significant s
  let trimmed := trimEndZeros digits
  if trimmed = [] ∨ trimmed = ['0'] then layoutDigits ['0'] 0 else layoutDigits trimmed exp

def fmtFloat (ryu : Ryu) (v : Float) : String :=
  if v == 0.0 then "0"
  else if v == 1.0 then "1"
  else if v == -1.0 then "-1"
  else if v.isNaN then "NaN"
  else if v.isInf then (if v > 0.0 then "+Inf" else "-Inf")
  else
    match Str.stripPrefix (ryu.format v) "-" with
    | some rest => "-" ++ String.ofList (reshape rest.toList)
    | none => String.ofList (reshape (ryu.format v).toList)

def escapeChar (c : Char) : List Char :=
  if c = '\\' then ['\\', '\\']
  else if c = '"' then ['\\', '"']
  else if c = '\n' then ['\\', 'n']
  else [c]

def escapeLabelValue (v : String) : String := String.ofList (v.toList.flatMap escapeChar)

def labelText (label : String × String) : String :=
  label.1 ++ "=\"" ++ escapeLabelValue label.2 ++ "\""

def labelsText : List (String × String) → String
  | [] => ""
  | [label] => labelText label
  | label :: next :: rest => labelText label ++ "," ++ labelsText (next :: rest)

def labelSet (labels : List (String × String)) : String :=
  if labels = [] then "" else "\x7b" ++ labelsText labels ++ "\x7d"

/-- What a sample's line has in front of the value. -/
def seriesHead (name : String) (labels : List (String × String)) : String :=
  name ++ labelSet labels ++ " "

def timestampText : Option Int → String
  | none => ""
  | some ts => " " ++ toString ts

/-- `sample_line` for a value that prints as `valueText`. -/
def sampleLineText (name : String) (labels : List (String × String)) (valueText : String)
    (ts : Option Int) : String :=
  seriesHead name labels ++ valueText ++ timestampText ts ++ "\n"

def sampleText (ryu : Ryu) (name : String) (labels : List (String × String)) (value : Float)
    (ts : Option Int) : String :=
  seriesHead name labels ++ fmtFloat ryu value ++ timestampText ts

/-! ## A sample is one line -/

theorem mem_of_mem_takeWhile {α : Type} {p : α → Bool} {xs : List α} {x : α}
    (member : x ∈ xs.takeWhile p) : x ∈ xs :=
  (List.takeWhile_sublist p).subset member

theorem mem_of_mem_dropWhile {α : Type} {p : α → Bool} {xs : List α} {x : α}
    (member : x ∈ xs.dropWhile p) : x ∈ xs :=
  (List.dropWhile_sublist p).subset member

theorem mem_of_mem_trimEndZeros {s : List Char} {c : Char} (member : c ∈ trimEndZeros s) :
    c ∈ s := by
  rw [trimEndZeros, List.mem_reverse] at member
  exact List.mem_reverse.mp (mem_of_mem_dropWhile member)

theorem mem_of_mem_significant {s : List Char} {c : Char} (member : c ∈ (significant s).1) :
    c ∈ s := by
  have fromInt : c ∈ (s.takeWhile fun c => ¬ isExponentMark c).takeWhile (· != '.') → c ∈ s :=
    fun inPart => mem_of_mem_takeWhile (mem_of_mem_takeWhile inPart)
  have fromFrac : c ∈ trimEndZeros
      (((s.takeWhile fun c => ¬ isExponentMark c).dropWhile (· != '.')).drop 1) → c ∈ s :=
    fun inPart => mem_of_mem_takeWhile
      (mem_of_mem_dropWhile (List.mem_of_mem_drop (mem_of_mem_trimEndZeros inPart)))
  unfold significant at member
  dsimp only at member
  split_ifs at member
  · exact (List.mem_append.mp member).elim fromInt fromFrac
  · exact fromFrac (mem_of_mem_dropWhile member)
  · exact (List.mem_append.mp member).elim fromInt fromFrac

theorem layoutDigits_oneLine {digits : List Char} (plain : '\n' ∉ digits) (exp : Int) :
    '\n' ∉ layoutDigits digits exp := by
  have front : ∀ n, '\n' ∉ digits.take n := fun n member => plain (List.mem_of_mem_take member)
  have back : ∀ n, '\n' ∉ digits.drop n := fun n member => plain (List.mem_of_mem_drop member)
  have zeros : ∀ n, '\n' ∉ List.replicate n '0' := fun n member =>
    absurd (List.eq_of_mem_replicate member) (by decide)
  have number : '\n' ∉ Nat.toDigits 10 exp.natAbs := by
    simpa using Str.notMem_toString_nat (c := '\n') (by decide) exp.natAbs
  have tail : '\n' ∉ digits.tail := fun member => plain (List.mem_of_mem_tail member)
  unfold layoutDigits
  split_ifs <;> simp [front, back, zeros, number, plain, tail]

theorem reshape_oneLine {s : List Char} (plain : '\n' ∉ s) : '\n' ∉ reshape s := by
  unfold reshape
  dsimp only
  split_ifs
  · decide
  · apply layoutDigits_oneLine
    exact fun member => plain (mem_of_mem_significant (mem_of_mem_trimEndZeros member))

theorem fmtFloat_oneLine (ryu : Ryu) (v : Float) : '\n' ∉ (fmtFloat ryu v).toList := by
  have plain := ryu.oneLine v
  unfold fmtFloat
  split_ifs
  · decide
  · decide
  · decide
  · decide
  · decide
  · decide
  · cases stripped : Str.stripPrefix (ryu.format v) "-" with
    | none => simpa using reshape_oneLine plain
    | some rest =>
        have restPlain : '\n' ∉ rest.toList := by
          unfold Str.stripPrefix at stripped
          split_ifs at stripped
          rw [← Option.some.inj stripped, String.toList_ofList]
          exact fun member => plain (List.mem_of_mem_drop member)
        simpa using reshape_oneLine restPlain

theorem escapeChar_oneLine (c : Char) : '\n' ∉ escapeChar c := by
  unfold escapeChar
  split_ifs with backslash quote lineFeed
  · decide
  · decide
  · decide
  · simpa [eq_comm] using lineFeed

theorem labelText_oneLine {label : String × String} (plain : '\n' ∉ label.1.toList) :
    '\n' ∉ (labelText label).toList := by
  have value : '\n' ∉ label.2.toList.flatMap escapeChar := by
    intro member
    obtain ⟨c, _, inCode⟩ := List.mem_flatMap.mp member
    exact escapeChar_oneLine c inCode
  simp [labelText, escapeLabelValue, plain, value]

theorem labelsText_oneLine {labels : List (String × String)}
    (plain : ∀ label ∈ labels, '\n' ∉ label.1.toList) : '\n' ∉ (labelsText labels).toList := by
  induction labels with
  | nil => decide
  | cons label rest ih =>
      have first := labelText_oneLine (plain label (List.mem_cons_self ..))
      cases rest with
      | nil => exact first
      | cons next rest =>
          have others := ih fun l member => plain l (List.mem_cons_of_mem _ member)
          simp [labelsText, first, others]

theorem lineText_oneLine {name valueText : String} {labels : List (String × String)}
    (namePlain : '\n' ∉ name.toList) (labelsPlain : ∀ label ∈ labels, '\n' ∉ label.1.toList)
    (valuePlain : '\n' ∉ valueText.toList) (ts : Option Int) :
    '\n' ∉ (seriesHead name labels ++ valueText ++ timestampText ts).toList := by
  have set : '\n' ∉ (labelSet labels).toList := by
    unfold labelSet
    split_ifs
    · decide
    · simp [labelsText_oneLine labelsPlain]
  have stamp : '\n' ∉ (timestampText ts).toList := by
    cases ts with
    | none => decide
    | some ts => simpa [timestampText] using Str.notMem_toString_int (by decide) (by decide) ts
  simp [seriesHead, namePlain, set, valuePlain, stamp]

theorem sampleText_oneLine (ryu : Ryu) {name : String} {labels : List (String × String)}
    (namePlain : '\n' ∉ name.toList) (labelsPlain : ∀ label ∈ labels, '\n' ∉ label.1.toList)
    (value : Float) (ts : Option Int) : '\n' ∉ (sampleText ryu name labels value ts).toList :=
  lineText_oneLine namePlain labelsPlain (fmtFloat_oneLine ryu value) ts

/-! ## The head of a line names its series -/

def isNameChar (c : Char) : Bool :=
  ('a' ≤ c ∧ c ≤ 'z') ∨ ('A' ≤ c ∧ c ≤ 'Z') ∨ ('0' ≤ c ∧ c ≤ '9') ∨ c = '_'

def PlainName (name : String) : Prop := ∀ c ∈ name.toList, isNameChar c = true

theorem plainName_ofList {l : List Char} (plain : l.all isNameChar = true) :
    PlainName (String.ofList l) := by
  unfold PlainName
  rw [String.toList_ofList]
  exact List.all_eq_true.mp plain

theorem PlainName.oneLine {name : String} (plain : PlainName name) : '\n' ∉ name.toList :=
  fun member => absurd (plain _ member) (by decide)

theorem append_separator_inj {p : Char → Bool} {a b r s : List Char} {x y : Char}
    (aAll : ∀ c ∈ a, p c = true) (bAll : ∀ c ∈ b, p c = true) (xNot : p x = false)
    (yNot : p y = false) (same : a ++ x :: r = b ++ y :: s) : a = b ∧ x = y ∧ r = s := by
  have front : ∀ (l : List Char) (z : Char) (t : List Char), (∀ c ∈ l, p c = true) →
      p z = false → (l ++ z :: t).takeWhile p = l := by
    intro l z t all stop
    rw [List.takeWhile_append_of_pos all, List.takeWhile_cons_of_neg (by simp [stop]),
      List.append_nil]
  have fronts := congrArg (List.takeWhile p) same
  rw [front a x r aAll xNot, front b y s bAll yNot] at fronts
  subst fronts
  have tails := List.append_cancel_left same
  exact ⟨rfl, List.cons.inj tails⟩

theorem escapeChar_inj {c d : Char} {r s : List Char}
    (same : escapeChar c ++ r = escapeChar d ++ s) : c = d ∧ r = s := by
  unfold escapeChar at same
  split_ifs at same <;> simp_all [eq_comm]

theorem escapeChar_ne_quote {c : Char} {r s : List Char} : escapeChar c ++ r ≠ '"' :: s := by
  unfold escapeChar
  split_ifs with backslash quote lineFeed
  · simp
  · simp
  · simp
  · simp [quote]

theorem escaped_inj {v w r s : List Char}
    (same : v.flatMap escapeChar ++ '"' :: r = w.flatMap escapeChar ++ '"' :: s) :
    v = w ∧ r = s := by
  induction v generalizing w with
  | nil =>
      cases w with
      | nil => exact ⟨rfl, (List.cons.inj same).2⟩
      | cons d w =>
          rw [List.flatMap_nil, List.nil_append, List.flatMap_cons, List.append_assoc] at same
          exact absurd same.symm escapeChar_ne_quote
  | cons c v ih =>
      cases w with
      | nil =>
          rw [List.flatMap_nil, List.nil_append, List.flatMap_cons, List.append_assoc] at same
          exact absurd same escapeChar_ne_quote
      | cons d w =>
          rw [List.flatMap_cons, List.flatMap_cons, List.append_assoc, List.append_assoc] at same
          obtain ⟨rfl, rest⟩ := escapeChar_inj same
          obtain ⟨rfl, tails⟩ := ih rest
          exact ⟨rfl, tails⟩

theorem toList_labelText (label : String × String) : (labelText label).toList =
    label.1.toList ++ '=' :: '"' :: (label.2.toList.flatMap escapeChar ++ ['"']) := by
  have equals : "=\"".toList = ['=', '"'] := rfl
  have quote : "\"".toList = ['"'] := rfl
  simp [labelText, escapeLabelValue, equals, quote]

theorem labelText_inj {a b : String × String} {r s : List Char} (aPlain : PlainName a.1)
    (bPlain : PlainName b.1)
    (same : (labelText a).toList ++ r = (labelText b).toList ++ s) : a = b ∧ r = s := by
  rw [toList_labelText, toList_labelText] at same
  simp only [List.append_assoc, List.cons_append, List.nil_append] at same
  obtain ⟨keys, _, rest⟩ := append_separator_inj aPlain bPlain (by decide) (by decide) same
  obtain ⟨values, tails⟩ := escaped_inj (List.cons.inj rest).2
  exact ⟨Prod.ext (String.toList_injective keys) (String.toList_injective values), tails⟩

theorem labelsText_inj {as bs : List (String × String)} {r s : List Char}
    (asPlain : ∀ label ∈ as, PlainName label.1) (bsPlain : ∀ label ∈ bs, PlainName label.1)
    (asSome : as ≠ []) (bsSome : bs ≠ [])
    (same : (labelsText as).toList ++ '}' :: r = (labelsText bs).toList ++ '}' :: s) :
    as = bs ∧ r = s := by
  have comma : ",".toList = [','] := rfl
  induction as generalizing bs with
  | nil => exact absurd rfl asSome
  | cons a as ih =>
      cases bs with
      | nil => exact absurd rfl bsSome
      | cons b bs =>
          have aPlain := asPlain a (List.mem_cons_self ..)
          have bPlain := bsPlain b (List.mem_cons_self ..)
          have asRest : ∀ label ∈ as, PlainName label.1 := fun l member =>
            asPlain l (List.mem_cons_of_mem _ member)
          have bsRest : ∀ label ∈ bs, PlainName label.1 := fun l member =>
            bsPlain l (List.mem_cons_of_mem _ member)
          cases as with
          | nil =>
              cases bs with
              | nil =>
                  obtain ⟨rfl, tails⟩ := labelText_inj aPlain bPlain same
                  exact ⟨rfl, (List.cons.inj tails).2⟩
              | cons b' bs =>
                  simp only [labelsText, String.toList_append, List.append_assoc, comma,
                    List.cons_append] at same
                  obtain ⟨_, tails⟩ := labelText_inj aPlain bPlain same
                  exact absurd (List.cons.inj tails).1 (by decide)
          | cons a' as =>
              cases bs with
              | nil =>
                  simp only [labelsText, String.toList_append, List.append_assoc, comma,
                    List.cons_append] at same
                  obtain ⟨_, tails⟩ := labelText_inj aPlain bPlain same
                  exact absurd (List.cons.inj tails).1 (by decide)
              | cons b' bs =>
                  simp only [labelsText, String.toList_append, List.append_assoc, comma,
                    List.cons_append, List.nil_append] at same
                  obtain ⟨rfl, tails⟩ := labelText_inj aPlain bPlain same
                  obtain ⟨others, rest⟩ := ih asRest bsRest (List.cons_ne_nil _ _)
                    (List.cons_ne_nil _ _) (List.cons.inj tails).2
                  exact ⟨congrArg (a :: ·) others, rest⟩

theorem sampleText_startsWith (ryu : Ryu) {name other : String}
    {labels otherLabels : List (String × String)} (namePlain : PlainName name)
    (otherPlain : PlainName other) (labelsPlain : ∀ label ∈ labels, PlainName label.1)
    (otherLabelsPlain : ∀ label ∈ otherLabels, PlainName label.1) (value : Float)
    (ts : Option Int) :
    Str.startsWith (sampleText ryu other otherLabels value ts) (seriesHead name labels) = true ↔
      other = name ∧ otherLabels = labels := by
  have space : " ".toList = [' '] := rfl
  have opening : "\x7b".toList = ['{'] := rfl
  have closing : "\x7d".toList = ['}'] := rfl
  rw [Str.startsWith, List.isPrefixOf_iff_prefix]
  constructor
  · intro isPrefix
    obtain ⟨tail, same⟩ := isPrefix
    have split : ∀ n ls rest, (seriesHead n ls).toList ++ rest = n.toList ++
        ((labelSet ls).toList ++ ' ' :: rest) := by
      intro n ls rest
      simp [seriesHead, space]
    rw [sampleText, String.append_assoc, String.toList_append, split, split] at same
    have set : ∀ ls rest, ∃ x r, isNameChar x = false ∧
        (labelSet ls).toList ++ ' ' :: rest = x :: r := by
      intro ls rest
      unfold labelSet
      split_ifs
      · exact ⟨' ', rest, by decide, rfl⟩
      · exact ⟨'{', _, by decide,
          by simp only [String.toList_append, opening, List.cons_append]; rfl⟩
    obtain ⟨x, r, xNot, nameTail⟩ := set labels tail
    obtain ⟨y, t, yNot, otherTail⟩ := set otherLabels
      (fmtFloat ryu value ++ timestampText ts).toList
    rw [nameTail, otherTail] at same
    obtain ⟨names, heads, tails⟩ := append_separator_inj namePlain otherPlain xNot yNot same
    refine ⟨(String.toList_injective names).symm, ?_⟩
    subst heads tails
    rw [← nameTail] at otherTail
    by_cases none : labels = []
    · by_cases otherNone : otherLabels = []
      · rw [none, otherNone]
      · rw [labelSet, labelSet, if_pos none, if_neg otherNone] at otherTail
        simp only [String.toList_append, opening, List.cons_append] at otherTail
        exact absurd (List.cons.inj otherTail).1 (by decide)
    · by_cases otherNone : otherLabels = []
      · rw [labelSet, labelSet, if_neg none, if_pos otherNone] at otherTail
        simp only [String.toList_append, opening, List.cons_append] at otherTail
        exact absurd (List.cons.inj otherTail).1 (by decide)
      · rw [labelSet, labelSet, if_neg none, if_neg otherNone] at otherTail
        simp only [String.toList_append, opening, closing, List.append_assoc, List.cons_append,
          List.nil_append] at otherTail
        exact (labelsText_inj otherLabelsPlain labelsPlain otherNone none
          (List.cons.inj otherTail).2).1
  · intro same
    obtain ⟨rfl, rfl⟩ := same
    refine ⟨(fmtFloat ryu value ++ timestampText ts).toList, ?_⟩
    simp [sampleText, String.append_assoc]

end Cadvisor
