import Cadvisor.Host.Parse
import Cadvisor.Lib.Fields
import Cadvisor.Lib.Regex

/-!
# The rows of `/proc/diskstats`

The filter for device names is a regular expression, compiled by hand: the first
prefix that fits is stripped, as many letters as there are are skipped, and what is
left must be digits.
-/

set_option autoImplicit false

namespace Cadvisor

open RegularExpression

/-- `[a-z]`. -/
def lowerCase : RegularExpression Char := Regex.oneOf (Regex.charRange 'a' 'z')

/-- `\d`, in ASCII. -/
def digit : RegularExpression Char := Regex.oneOf (Regex.charRange '0' '9')

/-- `^(s|v|xv)d[a-z]+\d*$|^dm-\d+$`. -/
def deviceNames : RegularExpression Char :=
  (Regex.word ['s'] + Regex.word ['v'] + Regex.word ['x', 'v']) *
      (char 'd' * (Regex.oneOrMore lowerCase * star digit)) +
    Regex.word ['d', 'm', '-'] * Regex.oneOrMore digit

def isDiskTail (rest : List Char) : Bool :=
  rest.takeWhile Parse.isAsciiLower ≠ [] ∧
    (rest.dropWhile Parse.isAsciiLower).all Parse.isAsciiDigit

theorem isAsciiDigit_iff (c : Char) :
    Parse.isAsciiDigit c = true ↔ c ∈ Regex.charRange '0' '9' := by
  rw [Regex.mem_charRange (by decide), Parse.isAsciiDigit, decide_eq_true_eq]

theorem isAsciiLower_iff (c : Char) :
    Parse.isAsciiLower c = true ↔ c ∈ Regex.charRange 'a' 'z' := by
  rw [Regex.mem_charRange (by decide), Parse.isAsciiLower, decide_eq_true_eq]

theorem mem_diskTail {rest : List Char} :
    rest ∈ (Regex.oneOrMore lowerCase * star digit).matches' ↔ isDiskTail rest = true := by
  rw [isDiskTail, decide_eq_true_eq]
  exact Regex.mem_greedy isAsciiLower_iff isAsciiDigit_iff

theorem mem_digits {rest : List Char} :
    rest ∈ (Regex.oneOrMore digit).matches' ↔ rest ≠ [] ∧ rest.all Parse.isAsciiDigit = true := by
  simp only [digit, Regex.mem_oneOrMore_oneOf, List.all_eq_true, isAsciiDigit_iff]

theorem mem_deviceNames {name : List Char} :
    name ∈ deviceNames.matches' ↔
      (∃ rest, name = ['s', 'd'] ++ rest ∧ isDiskTail rest = true) ∨
      (∃ rest, name = ['v', 'd'] ++ rest ∧ isDiskTail rest = true) ∨
      (∃ rest, name = ['x', 'v', 'd'] ++ rest ∧ isDiskTail rest = true) ∨
      ∃ rest, name = ['d', 'm', '-'] ++ rest ∧ rest ≠ [] ∧
        rest.all Parse.isAsciiDigit = true := by
  have disk (front : List Char) :
      name ∈ (Regex.word front *
          (char 'd' * (Regex.oneOrMore lowerCase * star digit))).matches' ↔
        ∃ rest, name = (front ++ ['d']) ++ rest ∧ isDiskTail rest = true := by
    rw [Regex.mem_word_mul]
    constructor
    · rintro ⟨_, inside, rfl⟩
      obtain ⟨rest, tail, rfl⟩ := Regex.mem_char_mul.mp inside
      exact ⟨rest, by simp, mem_diskTail.mp tail⟩
    · rintro ⟨rest, rfl, tail⟩
      exact ⟨'d' :: rest, Regex.mem_char_mul.mpr ⟨rest, mem_diskTail.mpr tail, rfl⟩, by simp⟩
  have mapper : name ∈ (Regex.word ['d', 'm', '-'] * Regex.oneOrMore digit).matches' ↔
      ∃ rest, name = ['d', 'm', '-'] ++ rest ∧ rest ≠ [] ∧
        rest.all Parse.isAsciiDigit = true := by
    rw [Regex.mem_word_mul]
    simp only [mem_digits, and_comm]
  have sum : deviceNames.matches' =
      (Regex.word ['s'] * (char 'd' * (Regex.oneOrMore lowerCase * star digit))).matches' +
      (Regex.word ['v'] * (char 'd' * (Regex.oneOrMore lowerCase * star digit))).matches' +
      (Regex.word ['x', 'v'] * (char 'd' * (Regex.oneOrMore lowerCase * star digit))).matches' +
      (Regex.word ['d', 'm', '-'] * Regex.oneOrMore digit).matches' := by
    simp only [deviceNames, matches'_add, matches'_mul, add_mul]
  rw [sum, Language.mem_add, Language.mem_add, Language.mem_add, disk, disk, disk, mapper,
    or_assoc, or_assoc]
  rfl

theorem exists_behind_iff {name pre : String} {p : List Char → Prop} :
    (∃ rest, name.toList = pre.toList ++ rest ∧ p rest) ↔
      ∃ rest, Str.stripPrefix name pre = some rest ∧ p rest.toList := by
  simp only [Str.stripPrefix_eq_some_iff]
  constructor
  · rintro ⟨rest, parts, holds⟩
    exact ⟨String.ofList rest, by rw [String.toList_ofList]; exact parts,
      by rw [String.toList_ofList]; exact holds⟩
  · rintro ⟨rest, parts, holds⟩
    exact ⟨rest.toList, parts, holds⟩

theorem head?_of_stripPrefix {name pre rest : String} {c : Char}
    (starts : pre.toList.head? = some c) (stripped : Str.stripPrefix name pre = some rest) :
    name.toList.head? = some c := by
  rw [Str.stripPrefix_eq_some_iff.mp stripped, List.head?_append_of_ne_nil]
  · exact starts
  · intro empty
    rw [empty] at starts
    cases starts

theorem stripPrefix_eq_none {name pre rest : String} {c : Char}
    (starts : pre.toList.head? = some c) (stripped : Str.stripPrefix name pre = some rest)
    {other : String} {d : Char} (otherStarts : other.toList.head? = some d) (differ : c ≠ d) :
    Str.stripPrefix name other = none := by
  by_contra found
  obtain ⟨rest', stripped'⟩ := Option.ne_none_iff_exists'.mp found
  have first := head?_of_stripPrefix starts stripped
  rw [head?_of_stripPrefix otherStarts stripped'] at first
  exact differ (Option.some.inj first).symm

theorem diskstatsDeviceMatches_iff (name : String) :
    Parse.diskstatsDeviceMatches name = true ↔ name.toList ∈ deviceNames.matches' := by
  have sd := @exists_behind_iff name "sd" (fun rest => isDiskTail rest = true)
  have vd := @exists_behind_iff name "vd" (fun rest => isDiskTail rest = true)
  have xvd := @exists_behind_iff name "xvd" (fun rest => isDiskTail rest = true)
  have dm := @exists_behind_iff name "dm-" fun rest =>
    rest ≠ [] ∧ rest.all Parse.isAsciiDigit = true
  have tail (rest : String) : decide (rest.toList.takeWhile Parse.isAsciiLower ≠ [] ∧
      (rest.toList.dropWhile Parse.isAsciiLower).all Parse.isAsciiDigit = true) =
        isDiskTail rest.toList := rfl
  rw [mem_deviceNames]
  refine Iff.trans ?_ (or_congr sd (or_congr vd (or_congr xvd dm))).symm
  unfold Parse.diskstatsDeviceMatches
  simp only [tail]
  cases dmIs : Str.stripPrefix name "dm-" with
  | some rest =>
      have noSd : Str.stripPrefix name "sd" = none :=
        stripPrefix_eq_none rfl dmIs rfl (by decide)
      have noVd : Str.stripPrefix name "vd" = none :=
        stripPrefix_eq_none rfl dmIs rfl (by decide)
      have noXvd : Str.stripPrefix name "xvd" = none :=
        stripPrefix_eq_none rfl dmIs rfl (by decide)
      simp [noSd, noVd, noXvd]
  | none =>
      cases sdIs : Str.stripPrefix name "sd" with
      | some rest =>
          have noVd : Str.stripPrefix name "vd" = none :=
            stripPrefix_eq_none rfl sdIs rfl (by decide)
          have noXvd : Str.stripPrefix name "xvd" = none :=
            stripPrefix_eq_none rfl sdIs rfl (by decide)
          simp [noVd, noXvd]
      | none =>
          cases vdIs : Str.stripPrefix name "vd" with
          | some rest =>
              have noXvd : Str.stripPrefix name "xvd" = none :=
                stripPrefix_eq_none rfl vdIs rfl (by decide)
              simp [noXvd]
          | none => cases Str.stripPrefix name "xvd" <;> simp

/-! ## The rows that are kept -/

def diskRow (fields : List String) : Parse.DiskStatsLine :=
  let column (i : Nat) : UInt64 := Parse.u64Field (fields.getD i "")
  { major := column 0
    minor := column 1
    name := fields.getD 2 ""
    readsCompleted := column 3
    readsMerged := column 4
    sectorsRead := column 5
    readTime := column 6
    writesCompleted := column 7
    writesMerged := column 8
    sectorsWritten := column 9
    writeTime := column 10
    ioInProgress := column 11
    ioTime := column 12
    weightedIoTime := column 13 }

/-- At least 14 fields, the third of them the name of a disk. -/
def IsDiskRow (fields : List String) : Prop :=
  14 ≤ fields.length ∧ (fields.getD 2 "").toList ∈ deviceNames.matches'

instance : DecidablePred IsDiskRow := fun fields =>
  inferInstanceAs (Decidable (14 ≤ fields.length ∧
    (fields.getD 2 "").toList ∈ deviceNames.matches'))

theorem exists_columns {fields : List String} (enough : 14 ≤ fields.length) :
    ∃ a b c d e f g h i j k l m n rest,
      fields = a :: b :: c :: d :: e :: f :: g :: h :: i :: j :: k :: l :: m :: n :: rest := by
  rcases fields with _ | ⟨a, _ | ⟨b, _ | ⟨c, _ | ⟨d, _ | ⟨e,
    _ | ⟨f, _ | ⟨g, _ | ⟨h, _ | ⟨i, _ | ⟨j, _ | ⟨k,
    _ | ⟨l, _ | ⟨m, _ | ⟨n, rest⟩⟩⟩⟩⟩⟩⟩⟩⟩⟩⟩⟩⟩⟩
  all_goals first
    | exact ⟨a, b, c, d, e, f, g, h, i, j, k, l, m, n, rest, rfl⟩
    | exact absurd enough (by simp)

theorem diskstatsLine_eq (line : String) :
    Parse.diskstatsLine line =
      if IsDiskRow (Str.splitWhitespace line) then
        some (diskRow (Str.splitWhitespace line))
      else none := by
  unfold Parse.diskstatsLine
  split
  · rename_i name _ _ _ _ _ _ _ _ _ _ _ _ fields
    have listed : IsDiskRow (Str.splitWhitespace line) ↔
        Parse.diskstatsDeviceMatches name = true := by
      rw [fields, diskstatsDeviceMatches_iff]
      exact and_iff_right (by simp)
    by_cases passes : Parse.diskstatsDeviceMatches name = true
    · rw [if_neg (not_not.mpr passes), if_pos (listed.mpr passes), fields]
      rfl
    · rw [if_pos passes, if_neg (mt listed.mp passes)]
  · rename_i few
    rw [if_neg]
    rintro ⟨enough, _⟩
    obtain ⟨a, b, c, d, e, f, g, h, i, j, k, l, m, n, rest, fields⟩ := exists_columns enough
    exact few a b c d e f g h i j k l m n rest fields

/-- The filter is the regular expression, and the rows are those of the lines that pass
it, in order. -/
theorem diskstats_rows :
    (∀ name : String,
      Parse.diskstatsDeviceMatches name = true ↔ name.toList ∈ deviceNames.matches') ∧
    ∀ content : String, Parse.diskstats content =
      (((Str.lines content).map Str.splitWhitespace).filter fun fields => IsDiskRow fields).map
        diskRow := by
  refine ⟨diskstatsDeviceMatches_iff, fun content => ?_⟩
  have each : Parse.diskstatsLine = (fun fields => if IsDiskRow fields then some (diskRow fields)
      else none) ∘ Str.splitWhitespace := funext diskstatsLine_eq
  rw [Parse.diskstats, each, ← List.filterMap_map, Str.filterMap_ite]

end Cadvisor
