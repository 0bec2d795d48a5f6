import Mathlib.Data.List.Basic
import Mathlib.Data.List.Induction
import Mathlib.Data.List.TakeWhile
import Mathlib.Tactic.IntervalCases

/-!
# String operations with the meaning of Rust's `str`

A string is its list of characters.  Each operation follows the documented
behaviour of the method it is named after; separators are single characters.
-/

set_option autoImplicit false

namespace Str

def startsWith (s pre : String) : Bool := pre.toList.isPrefixOf s.toList

def endsWith (s suf : String) : Bool := suf.toList.isSuffixOf s.toList

def stripPrefix (s pre : String) : Option String :=
  if startsWith s pre then some (String.ofList (s.toList.drop pre.toList.length)) else none

def stripSuffix (s suf : String) : Option String :=
  if endsWith s suf then some (String.ofList (s.toList.take (s.toList.length - suf.toList.length)))
  else none

/-- `contains` of a text. -/
def contains (s part : String) : Bool := s.toList.tails.any fun rest => part.toList.isPrefixOf rest

def trimEndMatches (s : String) (c : Char) : String :=
  String.ofList ((s.toList.reverse.dropWhile (· == c)).reverse)

def trimStartMatches (s : String) (c : Char) : String :=
  String.ofList (s.toList.dropWhile (· == c))

/-- The parts between separators, one more than there are separators. -/
def split (s : String) (sep : Char) : List String :=
  (s.toList.splitOn sep).map String.ofList

/-- Everything in front of the first separator and everything behind it. -/
def splitOnce (s : String) (sep : Char) : Option (String × String) :=
  if sep ∈ s.toList then
    some (String.ofList (s.toList.takeWhile (· != sep)),
      String.ofList ((s.toList.dropWhile (· != sep)).drop 1))
  else none

/-- What stands behind the last `sep`. -/
def behindLast (s : String) (sep : Char) : Option String :=
  if sep ∈ s.toList then
    some (String.ofList (s.toList.reverse.takeWhile (· != sep)).reverse)
  else none

/-- What stands in front of the first place where `sep` is written, and behind it. -/
def cutAt (sep : List Char) : List Char → Option (List Char × List Char)
  | [] => if sep = [] then some ([], []) else none
  | c :: rest =>
      if sep.isPrefixOf (c :: rest) then some ([], (c :: rest).drop sep.length)
      else (cutAt sep rest).map fun parts => (c :: parts.1, parts.2)

/-- `split_once` at a text. -/
def splitOnceAt (s sep : String) : Option (String × String) :=
  (cutAt sep.toList s.toList).map fun parts => (String.ofList parts.1, String.ofList parts.2)

/-- `replacen` with a count of one. -/
def replaceFirst (s : String) (c : Char) (by' : String) : String :=
  match splitOnce s c with
  | none => s
  | some (front, back) => front ++ by' ++ back

def asciiLowercase (s : String) : String := String.ofList (s.toList.map Char.toLower)

def join (sep : String) (parts : List String) : String :=
  String.ofList (List.intercalate sep.toList (parts.map String.toList))

/-- Unicode's White_Space property. -/
def isWhitespace (c : Char) : Bool :=
  (9 ≤ c.val ∧ c.val ≤ 13) ∨ c.val = 0x20 ∨ c.val = 0x85 ∨ c.val = 0xA0 ∨ c.val = 0x1680 ∨
    (0x2000 ≤ c.val ∧ c.val ≤ 0x200A) ∨ c.val = 0x2028 ∨ c.val = 0x2029 ∨ c.val = 0x202F ∨
    c.val = 0x205F ∨ c.val = 0x3000

/-- `trim_matches`: strips both ends. -/
def trimMatches (s : String) (strip : Char → Bool) : String :=
  String.ofList (((s.toList.dropWhile strip).reverse.dropWhile strip).reverse)

def trim (s : String) : String := trimMatches s isWhitespace

/-- The maximal runs of characters that are not white space. -/
def splitWhitespace (s : String) : List String :=
  ((s.toList.splitOnP isWhitespace).filter (· ≠ [])).map String.ofList

/-- Drops one trailing carriage return, as `lines` does in front of a line feed. -/
def dropCarriageReturn (line : List Char) : List Char :=
  if line.getLast? = some '\r' then line.dropLast else line

/-- The text between line feeds; a final line feed ends the last line, and a
carriage return in front of a line feed goes with it. -/
def lines (s : String) : List String :=
  let parts := s.toList.splitOn '\n'
  let complete := parts.dropLast.map dropCarriageReturn
  let final := (parts.getLast?).getD []
  (if final = [] then complete else complete ++ [final]).map String.ofList

theorem splitOnce_eq_some_iff {s front back : String} {sep : Char} :
    splitOnce s sep = some (front, back) ↔
      s.toList = front.toList ++ sep :: back.toList ∧ sep ∉ front.toList := by
  constructor
  · intro parts
    unfold splitOnce at parts
    split_ifs at parts with member
    · cases parts
      rw [String.toList_ofList, String.toList_ofList]
      constructor
      · have behind : ∃ rest, s.toList.dropWhile (· != sep) = sep :: rest := by
          cases dropped : s.toList.dropWhile (· != sep) with
          | nil =>
              have all := List.dropWhile_eq_nil_iff.mp dropped sep member
              simp at all
          | cons c rest =>
              have stops := List.head?_dropWhile_not (· != sep) s.toList
              rw [dropped] at stops
              simp only [List.head?_cons, bne_eq_false_iff_eq] at stops
              exact ⟨rest, stops ▸ rfl⟩
        obtain ⟨rest, dropped⟩ := behind
        calc s.toList = s.toList.takeWhile (· != sep) ++ s.toList.dropWhile (· != sep) :=
              List.takeWhile_append_dropWhile.symm
          _ = _ := by rw [dropped, List.drop_one, List.tail_cons]
      · intro inFront
        have differs := List.mem_takeWhile_imp inFront
        simp at differs
  · rintro ⟨parts, absent⟩
    have differ : ∀ c ∈ front.toList, (c != sep) = true := by
      intro c member
      exact bne_iff_ne.mpr fun same => absent (same ▸ member)
    have member : sep ∈ s.toList := by
      rw [parts]
      exact List.mem_append_right _ (List.mem_cons_self ..)
    rw [splitOnce, if_pos member, parts, List.takeWhile_append_of_pos differ,
      List.dropWhile_append_of_pos differ, List.takeWhile_cons_of_neg (by simp),
      List.dropWhile_cons_of_neg (by simp), List.append_nil, List.drop_one, List.tail_cons,
      String.ofList_toList, String.ofList_toList]

theorem splitOn_terminated {sep : Char} {parts : List (List Char)}
    (plain : ∀ part ∈ parts, sep ∉ part) :
    (parts.flatMap fun part => part ++ [sep]).splitOn sep = parts ++ [[]] := by
  have joined : parts.flatMap (fun part => part ++ [sep]) =
      [sep].intercalate (parts ++ [[]]) := by
    clear plain
    induction parts with
    | nil => rfl
    | cons part rest ih =>
        rw [List.flatMap_cons, ih]
        cases rest <;> simp [List.intercalate]
  rw [joined]
  refine List.splitOn_intercalate _ (fun part member => ?_) (by simp)
  rcases List.mem_append.mp member with inParts | isLast
  · exact plain part inParts
  · rw [List.mem_singleton.mp isLast]
    exact List.not_mem_nil

theorem lines_terminated {parts : List (List Char)} (plain : ∀ part ∈ parts, '\n' ∉ part) :
    lines (String.ofList (parts.flatMap fun part => part ++ ['\n'])) =
      (parts.map dropCarriageReturn).map String.ofList := by
  rw [lines, String.toList_ofList, splitOn_terminated plain, List.dropLast_concat,
    List.getLast?_concat, Option.getD_some]
  simp

theorem trim_dropCarriageReturn (line : List Char) :
    trim (String.ofList (dropCarriageReturn line)) = trim (String.ofList line) := by
  unfold dropCarriageReturn
  split_ifs with ends
  · have parts : line = line.dropLast ++ ['\r'] := (List.dropLast_append_getLast? _ ends).symm
    have white : isWhitespace '\r' = true := by decide
    generalize line.dropLast = front at parts
    subst parts
    simp only [trim, trimMatches, String.toList_ofList, List.dropWhile_append]
    split_ifs with blank
    · rw [List.isEmpty_iff.mp blank]
      simp [white]
    · rw [List.reverse_append, List.reverse_singleton, List.singleton_append,
        List.dropWhile_cons_of_pos white]
  · rfl

/-- As far as trimmed text goes, the lines are what stands between line feeds. -/
theorem exists_lines_trim_iff {s token : String} (nonempty : token ≠ "") :
    (∃ line ∈ lines s, trim line = token) ↔ ∃ part ∈ split s '\n', trim part = token := by
  obtain ⟨front, final, parts⟩ : ∃ front final, s.toList.splitOn '\n' = front ++ [final] :=
    ⟨_, _, (List.dropLast_concat_getLast (List.splitOn_ne_nil '\n' s.toList)).symm⟩
  have blank : trim (String.ofList []) = "" := rfl
  have linesAre : lines s = ((if final = [] then front.map dropCarriageReturn
      else front.map dropCarriageReturn ++ [final]).map String.ofList) := by
    simp [lines, parts]
  have frontSame : (∃ line ∈ front.map dropCarriageReturn, trim (String.ofList line) = token) ↔
      ∃ line ∈ front, trim (String.ofList line) = token := by
    simp only [List.mem_map, exists_exists_and_eq_and, trim_dropCarriageReturn]
  rw [linesAre, split, parts]
  split_ifs with none
  · simp only [List.map_append, List.mem_append, List.map_singleton, List.mem_singleton,
      or_and_right, exists_or, exists_eq_left, none, blank]
    simp only [List.mem_map, exists_exists_and_eq_and] at frontSame ⊢
    rw [frontSame, or_iff_left nonempty.symm]
  · simp only [List.map_append, List.mem_append, List.map_singleton, List.mem_singleton,
      or_and_right, exists_or, exists_eq_left]
    simp only [List.mem_map, exists_exists_and_eq_and] at frontSame ⊢
    rw [frontSame]

def digitValue (c : Char) : Option Nat :=
  if '0' ≤ c ∧ c ≤ '9' then some (c.toNat - '0'.toNat) else none

def parseDigits : List Char → Option Nat
  | [] => none
  | digits => digits.foldl (fun acc c =>
      match acc, digitValue c with
      | some n, some d => some (n * 10 + d)
      | _, _ => none) (some 0)

/-- `str::parse` at an unsigned type: an optional plus sign, then digits, in range. -/
def parseUnsigned (bound : Nat) (s : String) : Option Nat :=
  let digits := match s.toList with
    | '+' :: rest => rest
    | all => all
  match parseDigits digits with
  | some n => if n < bound then some n else none
  | none => none

def parseU64 (s : String) : Option UInt64 :=
  (parseUnsigned (2 ^ 64) s).map UInt64.ofNat

/-- `str::parse` at a signed type: an optional sign, then digits, in range. -/
def parseSigned (bound : Nat) (s : String) : Option Int :=
  let inRange (n : Int) : Option Int := if -bound ≤ n ∧ n < bound then some n else none
  match s.toList with
  | '-' :: digits => (parseDigits digits).bind fun n => inRange (-n)
  | '+' :: digits => (parseDigits digits).bind fun n => inRange n
  | digits => (parseDigits digits).bind fun n => inRange n

theorem digitValue_digitChar {d : Nat} (digit : d < 10) : digitValue d.digitChar = some d := by
  interval_cases d <;> rfl

theorem parseDigits_concat (front : List Char) (c : Char) :
    parseDigits (front ++ [c]) =
      (if front = [] then some 0 else parseDigits front).bind fun n =>
        (digitValue c).map fun d => n * 10 + d := by
  cases front with
  | nil =>
      rw [if_pos rfl, Option.bind_some, List.nil_append, parseDigits]
      · rw [List.foldl_cons, List.foldl_nil]
        cases digitValue c <;> rfl
      · exact nofun
  | cons first rest =>
      rw [if_neg (List.cons_ne_nil first rest), parseDigits, parseDigits, List.foldl_append]
      · cases List.foldl _ (some 0) (first :: rest) with
        | none => rfl
        | some n =>
            rw [List.foldl_cons, List.foldl_nil]
            cases digitValue c <;> rfl
      · exact nofun
      · exact nofun

theorem parseDigits_toDigits (n : Nat) : parseDigits (Nat.toDigits 10 n) = some n := by
  induction n using Nat.strong_induction_on with
  | _ n ih =>
      have last : n % 10 < 10 := Nat.mod_lt n (by decide)
      by_cases small : n < 10
      · have alone := parseDigits_concat [] n.digitChar
        rw [Nat.toDigits_of_lt_base small, ← List.nil_append [_], alone, if_pos rfl,
          Option.bind_some, digitValue_digitChar small, Option.map_some, Nat.zero_mul, Nat.zero_add]
      · rw [Nat.toDigits_of_base_le (by decide) (by omega), parseDigits_concat,
          if_neg Nat.toDigits_ne_nil, ih (n / 10) (by omega), Option.bind_some,
          digitValue_digitChar last, Option.map_some, Option.some.injEq]
        omega

theorem toString_nat_toList (n : Nat) : (toString n).toList = Nat.toDigits 10 n := by simp

theorem toString_negSucc_toList (n : Nat) :
    (toString (Int.negSucc n)).toList = '-' :: (toString (n + 1)).toList := by
  have parts : toString (Int.negSucc n) = "-" ++ toString (n + 1) := rfl
  rw [parts, String.toList_append]
  rfl

theorem digits_of_toString (n : Nat) : ∀ c ∈ (toString n).toList, c.isDigit = true := by
  intro c member
  rw [toString_nat_toList] at member
  exact Nat.isDigit_of_mem_toDigits (b := 10) (by decide) (by decide) member

theorem notMem_toString_nat {c : Char} (notDigit : c.isDigit = false) (n : Nat) :
    c ∉ (toString n).toList := by
  intro member
  rw [digits_of_toString n c member] at notDigit
  cases notDigit

theorem notMem_toString_int {c : Char} (notDigit : c.isDigit = false) (notSign : c ≠ '-')
    (n : Int) : c ∉ (toString n).toList := by
  cases n with
  | ofNat n => exact notMem_toString_nat notDigit n
  | negSucc n =>
      rw [toString_negSucc_toList, List.mem_cons]
      rintro (sign | digit)
      · exact notSign sign
      · exact notMem_toString_nat notDigit _ digit

theorem parseDigits_toString (n : Nat) : parseDigits (toString n).toList = some n := by
  rw [toString_nat_toList, parseDigits_toDigits]

theorem parseUnsigned_nat (bound n : Nat) :
    parseUnsigned bound (toString n) = if n < bound then some n else none := by
  have noPlus : '+' ∉ (toString n).toList := notMem_toString_nat (by decide) n
  unfold parseUnsigned
  split
  · rename_i rest isPlus
    exact absurd (isPlus ▸ List.mem_cons_self ..) noPlus
  · simp only [parseDigits_toString]

theorem parseU64_toString (n : UInt64) : parseU64 (toString n.toNat) = some n := by
  rw [parseU64, parseUnsigned_nat, if_pos n.toNat_lt, Option.map_some, UInt64.ofNat_toNat]

theorem parseSigned_nat (bound n : Nat) :
    parseSigned bound (toString n) = if n < bound then some (n : Int) else none := by
  have noMinus : '-' ∉ (toString n).toList := notMem_toString_nat (by decide) n
  have noPlus : '+' ∉ (toString n).toList := notMem_toString_nat (by decide) n
  have inRange : (-(bound : Int) ≤ n ∧ (n : Int) < bound) ↔ n < bound := by omega
  unfold parseSigned
  dsimp only
  split
  · rename_i rest isMinus
    exact absurd (isMinus ▸ List.mem_cons_self ..) noMinus
  · rename_i rest isPlus
    exact absurd (isPlus ▸ List.mem_cons_self ..) noPlus
  · rw [parseDigits_toString, Option.bind_some]
    simp only [inRange]

theorem parseSigned_toString {bound : Nat} {n : Int} (low : -bound ≤ n) (high : n < bound) :
    parseSigned bound (toString n) = some n := by
  cases n with
  | ofNat m =>
      have spelled : toString (Int.ofNat m) = toString m := rfl
      have small : m < bound := Int.ofNat_lt.mp high
      rw [spelled, parseSigned_nat, if_pos small]
      rfl
  | negSucc m =>
      unfold parseSigned
      simp only [toString_negSucc_toList, parseDigits_toString, Option.bind_some]
      exact if_pos ⟨low, high⟩

theorem parseSigned_range {bound : Nat} {s : String} {n : Int}
    (parsed : parseSigned bound s = some n) : -bound ≤ n ∧ n < bound := by
  have checked : ∀ {found : Option Nat} {sign : Nat → Int},
      (found.bind fun m => if -bound ≤ sign m ∧ sign m < bound then some (sign m) else none) =
        some n → -bound ≤ n ∧ n < bound := by
    intro found sign isSome
    obtain ⟨m, _, inRange⟩ := Option.bind_eq_some_iff.mp isSome
    split at inRange
    · rename_i bounds
      cases inRange
      exact bounds
    · cases inRange
  unfold parseSigned at parsed
  dsimp only at parsed
  split at parsed
  · exact @checked _ (fun m => -m) parsed
  · exact @checked _ (fun m => m) parsed
  · exact @checked _ (fun m => m) parsed

theorem parseDigits_eq_none {cs : List Char} {c : Char} (member : c ∈ cs)
    (notDigit : digitValue c = none) : parseDigits cs = none := by
  induction cs using List.reverseRecOn with
  | nil => cases member
  | append_singleton front last ih =>
      rw [parseDigits_concat]
      rcases List.mem_append.mp member with inFront | isLast
      · rw [if_neg (List.ne_nil_of_mem inFront), ih inFront, Option.bind_none]
      · rw [← List.mem_singleton.mp isLast, notDigit]
        exact Option.bind_fun_none _
theorem parseSigned_eq_none {bound : Nat} {s : String} {c : Char} (member : c ∈ s.toList)
    (notDigit : digitValue c = none) (noSign : c ≠ '-' ∧ c ≠ '+') : parseSigned bound s = none := by
  unfold parseSigned
  dsimp only
  split
  · rename_i rest isMinus
    rw [isMinus, List.mem_cons] at member
    rw [parseDigits_eq_none (member.resolve_left noSign.1) notDigit, Option.bind_none]
  · rename_i rest isPlus
    rw [isPlus, List.mem_cons] at member
    rw [parseDigits_eq_none (member.resolve_left noSign.2) notDigit, Option.bind_none]
  · rw [parseDigits_eq_none member notDigit, Option.bind_none]

/-! ## UTF-8 -/

def utf8Bytes (s : String) : List UInt8 := s.toList.flatMap String.utf8EncodeChar

def isContinuation (b : UInt8) : Bool := 0x80 ≤ b ∧ b ≤ 0xBF

/-- Whether `b` may follow the lead byte of a three-byte sequence. -/
def secondOfThree (lead b : UInt8) : Bool :=
  if lead = 0xE0 then 0xA0 ≤ b ∧ b ≤ 0xBF
  else if lead = 0xED then 0x80 ≤ b ∧ b ≤ 0x9F
  else isContinuation b

def secondOfFour (lead b : UInt8) : Bool :=
  if lead = 0xF0 then 0x90 ≤ b ∧ b ≤ 0xBF
  else if lead = 0xF4 then 0x80 ≤ b ∧ b ≤ 0x8F
  else isContinuation b

def replacement : Char := Char.ofNat 0xFFFD

/-- The character that starts with `lead`, and how many of the following bytes
belong to it; a maximal ill-formed prefix counts as one replacement character. -/
def decodeLead (lead : UInt8) (rest : List UInt8) : Char × Nat :=
  if lead < 0x80 then (Char.ofNat lead.toNat, 0)
  else if 0xC2 ≤ lead ∧ lead ≤ 0xDF then
    match rest with
    | b :: _ =>
        if isContinuation b then (Char.ofNat (lead.toNat % 32 * 64 + b.toNat % 64), 1)
        else (replacement, 0)
    | [] => (replacement, 0)
  else if 0xE0 ≤ lead ∧ lead ≤ 0xEF then
    match rest with
    | b :: c :: _ =>
        if ¬ secondOfThree lead b then (replacement, 0)
        else if ¬ isContinuation c then (replacement, 1)
        else (Char.ofNat (lead.toNat % 16 * 4096 + b.toNat % 64 * 64 + c.toNat % 64), 2)
    | [b] => (replacement, if secondOfThree lead b then 1 else 0)
    | [] => (replacement, 0)
  else if 0xF0 ≤ lead ∧ lead ≤ 0xF4 then
    match rest with
    | b :: c :: d :: _ =>
        if ¬ secondOfFour lead b then (replacement, 0)
        else if ¬ isContinuation c then (replacement, 1)
        else if ¬ isContinuation d then (replacement, 2)
        else (Char.ofNat (lead.toNat % 8 * 262144 + b.toNat % 64 * 4096 + c.toNat % 64 * 64 +
          d.toNat % 64), 3)
    | [b, c] =>
        (replacement,
          if ¬ secondOfFour lead b then 0 else if ¬ isContinuation c then 1 else 2)
    | [b] => (replacement, if secondOfFour lead b then 1 else 0)
    | [] => (replacement, 0)
  else (replacement, 0)

def decodeLossy : Nat → List UInt8 → List Char
  | _, [] => []
  | 0, _ :: _ => []
  | fuel + 1, lead :: rest =>
      (decodeLead lead rest).1 :: decodeLossy fuel (rest.drop (decodeLead lead rest).2)

/-- `String::from_utf8_lossy`. -/
def fromUtf8Lossy (bytes : List UInt8) : String :=
  String.ofList (decodeLossy bytes.length bytes)

theorem utf8EncodeChar_ascii {c : Char} (ascii : c.toNat < 128) :
    String.utf8EncodeChar c = [UInt8.ofNat c.toNat] := by
  have below : c.val.toNat ≤ 127 := by
    have : c.toNat = c.val.toNat := rfl
    omega
  rw [String.utf8EncodeChar]
  simp only [below, if_true]
  rfl

theorem utf8Bytes_ascii {bytes : List UInt8} (ascii : ∀ b ∈ bytes, b < 128) :
    utf8Bytes (String.ofList (bytes.map fun b => Char.ofNat b.toNat)) = bytes := by
  rw [utf8Bytes, String.toList_ofList]
  induction bytes with
  | nil => rfl
  | cons b rest ih =>
      have small : b.toNat < 128 := UInt8.lt_iff_toNat_lt.mp (ascii b (List.mem_cons_self ..))
      have valid : b.toNat.isValidChar := Or.inl (by omega)
      have code : (Char.ofNat b.toNat).toNat = b.toNat := by
        rw [Char.ofNat, dif_pos valid]
        rfl
      rw [List.map_cons, List.flatMap_cons, utf8EncodeChar_ascii (code.symm ▸ small), code,
        ih fun b' member => ascii b' (List.mem_cons_of_mem _ member), UInt8.ofNat_toNat,
        List.singleton_append]

theorem utf8Bytes_injective {s t : String} (same : utf8Bytes s = utf8Bytes t) : s = t := by
  have bytes : s.toList.utf8Encode = t.toList.utf8Encode := congrArg List.toByteArray same
  rw [← String.toByteArray_inj]
  simpa using bytes

/-! ## Literals

A literal is `String.ofList` of its characters, so facts about it are decided on the
characters and its bytes are never looked at. -/

theorem ofList_lt {a b : List Char} (less : a < b) : String.ofList a < String.ofList b := by
  change (String.ofList a).toList < (String.ofList b).toList
  rw [String.toList_ofList, String.toList_ofList]
  exact less

theorem notMem_ofList {c : Char} {a : List Char} (differ : a.all (fun d => d != c) = true) :
    c ∉ (String.ofList a).toList := by
  rw [String.toList_ofList]
  intro member
  exact absurd (List.all_eq_true.mp differ c member) (by simp)

/-- The characters of a literal, found by unification. -/
def literal {s : String} {cs : List Char} (_ : s = String.ofList cs) : List Char := cs

theorem startsWith_literal {s : String} {p : List Char} (spelled : s = String.ofList p)
    (cs : List Char) :
    startsWith (String.ofList cs) s = true ↔ (literal spelled).isPrefixOf cs = true := by
  subst spelled
  rw [startsWith, String.toList_ofList, String.toList_ofList, literal]

theorem eq_literal {s : String} {p : List Char} (spelled : s = String.ofList p)
    (cs : List Char) : String.ofList cs = s ↔ cs = literal spelled := by
  subst spelled
  rw [String.ofList_inj, literal]

end Str
