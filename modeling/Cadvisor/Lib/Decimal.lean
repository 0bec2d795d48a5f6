import Cadvisor.Lib.Str
import Mathlib.Algebra.Field.Rat
import Mathlib.Algebra.GroupWithZero.Basic
import Mathlib.Data.List.DropRight
import Mathlib.Data.List.TakeWhile
import Mathlib.Tactic.Ring
import Mathlib.Tactic.NormNum

/-!
# Decimal texts

What a text of digits denotes, with an optional sign, point and exponent: one
rational number.  A point and an exponent shift the digits, and zeros behind the
digits shift them too.
-/

set_option autoImplicit false

namespace Decimal

def digits (cs : List Char) : Nat := Nat.ofDigitChars 10 cs 0

def exponent : List Char → Int
  | '-' :: cs => -(digits cs : Int)
  | '+' :: cs => digits cs
  | cs => digits cs

def magnitude (text : List Char) : ℚ :=
  let mantissa := text.takeWhile (· != 'e')
  let whole := mantissa.takeWhile (· != '.')
  let fraction := (mantissa.dropWhile (· != '.')).drop 1
  digits (whole ++ fraction) *
    10 ^ (exponent ((text.dropWhile (· != 'e')).drop 1) - fraction.length)

def value : List Char → ℚ
  | '-' :: rest => -magnitude rest
  | text => magnitude text

theorem digits_append (front back : List Char) :
    digits (front ++ back) = digits front * 10 ^ back.length + digits back := by
  rw [digits, Nat.ofDigitChars_append, Nat.ofDigitChars_eq_ofDigitChars_zero, Nat.mul_comm]
  rfl

theorem digits_zeros (n : Nat) : digits (List.replicate n '0') = 0 := by
  rw [digits, Nat.ofDigitChars_replicate_zero, Nat.mul_zero]

theorem digits_append_zeros (cs : List Char) (n : Nat) :
    digits (cs ++ List.replicate n '0') = digits cs * 10 ^ n := by
  rw [digits_append, digits_zeros, List.length_replicate, Nat.add_zero]

theorem digits_zeros_append (n : Nat) (cs : List Char) :
    digits (List.replicate n '0' ++ cs) = digits cs := by
  rw [digits_append, digits_zeros, Nat.zero_mul, Nat.zero_add]

theorem digits_toString (n : Nat) : digits (toString n).toList = n := by
  rw [Str.toString_nat_toList, digits, Nat.ofDigitChars_ten_toDigits]

theorem exponent_digits {cs : List Char} (all : ∀ c ∈ cs, c.isDigit = true) :
    exponent cs = digits cs := by
  unfold exponent
  split
  · exact absurd (all '-' (List.mem_cons_self ..)) (by decide)
  · exact absurd (all '+' (List.mem_cons_self ..)) (by decide)
  · rfl

theorem exponent_toString (n : Int) : exponent (toString n).toList = n := by
  cases n with
  | ofNat n =>
      have spelled : (toString (Int.ofNat n)).toList = (toString n).toList := rfl
      rw [spelled, exponent_digits (Str.digits_of_toString n), digits_toString]
      rfl
  | negSucc n =>
      rw [Str.toString_negSucc_toList, exponent, digits_toString]
      rfl

/-! ## A text by its parts -/

variable {whole fraction mantissa : List Char}

theorem takeWhile_all {p : Char → Bool} {cs : List Char} (all : ∀ c ∈ cs, p c = true) :
    cs.takeWhile p = cs ∧ cs.dropWhile p = [] :=
  ⟨List.takeWhile_eq_self_iff.mpr all, List.dropWhile_eq_nil_iff.mpr all⟩

theorem takeWhile_stop {p : Char → Bool} {front : List Char} {c : Char}
    (all : ∀ c ∈ front, p c = true) (stop : p c = false) (back : List Char) :
    (front ++ c :: back).takeWhile p = front ∧ (front ++ c :: back).dropWhile p = c :: back := by
  rw [List.takeWhile_append_of_pos all, List.dropWhile_append_of_pos all,
    List.takeWhile_cons_of_neg (by simp [stop]), List.dropWhile_cons_of_neg (by simp [stop]),
    List.append_nil]
  exact ⟨rfl, rfl⟩

theorem ne_of_notMem {c : Char} {cs : List Char} (absent : c ∉ cs) :
    ∀ d ∈ cs, (d != c) = true := by
  intro d member
  rw [bne_iff_ne]
  rintro rfl
  exact absent member

theorem magnitude_whole (noPoint : '.' ∉ whole) (noMark : 'e' ∉ whole) :
    magnitude whole = digits whole := by
  obtain ⟨mantissaIs, noExponent⟩ := takeWhile_all (ne_of_notMem noMark)
  obtain ⟨wholeIs, noFraction⟩ := takeWhile_all (ne_of_notMem noPoint)
  have zero : exponent [] = 0 := rfl
  simp only [magnitude, mantissaIs, noExponent, wholeIs, noFraction, List.drop_nil,
    List.append_nil, List.length_nil, zero]
  simp

theorem magnitude_point (noPoint : '.' ∉ whole) (noMark : 'e' ∉ whole ++ fraction) :
    magnitude (whole ++ '.' :: fraction) =
      digits (whole ++ fraction) * 10 ^ (-(fraction.length : Int)) := by
  have unmarked : 'e' ∉ whole ++ '.' :: fraction := by
    rw [List.mem_append, List.mem_cons]
    rw [List.mem_append] at noMark
    rintro (inWhole | isPoint | inFraction)
    · exact noMark (Or.inl inWhole)
    · exact absurd isPoint (by decide)
    · exact noMark (Or.inr inFraction)
  obtain ⟨mantissaIs, noExponent⟩ := takeWhile_all (ne_of_notMem unmarked)
  obtain ⟨wholeIs, fractionIs⟩ := takeWhile_stop (ne_of_notMem noPoint)
    (bne_self_eq_false '.') fraction
  have zero : exponent [] = 0 := rfl
  simp only [magnitude, mantissaIs, noExponent, wholeIs, fractionIs, List.drop_nil,
    List.drop_succ_cons, List.drop_zero, zero, Int.zero_sub]

theorem magnitude_exponent (noMark : 'e' ∉ mantissa) (power : List Char) :
    magnitude (mantissa ++ 'e' :: power) = magnitude mantissa * 10 ^ exponent power := by
  obtain ⟨mantissaIs, powerIs⟩ := takeWhile_stop (ne_of_notMem noMark)
    (bne_self_eq_false 'e') power
  obtain ⟨whole, none⟩ := takeWhile_all (ne_of_notMem noMark)
  have zero : exponent [] = 0 := rfl
  have ten : (10 : ℚ) ≠ 0 := by norm_num
  simp only [magnitude, mantissaIs, powerIs, whole, none, List.drop_nil, List.drop_succ_cons,
    List.drop_zero, zero]
  rw [mul_assoc, ← zpow_add₀ ten]
  congr 2
  ring

theorem value_digit {c : Char} (digit : c.isDigit = true) (rest : List Char) :
    value (c :: rest) = magnitude (c :: rest) := by
  unfold value
  split
  · rename_i same
    rw [(List.cons.inj same).1] at digit
    exact absurd digit (by decide)
  · rfl

/-! ## Padding and trimming -/

/-- Digits with zeros in front up to a width. -/
def padded (width n : Nat) : List Char := (toString n).toList.leftpad width '0'

theorem parseDigits_eq_digits {cs : List Char} (nonempty : cs ≠ [])
    (all : ∀ c ∈ cs, c.isDigit = true) : Str.parseDigits cs = some (digits cs) := by
  induction cs using List.reverseRecOn with
  | nil => exact absurd rfl nonempty
  | append_singleton front last ih =>
      obtain ⟨inFront, isLast⟩ := List.forall_mem_append.mp all
      have lastDigit : last.isDigit = true := isLast last (List.mem_singleton_self last)
      have value : Str.digitValue last = some (last.toNat - '0'.toNat) := by
        have range : 48 ≤ last.val ∧ last.val ≤ 57 := by simpa [Char.isDigit] using lastDigit
        exact if_pos range
      have before : (if front = [] then some 0 else Str.parseDigits front) =
          some (digits front) := by
        by_cases empty : front = []
        · rw [if_pos empty, empty]
          rfl
        · rw [if_neg empty]
          exact ih empty inFront
      rw [Str.parseDigits_concat, before, Option.bind_some, value, Option.map_some, digits, digits,
        Nat.ofDigitChars_append, Nat.ofDigitChars_cons, Nat.ofDigitChars_nil, Nat.mul_comm 10]

theorem parseSigned_digits {bound : Nat} {cs : List Char} (nonempty : cs ≠ [])
    (all : ∀ c ∈ cs, c.isDigit = true) (small : digits cs < bound) :
    Str.parseSigned bound (String.ofList cs) = some (digits cs : Int) := by
  unfold Str.parseSigned
  rw [String.toList_ofList]
  dsimp only
  split
  · exact absurd (all '-' (List.mem_cons_self ..)) (by decide)
  · exact absurd (all '+' (List.mem_cons_self ..)) (by decide)
  · rw [parseDigits_eq_digits nonempty all, Option.bind_some, if_pos]
    omega

theorem digits_padded (width n : Nat) : digits (padded width n) = n := by
  rw [padded, List.leftpad, digits_zeros_append, digits_toString]

theorem padded_isDigit (width n : Nat) : ∀ c ∈ padded width n, c.isDigit = true := by
  intro c member
  rw [padded, List.leftpad, List.mem_append] at member
  cases member with
  | inl zero =>
      rw [List.eq_of_mem_replicate zero]
      rfl
  | inr digit => exact Str.digits_of_toString n c digit

theorem length_padded {width n : Nat} (wide : 0 < width) (small : n < 10 ^ width) :
    (padded width n).length = width := by
  have fits : (toString n).toList.length ≤ width := by
    rw [Str.toString_nat_toList]
    exact (Nat.length_toDigits_le_iff (by decide) wide).mpr small
  rw [padded, List.leftpad, List.length_append, List.length_replicate]
  exact Nat.sub_add_cancel fits

theorem padded_ne_nil (width n : Nat) : padded width n ≠ [] := by
  intro empty
  rw [padded, List.leftpad, List.append_eq_nil_iff] at empty
  have digits := Str.toString_nat_toList n
  rw [empty.2] at digits
  exact Nat.toDigits_ne_nil digits.symm

theorem exists_trimmed (cs : List Char) :
    ∃ k, cs = (Str.trimEndMatches (String.ofList cs) '0').toList ++ List.replicate k '0' := by
  refine ⟨(cs.rtakeWhile (· == '0')).length, ?_⟩
  have zeros : List.replicate (cs.rtakeWhile (· == '0')).length '0' = cs.rtakeWhile (· == '0') := by
    rw [eq_comm, List.eq_replicate_iff]
    refine ⟨rfl, ?_⟩
    intro c member
    exact beq_iff_eq.mp (List.mem_rtakeWhile_imp (p := (· == '0')) member)
  rw [zeros, Str.trimEndMatches, String.toList_ofList, String.toList_ofList]
  exact List.rdropWhile_append_rtakeWhile.symm

end Decimal
