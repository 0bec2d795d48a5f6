import Cadvisor.Lib.Decimal
import Cadvisor.Metrics.Encode
import Mathlib.Data.List.Induction

/-!
# Shortest digits, laid out again

A float has one shortest form: a sign, digits and the place of the point.  What
`ryu` writes of it, plain or scientific, is cut back to that form and laid out as Go
does, and denotes the same number.
-/

set_option autoImplicit false

namespace Cadvisor

/-- A sign, digits without zeros at either end, and the power of ten of the first of
them.  The power of a double is an `i32`. -/
structure ShortForm where
  negative : Bool
  first : Char
  rest : List Char
  exponent : Int
  decimal : ∀ c ∈ first :: rest, c.isDigit = true
  firstNonzero : first ≠ '0'
  lastNonzero : ∀ c, (first :: rest).getLast? = some c → c ≠ '0'
  bounded : -2 ^ 31 ≤ exponent ∧ exponent < 2 ^ 31

namespace ShortForm

def digits (s : ShortForm) : List Char := s.first :: s.rest

/-- Plain: what stands in front of the point. -/
def whole (s : ShortForm) : List Char :=
  if 0 ≤ s.exponent then
    (s.digits ++ List.replicate (s.exponent.toNat + 1 - s.digits.length) '0').take
      (s.exponent.toNat + 1)
  else ['0']

/-- Plain: what stands behind the point. -/
def fraction (s : ShortForm) : List Char :=
  if 0 ≤ s.exponent then s.digits.drop (s.exponent.toNat + 1)
  else List.replicate (-s.exponent - 1).toNat '0' ++ s.digits

/-- Scientific: what stands in front of the mark. -/
def mantissa (s : ShortForm) : List Char :=
  s.first :: if s.rest = [] then [] else '.' :: s.rest

def ryuPlain (s : ShortForm) : List Char :=
  s.whole ++ '.' :: if s.fraction = [] then ['0'] else s.fraction

def ryuScientific (s : ShortForm) : List Char :=
  s.mantissa ++ 'e' :: (toString s.exponent).toList

/-- Without a fraction there is no point. -/
def goPlain (s : ShortForm) : List Char :=
  s.whole ++ if s.fraction = [] then [] else '.' :: s.fraction

/-- The exponent has a sign and two digits at least. -/
def goScientific (s : ShortForm) : List Char :=
  s.mantissa ++ 'e' :: (if 0 ≤ s.exponent then '+' else '-') ::
    ((if s.exponent.natAbs < 10 then ['0'] else []) ++ (toString s.exponent.natAbs).toList)

def signed (s : ShortForm) (text : List Char) : List Char :=
  if s.negative then '-' :: text else text

/-- The `g` format with the shortest precision. -/
def goText (s : ShortForm) : List Char :=
  s.signed (if s.exponent < -4 ∨ 6 ≤ s.exponent then s.goScientific else s.goPlain)

def value (s : ShortForm) : ℚ :=
  (if s.negative then -1 else 1) *
    (Decimal.digits s.digits * 10 ^ (s.exponent - s.rest.length))

/-- The layouts of `ryu`. -/
def RyuText (s : ShortForm) (text : List Char) : Prop :=
  text = s.signed s.ryuPlain ∨ text = s.signed s.ryuScientific

end ShortForm

/-! ## Zeros at the ends -/

theorem trimEndZeros_of_last {cs : List Char} (last : ∀ c, cs.getLast? = some c → c ≠ '0') :
    trimEndZeros cs = cs := by
  cases cs using List.reverseRecOn with
  | nil => rfl
  | append_singleton front c =>
      have notZero : c ≠ '0' := last c List.getLast?_concat
      rw [trimEndZeros, List.reverse_concat, List.dropWhile_cons_of_neg (by simpa using notZero),
        List.reverse_cons, List.reverse_reverse]

theorem beq_of_mem_zeros (n : Nat) : ∀ c ∈ List.replicate n '0', (c == '0') = true := by
  intro c member
  rw [List.eq_of_mem_replicate member]
  rfl

theorem trimEndZeros_append_zeros (cs : List Char) (n : Nat) :
    trimEndZeros (cs ++ List.replicate n '0') = trimEndZeros cs := by
  rw [trimEndZeros, trimEndZeros, List.reverse_append, List.reverse_replicate,
    List.dropWhile_append_of_pos (beq_of_mem_zeros n)]

theorem dropWhile_zeros (n : Nat) {c : Char} (notZero : c ≠ '0') (rest : List Char) :
    (List.replicate n '0' ++ c :: rest).dropWhile (· == '0') = c :: rest := by
  rw [List.dropWhile_append_of_pos (beq_of_mem_zeros n),
    List.dropWhile_cons_of_neg (by simpa using notZero)]

/-! ## What is cut out of a text -/

theorem parseI32_toString {n : Int} (bounded : -2 ^ 31 ≤ n ∧ n < 2 ^ 31) :
    parseI32 (toString n).toList = some n := by
  have parsed : Str.parseSigned (2 ^ 31) (toString n) = some n :=
    Str.parseSigned_toString bounded.1 bounded.2
  exact parsed

theorem notMem_digits {cs : List Char} (digits : ∀ c ∈ cs, c.isDigit = true) {c : Char}
    (notDigit : c.isDigit = false) : c ∉ cs := by
  intro member
  rw [digits c member] at notDigit
  cases notDigit

theorem point_notMem {cs : List Char} (digits : ∀ c ∈ cs, c.isDigit = true) : '.' ∉ cs :=
  notMem_digits digits (by decide)

theorem mark_notMem {cs : List Char} (digits : ∀ c ∈ cs, c.isDigit = true) : 'e' ∉ cs :=
  notMem_digits digits (by decide)

theorem unmarked_digits {cs : List Char} (digits : ∀ c ∈ cs, c.isDigit = true) :
    ∀ c ∈ cs, isExponentMark c = false := by
  intro c member
  have isMark : ¬ (c = 'e' ∨ c = 'E') := by
    rintro (rfl | rfl)
    · exact mark_notMem digits member
    · exact notMem_digits digits (by decide) member
  exact decide_eq_false isMark

theorem significant_plain {whole fraction : List Char} (wholeDigits : ∀ c ∈ whole, c.isDigit = true)
    (fractionDigits : ∀ c ∈ fraction, c.isDigit = true) :
    significant (whole ++ '.' :: fraction) =
      if whole = ['0'] then
        ((trimEndZeros fraction).dropWhile (· == '0'),
          -(((trimEndZeros fraction).length -
            ((trimEndZeros fraction).dropWhile (· == '0')).length : Nat) : Int) - 1)
      else (whole ++ trimEndZeros fraction, (whole.length : Int) - 1) := by
  have noPoint := point_notMem wholeDigits
  have unmarked : ∀ c ∈ whole ++ '.' :: fraction, (! isExponentMark c) = true := by
    intro c member
    rcases List.mem_append.mp member with inWhole | behind
    · rw [unmarked_digits wholeDigits c inWhole]
      rfl
    · rcases List.mem_cons.mp behind with rfl | inFraction
      · rfl
      · rw [unmarked_digits fractionDigits c inFraction]
        rfl
  have noMark : (whole ++ '.' :: fraction).any isExponentMark = false := by
    rw [List.any_eq_false]
    intro c member
    simpa using unmarked c member
  have mantissaIs := (Decimal.takeWhile_all unmarked).1
  obtain ⟨wholeIs, fractionIs⟩ := Decimal.takeWhile_stop
    (Decimal.ne_of_notMem noPoint) (bne_self_eq_false '.') fraction
  unfold significant
  simp only [Bool.not_eq_true, Bool.decide_eq_false, mantissaIs, noMark, wholeIs, fractionIs,
    List.drop_succ_cons, List.drop_zero]
  rfl

theorem significant_scientific {first : Char} {rest power : List Char}
    (digits : ∀ c ∈ first :: rest, c.isDigit = true) :
    significant ((first :: if rest = [] then [] else '.' :: rest) ++ 'e' :: power) =
      (first :: trimEndZeros rest, (parseI32 power).getD 0) := by
  obtain ⟨firstDigit, restDigits⟩ := List.forall_mem_cons.mp digits
  have single : ∀ c ∈ [first], c.isDigit = true := List.forall_mem_singleton.mpr firstDigit
  have noPoint := point_notMem single
  generalize mantissaIs : (first :: if rest = [] then [] else '.' :: rest) = mantissa
  have unmarked : ∀ c ∈ mantissa, (! isExponentMark c) = true := by
    have isMember : ∀ c ∈ mantissa, c ∈ first :: rest ∨ c = '.' := by
      intro c member
      rw [← mantissaIs] at member
      rcases List.mem_cons.mp member with rfl | behind
      · exact Or.inl (List.mem_cons_self ..)
      · split_ifs at behind with isSingle
        · exact absurd behind List.not_mem_nil
        · rcases List.mem_cons.mp behind with isPoint | inRest
          · exact Or.inr isPoint
          · exact Or.inl (List.mem_cons_of_mem _ inRest)
    intro c member
    rcases isMember c member with isDigit | rfl
    · rw [unmarked_digits digits c isDigit]
      rfl
    · rfl
  have marked : (mantissa ++ 'e' :: power).any isExponentMark = true :=
    List.any_eq_true.mpr ⟨'e', List.mem_append_right _ (List.mem_cons_self ..), rfl⟩
  obtain ⟨frontIs, powerIs⟩ := Decimal.takeWhile_stop (p := fun c => ! isExponentMark c)
    (c := 'e') unmarked rfl power
  have parts : mantissa.takeWhile (· != '.') = [first] ∧
      (mantissa.dropWhile (· != '.')).drop 1 = rest := by
    rw [← mantissaIs]
    by_cases isSingle : rest = []
    · subst isSingle
      obtain ⟨wholeIs, fractionIs⟩ := Decimal.takeWhile_all (Decimal.ne_of_notMem noPoint)
      rw [if_pos rfl, wholeIs, fractionIs]
      exact ⟨rfl, rfl⟩
    · obtain ⟨wholeIs, fractionIs⟩ := Decimal.takeWhile_stop
        (Decimal.ne_of_notMem noPoint) (bne_self_eq_false '.') rest
      rw [List.singleton_append] at wholeIs fractionIs
      rw [if_neg isSingle, wholeIs, fractionIs]
      exact ⟨rfl, rfl⟩
  unfold significant
  simp only [Bool.not_eq_true, Bool.decide_eq_false, frontIs, powerIs, marked, parts.1, parts.2,
    List.drop_succ_cons, List.drop_zero, if_true, List.singleton_append]

/-! ## Cut and laid out -/

namespace ShortForm

variable (s : ShortForm)

theorem length_digits : s.digits.length = s.rest.length + 1 := rfl

theorem parts :
    (s.exponent < 0 ∧ s.whole = ['0'] ∧
      s.fraction = List.replicate (-s.exponent - 1).toNat '0' ++ s.digits) ∨
    (∃ n : Nat, s.exponent = n ∧ n + 1 < s.digits.length ∧ s.whole = s.digits.take (n + 1) ∧
      s.fraction = s.digits.drop (n + 1)) ∨
    ∃ n : Nat, s.exponent = n ∧ s.digits.length ≤ n + 1 ∧
      s.whole = s.digits ++ List.replicate (n + 1 - s.digits.length) '0' ∧ s.fraction = [] := by
  by_cases below : s.exponent < 0
  · refine Or.inl ⟨below, ?_, ?_⟩
    · rw [whole, if_neg (by omega)]
    · rw [fraction, if_neg (by omega)]
  · obtain ⟨n, isNat⟩ := Int.eq_ofNat_of_zero_le (Int.not_lt.mp below)
    have toNat : s.exponent.toNat = n := by omega
    have wholeIs : s.whole =
        (s.digits ++ List.replicate (n + 1 - s.digits.length) '0').take (n + 1) := by
      rw [whole, if_pos (by omega), toNat]
    have fractionIs : s.fraction = s.digits.drop (n + 1) := by
      rw [fraction, if_pos (by omega), toNat]
    by_cases inside : n + 1 < s.digits.length
    · refine Or.inr (Or.inl ⟨n, isNat, inside, ?_, fractionIs⟩)
      rw [wholeIs, List.take_append_of_le_length inside.le]
    · refine Or.inr (Or.inr ⟨n, isNat, by omega, ?_, ?_⟩)
      · rw [wholeIs, List.take_of_length_le]
        rw [List.length_append, List.length_replicate]
        omega
      · rw [fractionIs, List.drop_eq_nil_of_le (by omega)]

theorem parts_digits :
    (∀ c ∈ s.whole, c.isDigit = true) ∧ ∀ c ∈ s.fraction, c.isDigit = true := by
  have zeros : ∀ n, ∀ c ∈ List.replicate n '0', c.isDigit = true := by
    intro n c member
    rw [List.eq_of_mem_replicate member]
    rfl
  rcases s.parts with ⟨_, wholeIs, fractionIs⟩ | ⟨n, _, _, wholeIs, fractionIs⟩ |
    ⟨n, _, _, wholeIs, fractionIs⟩
  · rw [wholeIs, fractionIs, List.forall_mem_append]
    exact ⟨zeros 1, zeros _, s.decimal⟩
  · rw [wholeIs, fractionIs]
    exact ⟨fun c member => s.decimal c (List.mem_of_mem_take member),
      fun c member => s.decimal c (List.mem_of_mem_drop member)⟩
  · rw [wholeIs, fractionIs, List.forall_mem_append]
    exact ⟨⟨s.decimal, zeros _⟩, fun c member => absurd member List.not_mem_nil⟩

theorem trimEndZeros_digits : trimEndZeros s.digits = s.digits :=
  trimEndZeros_of_last s.lastNonzero

theorem trimEndZeros_fraction :
    trimEndZeros (if s.fraction = [] then ['0'] else s.fraction) = s.fraction := by
  have last : ∀ c, s.fraction.getLast? = some c → c ≠ '0' := by
    intro c isLast
    apply s.lastNonzero c
    rcases s.parts with ⟨_, _, fractionIs⟩ | ⟨n, _, inside, _, fractionIs⟩ |
      ⟨_, _, _, _, fractionIs⟩
    · rw [fractionIs, List.getLast?_append, digits, List.getLast?_cons] at isLast
      rw [List.getLast?_cons]
      exact isLast
    · rw [fractionIs, List.getLast?_drop, if_neg (by omega)] at isLast
      exact isLast
    · rw [fractionIs] at isLast
      cases isLast
  by_cases none : s.fraction = []
  · rw [if_pos none, none]
    rfl
  · rw [if_neg none]
    exact trimEndZeros_of_last last

theorem significant_ryuPlain :
    ∃ n, significant s.ryuPlain = (s.digits ++ List.replicate n '0', s.exponent) := by
  obtain ⟨wholeDigits, fractionDigits⟩ := s.parts_digits
  have written : ∀ c ∈ (if s.fraction = [] then ['0'] else s.fraction), c.isDigit = true := by
    split_ifs
    · exact List.forall_mem_singleton.mpr rfl
    · exact fractionDigits
  rw [ryuPlain, significant_plain wholeDigits written, s.trimEndZeros_fraction]
  -- A number from one on does not start with a zero.
  have starts : ∀ rest, s.digits.take 1 ++ rest ≠ ['0'] := by
    intro rest isZero
    exact s.firstNonzero (List.cons.inj isZero).1
  rcases s.parts with ⟨below, wholeIs, fractionIs⟩ | ⟨n, isNat, inside, wholeIs, fractionIs⟩ |
    ⟨n, isNat, outside, wholeIs, fractionIs⟩
  · refine ⟨0, ?_⟩
    rw [if_pos wholeIs, fractionIs]
    have dropped := dropWhile_zeros (-s.exponent - 1).toNat s.firstNonzero s.rest
    rw [digits, dropped, List.length_append, List.length_replicate, Nat.add_sub_cancel,
      List.replicate_zero, List.append_nil, Prod.mk.injEq]
    exact ⟨rfl, by omega⟩
  · refine ⟨0, ?_⟩
    rw [if_neg (by rw [wholeIs, digits, List.take_succ_cons]; exact starts _), wholeIs, fractionIs,
      List.take_append_drop, List.length_take, List.replicate_zero, List.append_nil, Prod.mk.injEq]
    exact ⟨rfl, by omega⟩
  · refine ⟨n + 1 - s.digits.length, ?_⟩
    rw [if_neg (by rw [wholeIs]; exact starts _), wholeIs, fractionIs, List.append_nil,
      List.length_append, List.length_replicate, Prod.mk.injEq]
    exact ⟨rfl, by omega⟩

theorem significant_ryuScientific : significant s.ryuScientific = (s.digits, s.exponent) := by
  have rest : trimEndZeros s.rest = s.rest := by
    apply trimEndZeros_of_last
    intro c isLast
    apply s.lastNonzero c
    rw [List.getLast?_cons, isLast]
    rfl
  rw [ryuScientific, mantissa, significant_scientific s.decimal, rest,
    parseI32_toString s.bounded, Option.getD_some, digits]

theorem reshape_of_significant {text : List Char} {n : Nat}
    (cut : significant text = (s.digits ++ List.replicate n '0', s.exponent)) :
    reshape text = layoutDigits s.digits s.exponent := by
  have notZero : ¬ (s.digits = [] ∨ s.digits = ['0']) := by
    rintro (empty | zero)
    · exact absurd empty (List.cons_ne_nil _ _)
    · exact s.firstNonzero (List.cons.inj zero).1
  unfold reshape
  rw [cut]
  dsimp only
  rw [trimEndZeros_append_zeros, s.trimEndZeros_digits, if_neg notZero]

theorem layoutDigits_eq :
    layoutDigits s.digits s.exponent =
      if s.exponent < -4 ∨ 6 ≤ s.exponent then s.goScientific else s.goPlain := by
  have length := s.length_digits
  unfold layoutDigits
  by_cases far : s.exponent < -4 ∨ 6 ≤ s.exponent
  · rw [if_pos far, if_pos far, goScientific, mantissa]
    have more : 1 < s.digits.length ↔ s.rest ≠ [] := by
      rw [length, ← List.length_pos_iff]
      omega
    by_cases single : s.rest = []
    · rw [if_neg (by simpa [more] using single), if_pos single, List.append_nil]
      rfl
    · rw [if_pos (more.mpr single), if_neg single]
      rfl
  · rw [if_neg far, if_neg far, goPlain]
    rcases s.parts with ⟨below, wholeIs, fractionIs⟩ | ⟨n, isNat, inside, wholeIs, fractionIs⟩ |
      ⟨n, isNat, outside, wholeIs, fractionIs⟩
    · have fraction : s.fraction ≠ [] := by
        rw [fractionIs]
        exact List.append_ne_nil_of_right_ne_nil _ (List.cons_ne_nil _ _)
      rw [if_neg (by omega), if_neg (by omega), if_neg fraction, wholeIs, fractionIs]
      rfl
    · have fraction : s.fraction ≠ [] := by
        intro none
        rw [fractionIs, List.drop_eq_nil_iff] at none
        omega
      have toNat : s.exponent.toNat = n := by omega
      rw [if_neg (by omega), if_pos (by omega), if_neg fraction, wholeIs, fractionIs, toNat]
    · have zeros : (s.exponent - (s.digits.length - 1)).toNat = n + 1 - s.digits.length := by omega
      rw [if_pos (by omega), if_pos fractionIs, wholeIs, zeros, List.append_nil]

/-! ## One number -/

theorem exponent_go (n : Int) :
    Decimal.exponent ((if 0 ≤ n then '+' else '-') ::
      ((if n.natAbs < 10 then ['0'] else []) ++ (toString n.natAbs).toList)) = n := by
  have padded : Decimal.digits ((if n.natAbs < 10 then ['0'] else []) ++
      (toString n.natAbs).toList) = n.natAbs := by
    split_ifs
    · exact (Decimal.digits_zeros_append 1 _).trans (Decimal.digits_toString _)
    · exact Decimal.digits_toString _
  by_cases below : 0 ≤ n
  · rw [if_pos below, Decimal.exponent, padded]
    omega
  · rw [if_neg below, Decimal.exponent, padded]
    omega

theorem value_parts :
    (Decimal.digits (s.whole ++ s.fraction) : ℚ) * 10 ^ (-(s.fraction.length : Int)) =
      Decimal.digits s.digits * 10 ^ (s.exponent - s.rest.length) := by
  have length := s.length_digits
  rcases s.parts with ⟨below, wholeIs, fractionIs⟩ | ⟨n, isNat, inside, wholeIs, fractionIs⟩ |
    ⟨n, isNat, outside, wholeIs, fractionIs⟩
  · have zero : ['0'] = List.replicate 1 '0' := rfl
    have shift : -(s.fraction.length : Int) = s.exponent - s.rest.length := by
      rw [fractionIs, List.length_append, List.length_replicate]
      omega
    rw [shift, wholeIs, fractionIs, zero, Decimal.digits_zeros_append,
      Decimal.digits_zeros_append]
  · have shift : -(s.fraction.length : Int) = s.exponent - s.rest.length := by
      rw [fractionIs, List.length_drop]
      omega
    rw [shift, wholeIs, fractionIs, List.take_append_drop]
  · have shift : s.exponent - s.rest.length = (n + 1 - s.digits.length : Nat) := by omega
    rw [shift, wholeIs, fractionIs, List.append_nil, Decimal.digits_append_zeros, List.length_nil,
      zpow_natCast]
    simp

theorem magnitude_digits {whole : List Char} (digits : ∀ c ∈ whole, c.isDigit = true) :
    Decimal.magnitude whole = Decimal.digits whole :=
  Decimal.magnitude_whole (point_notMem digits) (mark_notMem digits)

theorem magnitude_point_digits {whole fraction : List Char}
    (wholeDigits : ∀ c ∈ whole, c.isDigit = true)
    (fractionDigits : ∀ c ∈ fraction, c.isDigit = true) :
    Decimal.magnitude (whole ++ '.' :: fraction) =
      Decimal.digits (whole ++ fraction) * 10 ^ (-(fraction.length : Int)) :=
  Decimal.magnitude_point (point_notMem wholeDigits)
    (mark_notMem (List.forall_mem_append.mpr ⟨wholeDigits, fractionDigits⟩))

theorem magnitude_goPlain :
    Decimal.magnitude s.goPlain = Decimal.digits s.digits * 10 ^ (s.exponent - s.rest.length) := by
  obtain ⟨wholeDigits, fractionDigits⟩ := s.parts_digits
  rw [← s.value_parts, goPlain]
  by_cases none : s.fraction = []
  · rw [if_pos none, none, List.append_nil, magnitude_digits wholeDigits]
    simp
  · rw [if_neg none, magnitude_point_digits wholeDigits fractionDigits]

theorem magnitude_ryuPlain :
    Decimal.magnitude s.ryuPlain = Decimal.digits s.digits * 10 ^ (s.exponent - s.rest.length) := by
  obtain ⟨wholeDigits, fractionDigits⟩ := s.parts_digits
  rw [← s.value_parts, ryuPlain]
  by_cases none : s.fraction = []
  · have zero : ['0'] = List.replicate 1 '0' := rfl
    have zeroDigit : ∀ c ∈ ['0'], c.isDigit = true := List.forall_mem_singleton.mpr rfl
    rw [if_pos none, magnitude_point_digits wholeDigits zeroDigit, none, List.append_nil, zero,
      Decimal.digits_append_zeros]
    simp
  · rw [if_neg none, magnitude_point_digits wholeDigits fractionDigits]

theorem magnitude_mantissa (power : List Char) :
    Decimal.magnitude (s.mantissa ++ 'e' :: power) =
      Decimal.digits s.digits * 10 ^ (Decimal.exponent power - s.rest.length) := by
  obtain ⟨firstDigit, restDigits⟩ := List.forall_mem_cons.mp s.decimal
  have single : ∀ c ∈ [s.first], c.isDigit = true := List.forall_mem_singleton.mpr firstDigit
  have ten : (10 : ℚ) ≠ 0 := by norm_num
  by_cases none : s.rest = []
  · have isFirst : s.digits = [s.first] := by rw [digits, none]
    rw [mantissa, if_pos none, Decimal.magnitude_exponent (mark_notMem single),
      magnitude_digits single, isFirst, none]
    simp
  · have mark : 'e' ∉ s.first :: '.' :: s.rest := by
      simp only [List.mem_cons, not_or]
      exact ⟨List.ne_of_not_mem_cons (mark_notMem single), by decide, mark_notMem restDigits⟩
    have point : Decimal.magnitude (s.first :: '.' :: s.rest) =
        Decimal.digits s.digits * 10 ^ (-(s.rest.length : Int)) :=
      magnitude_point_digits single restDigits
    rw [mantissa, if_neg none, Decimal.magnitude_exponent mark, point, mul_assoc, ← zpow_add₀ ten,
      neg_add_eq_sub]

theorem magnitude_ryuScientific :
    Decimal.magnitude s.ryuScientific =
      Decimal.digits s.digits * 10 ^ (s.exponent - s.rest.length) := by
  rw [ryuScientific, s.magnitude_mantissa, Decimal.exponent_toString]

theorem magnitude_goScientific :
    Decimal.magnitude s.goScientific =
      Decimal.digits s.digits * 10 ^ (s.exponent - s.rest.length) := by
  rw [goScientific, s.magnitude_mantissa, exponent_go]

/-- Every layout starts with a digit. -/
def Unsigned (text : List Char) : Prop := ∃ c rest, text = c :: rest ∧ c.isDigit = true

theorem unsigned_whole (rest : List Char) : Unsigned (s.whole ++ rest) := by
  have firstDigit := s.decimal s.first (List.mem_cons_self ..)
  rcases s.parts with ⟨_, wholeIs, _⟩ | ⟨n, _, _, wholeIs, _⟩ | ⟨n, _, _, wholeIs, _⟩
  · rw [wholeIs]
    exact ⟨'0', _, rfl, by decide⟩
  · rw [wholeIs, digits, List.take_succ_cons]
    exact ⟨s.first, _, rfl, firstDigit⟩
  · rw [wholeIs]
    exact ⟨s.first, _, rfl, firstDigit⟩

theorem unsigned_mantissa (rest : List Char) : Unsigned (s.mantissa ++ rest) :=
  ⟨s.first, _, rfl, s.decimal s.first (List.mem_cons_self ..)⟩

theorem value_signed {text : List Char} (unsigned : Unsigned text)
    (magnitude : Decimal.magnitude text =
      Decimal.digits s.digits * 10 ^ (s.exponent - s.rest.length)) :
    Decimal.value (s.signed text) = s.value := by
  obtain ⟨c, rest, rfl, digit⟩ := unsigned
  rw [signed, value, ← magnitude]
  by_cases negative : s.negative = true
  · rw [if_pos negative, if_pos negative, Decimal.value, neg_one_mul]
  · rw [if_neg negative, if_neg negative, Decimal.value_digit digit, one_mul]

theorem fmtFloat_signed {ryu : Ryu} {v : Float} (nonzero : (v == 0.0) = false)
    (notOne : (v == 1.0) = false) (notMinusOne : (v == -1.0) = false) (number : v.isNaN = false)
    (finite : v.isInf = false) {text : List Char} (unsigned : Unsigned text)
    (written : (ryu.format v).toList = s.signed text) :
    (fmtFloat ryu v).toList = s.signed (reshape text) := by
  unfold fmtFloat
  rw [nonzero, notOne, notMinusOne, number, finite]
  simp only [Bool.false_eq_true, if_false]
  have sign : "-".toList = ['-'] := rfl
  unfold Str.stripPrefix Str.startsWith
  rw [written, signed, signed, sign]
  by_cases negative : s.negative = true
  · have isPrefix : ['-'].isPrefixOf ('-' :: text) = true := by simp [List.isPrefixOf]
    rw [if_pos negative, if_pos negative, if_pos isPrefix]
    dsimp only [List.length_singleton, List.drop_succ_cons, List.drop_zero]
    rw [String.toList_append, sign, String.toList_ofList, String.toList_ofList]
    rfl
  · obtain ⟨c, rest, rfl, digit⟩ := unsigned
    have noSign : (['-'].isPrefixOf (c :: rest)) = false := by
      have differs : c ≠ '-' := by
        rintro rfl
        exact absurd digit (by decide)
      simp [List.isPrefixOf, differs.symm]
    rw [if_neg negative, if_neg negative, noSign, if_neg Bool.false_ne_true]
    dsimp only
    rw [String.toList_ofList]

end ShortForm

/-- Every finite float other than zero and the ones is written as Go writes it, and
denotes what `ryu` wrote. -/
theorem fmtFloat_eq_goText {ryu : Ryu} {v : Float} (nonzero : (v == 0.0) = false)
    (notOne : (v == 1.0) = false) (notMinusOne : (v == -1.0) = false) (number : v.isNaN = false)
    (finite : v.isInf = false) {s : ShortForm} (written : s.RyuText (ryu.format v).toList) :
    (fmtFloat ryu v).toList = s.goText ∧
      Decimal.value (fmtFloat ryu v).toList = s.value ∧
        Decimal.value (ryu.format v).toList = s.value := by
  have laidOut : ∀ {text : List Char} {n : Nat},
      significant text = (s.digits ++ List.replicate n '0', s.exponent) →
        s.signed (reshape text) = s.goText := by
    intro text n cut
    rw [s.reshape_of_significant cut, s.layoutDigits_eq]
    rfl
  have goValue : Decimal.value s.goText = s.value := by
    rw [ShortForm.goText]
    split_ifs
    · exact s.value_signed (s.unsigned_mantissa _) s.magnitude_goScientific
    · exact s.value_signed (s.unsigned_whole _) s.magnitude_goPlain
  rcases written with plain | scientific
  · obtain ⟨n, cut⟩ := s.significant_ryuPlain
    have text : (fmtFloat ryu v).toList = s.goText := by
      rw [s.fmtFloat_signed nonzero notOne notMinusOne number finite (s.unsigned_whole _) plain]
      exact laidOut cut
    refine ⟨text, text ▸ goValue, ?_⟩
    rw [plain]
    exact s.value_signed (s.unsigned_whole _) s.magnitude_ryuPlain
  · have cut : significant s.ryuScientific =
        (s.digits ++ List.replicate 0 '0', s.exponent) := by
      rw [s.significant_ryuScientific, List.replicate_zero, List.append_nil]
    have text : (fmtFloat ryu v).toList = s.goText := by
      rw [s.fmtFloat_signed nonzero notOne notMinusOne number finite (s.unsigned_mantissa _)
        scientific]
      exact laidOut cut
    refine ⟨text, text ▸ goValue, ?_⟩
    rw [scientific]
    exact s.value_signed (s.unsigned_mantissa _) s.magnitude_ryuScientific

def memoryForm : ShortForm where
  negative := false
  first := '4'
  rest := ['1', '5', '0', '4', '7', '6', '8']
  exponent := 7
  decimal := List.forall_mem_iff_forall_getElem.mpr (by decide)
  firstNonzero := by decide
  lastNonzero := by
    intro c last
    rw [← Option.some.inj last]
    decide
  bounded := by decide

def memoryRyu : Ryu where
  format := fun _ => "41504768.0"
  oneLine := fun _ => by decide

theorem fmtFloat_memory :
    (fmtFloat memoryRyu 41504768.0).toList = memoryForm.goText ∧
      Decimal.value (fmtFloat memoryRyu 41504768.0).toList = memoryForm.value ∧
        Decimal.value (memoryRyu.format 41504768.0).toList = memoryForm.value :=
  fmtFloat_eq_goText (by decide +kernel) (by decide +kernel) (by decide +kernel)
    (by decide +kernel) (by decide +kernel) (s := memoryForm) (Or.inl rfl)

example : String.ofList memoryForm.goText = "4.1504768e+07" := by decide

end Cadvisor
