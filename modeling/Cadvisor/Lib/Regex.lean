import Mathlib.Computability.RegularExpressions
import Mathlib.Data.List.TakeWhile

/-!
# Words and classes in regular expressions

Expressions as programs write them: a word, one letter of a class, one or more of
something.  A program that takes as many letters of one class as it finds, and
checks the rest against another class, accepts what the two classes one behind the
other describe.
-/

set_option autoImplicit false

namespace Regex

open RegularExpression

variable {α : Type}

def oneOf : List α → RegularExpression α
  | [] => 0
  | a :: rest => char a + oneOf rest

def word : List α → RegularExpression α
  | [] => 1
  | a :: rest => char a * word rest

def oneOrMore (P : RegularExpression α) : RegularExpression α := P * star P

theorem mem_char_mul {a : α} {P : RegularExpression α} {w : List α} :
    w ∈ (char a * P).matches' ↔ ∃ rest ∈ P.matches', w = a :: rest := by
  rw [matches'_mul, Language.mem_mul, matches'_char]
  constructor
  · rintro ⟨_, rfl, rest, inP, rfl⟩
    exact ⟨rest, inP, rfl⟩
  · rintro ⟨rest, inP, rfl⟩
    exact ⟨[a], rfl, rest, inP, rfl⟩

theorem mem_word_mul {front : List α} {P : RegularExpression α} {w : List α} :
    w ∈ (word front * P).matches' ↔ ∃ rest ∈ P.matches', w = front ++ rest := by
  induction front generalizing w with
  | nil => simp [word]
  | cons a front ih =>
      have assoc : (word (a :: front) * P).matches' = (char a * (word front * P)).matches' := by
        simp only [word, matches'_mul, mul_assoc]
      rw [assoc, mem_char_mul]
      constructor
      · rintro ⟨_, inside, rfl⟩
        obtain ⟨rest, inP, rfl⟩ := ih.mp inside
        exact ⟨rest, inP, rfl⟩
      · rintro ⟨rest, inP, rfl⟩
        exact ⟨front ++ rest, ih.mpr ⟨rest, inP, rfl⟩, rfl⟩

theorem mem_oneOf {letters w : List α} :
    w ∈ (oneOf letters).matches' ↔ ∃ a ∈ letters, w = [a] := by
  induction letters with
  | nil => simp [oneOf]
  | cons a rest ih =>
      rw [oneOf, matches'_add, Language.mem_add, ih, matches'_char, List.exists_mem_cons_iff]
      rfl

theorem mem_star_oneOf {letters w : List α} :
    w ∈ (star (oneOf letters)).matches' ↔ ∀ a ∈ w, a ∈ letters := by
  rw [matches'_star, Language.mem_kstar]
  constructor
  · rintro ⟨parts, rfl, each⟩ a member
    obtain ⟨part, inParts, inPart⟩ := List.mem_flatten.mp member
    obtain ⟨b, inClass, rfl⟩ := mem_oneOf.mp (each part inParts)
    rw [List.mem_singleton.mp inPart]
    exact inClass
  · intro all
    refine ⟨w.map fun a => [a], ?_, ?_⟩
    · rw [← List.flatMap_def, List.flatMap_singleton']
    · intro part member
      obtain ⟨a, inW, rfl⟩ := List.mem_map.mp member
      exact mem_oneOf.mpr ⟨a, all a inW, rfl⟩

theorem mem_oneOrMore_oneOf {letters w : List α} :
    w ∈ (oneOrMore (oneOf letters)).matches' ↔ w ≠ [] ∧ ∀ a ∈ w, a ∈ letters := by
  rw [oneOrMore, matches'_mul, Language.mem_mul]
  constructor
  · rintro ⟨_, first, rest, others, rfl⟩
    obtain ⟨a, inClass, rfl⟩ := mem_oneOf.mp first
    exact ⟨List.cons_ne_nil _ _, List.forall_mem_cons.mpr ⟨inClass, mem_star_oneOf.mp others⟩⟩
  · rintro ⟨nonempty, all⟩
    cases w with
    | nil => exact absurd rfl nonempty
    | cons a rest =>
        obtain ⟨inClass, others⟩ := List.forall_mem_cons.mp all
        exact ⟨[a], mem_oneOf.mpr ⟨a, inClass, rfl⟩, rest, mem_star_oneOf.mpr others, rfl⟩

/-- Taking as many letters as there are loses no match, also where the classes overlap:
what is left behind them is left behind any other cut. -/
theorem mem_greedy {first second w : List α} {p q : α → Bool}
    (isFirst : ∀ a, p a = true ↔ a ∈ first) (isSecond : ∀ a, q a = true ↔ a ∈ second) :
    w ∈ (oneOrMore (oneOf first) * star (oneOf second)).matches' ↔
      w.takeWhile p ≠ [] ∧ (w.dropWhile p).all q = true := by
  rw [matches'_mul, Language.mem_mul]
  constructor
  · rintro ⟨front, inFront, back, inBack, rfl⟩
    obtain ⟨nonempty, frontAll⟩ := mem_oneOrMore_oneOf.mp inFront
    have frontIs : ∀ a ∈ front, p a = true := fun a member => (isFirst a).mpr (frontAll a member)
    rw [List.takeWhile_append_of_pos frontIs, List.dropWhile_append_of_pos frontIs]
    refine ⟨fun empty => nonempty (List.append_eq_nil_iff.mp empty).1, ?_⟩
    rw [List.all_eq_true]
    intro a member
    exact (isSecond a).mpr
      (mem_star_oneOf.mp inBack a ((List.dropWhile_sublist p).subset member))
  · rintro ⟨nonempty, all⟩
    refine ⟨w.takeWhile p, mem_oneOrMore_oneOf.mpr ⟨nonempty, ?_⟩, w.dropWhile p,
      mem_star_oneOf.mpr ?_, List.takeWhile_append_dropWhile⟩
    · intro a member
      exact (isFirst a).mp (List.mem_takeWhile_imp member)
    · intro a member
      exact (isSecond a).mp (List.all_eq_true.mp all a member)

/-! ## Ranges of characters -/

/-- The characters from `first` to `last`. -/
def charRange (first last : Char) : List Char :=
  (List.range' first.toNat (last.toNat + 1 - first.toNat)).map Char.ofNat

theorem mem_charRange {first last : Char} (ascii : last.toNat < 128) (c : Char) :
    c ∈ charRange first last ↔ first ≤ c ∧ c ≤ last := by
  have order : ∀ a b : Char, a ≤ b ↔ a.toNat ≤ b.toNat := fun _ _ => UInt32.le_iff_toNat_le
  rw [charRange, List.mem_map, order, order]
  constructor
  · rintro ⟨n, inRange, rfl⟩
    rw [List.mem_range'_1] at inRange
    have valid : n.isValidChar := Or.inl (by omega)
    have code : (Char.ofNat n).toNat = n := by
      rw [Char.ofNat, dif_pos valid]
      rfl
    omega
  · rintro ⟨above, below⟩
    exact ⟨c.toNat, List.mem_range'_1.mpr (by omega), Char.ofNat_toNat c⟩

end Regex
