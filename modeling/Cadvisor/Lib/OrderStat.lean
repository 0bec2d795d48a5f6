import Cadvisor.Lib.SortedSeq
import Mathlib.Algebra.GroupWithZero.Nat
import Mathlib.Algebra.Order.BigOperators.Group.List
import Mathlib.Algebra.Order.Group.Nat

/-!
# Order statistics

The value of a rank in a list, counted from zero in increasing order of a key.
Ranks are monotone, the first and the last bound the list, and no rank depends
on the order of the list.  The average rounded down lies between the bounds too.
-/

set_option autoImplicit false

namespace OrderStat

open SortedSeq

variable {α κ : Type} [LinearOrder κ]

def nth (key : α → κ) (values : List α) (rank : Nat) : Option α := (stableSort key values)[rank]?

theorem length_sorted (key : α → κ) (values : List α) :
    (stableSort key values).length = values.length :=
  (stableSort_perm key values).length_eq

theorem exists_nth (key : α → κ) {values : List α} {rank : Nat} (inside : rank < values.length) :
    ∃ v, nth key values rank = some v := by
  rw [← length_sorted key values] at inside
  exact ⟨_, List.getElem?_eq_getElem inside⟩

theorem mem_of_nth {key : α → κ} {values : List α} {rank : Nat} {v : α}
    (at_rank : nth key values rank = some v) : v ∈ values :=
  (mem_stableSort key v values).mp (List.mem_of_getElem? at_rank)

theorem nth_mono {key : α → κ} {values : List α} {low high : Nat} {a b : α} (le : low ≤ high)
    (at_low : nth key values low = some a) (at_high : nth key values high = some b) :
    key a ≤ key b := by
  obtain ⟨lowInside, rfl⟩ := List.getElem?_eq_some_iff.mp at_low
  obtain ⟨highInside, rfl⟩ := List.getElem?_eq_some_iff.mp at_high
  rcases Nat.eq_or_lt_of_le le with same | lt
  · subst same
    exact le_refl _
  · exact List.pairwise_iff_getElem.mp (stableSort_sorted key values) low high lowInside
      highInside lt

theorem exists_rank (key : α → κ) {values : List α} {v : α} (member : v ∈ values) :
    ∃ rank, rank < values.length ∧ nth key values rank = some v := by
  obtain ⟨rank, inside, at_rank⟩ :=
    List.getElem_of_mem ((mem_stableSort key v values).mpr member)
  refine ⟨rank, ?_, List.getElem?_eq_some_iff.mpr ⟨inside, at_rank⟩⟩
  rw [← length_sorted key values]
  exact inside

theorem first_le {key : α → κ} {values : List α} {least v : α}
    (at_first : nth key values 0 = some least) (member : v ∈ values) : key least ≤ key v := by
  obtain ⟨rank, _, at_rank⟩ := exists_rank key member
  exact nth_mono (Nat.zero_le rank) at_first at_rank

theorem le_last {key : α → κ} {values : List α} {greatest v : α}
    (at_last : nth key values (values.length - 1) = some greatest) (member : v ∈ values) :
    key v ≤ key greatest := by
  obtain ⟨rank, inside, at_rank⟩ := exists_rank key member
  exact nth_mono (by omega) at_rank at_last

theorem sorted_eq_of_perm {key : α → κ} (injective : Function.Injective key) {xs ys : List α}
    (perm : xs.Perm ys) : stableSort key xs = stableSort key ys := by
  have same : (stableSort key xs).Perm (stableSort key ys) :=
    ((stableSort_perm key xs).trans perm).trans (stableSort_perm key ys).symm
  have antisymm : ∀ a b : α, a ∈ stableSort key xs → b ∈ stableSort key ys →
      key a ≤ key b → key b ≤ key a → a = b := by
    intro a b _ _ below above
    exact injective (le_antisymm below above)
  exact same.eq_of_pairwise antisymm (stableSort_sorted key xs) (stableSort_sorted key ys)

/-! ## The average -/

theorem le_average {values : List Nat} (nonempty : values ≠ []) {low : Nat}
    (bound : ∀ v ∈ values, low ≤ v) : low ≤ values.sum / values.length := by
  rw [Nat.le_div_iff_mul_le (List.length_pos_iff.mpr nonempty), Nat.mul_comm]
  exact values.card_nsmul_le_sum low bound

theorem average_le {values : List Nat} {high : Nat}
    (bound : ∀ v ∈ values, v ≤ high) : values.sum / values.length ≤ high := by
  apply Nat.div_le_of_le_mul
  exact values.sum_le_card_nsmul high bound

end OrderStat
