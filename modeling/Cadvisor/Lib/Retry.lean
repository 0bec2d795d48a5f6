import Mathlib.Data.List.Range

/-!
# Asking again

A question is asked a bounded number of times, until an answer settles it.
-/

set_option autoImplicit false

namespace Retry

inductive Reply (α : Type) where
  | found (a : α)
  | again
  | stop

variable {α : Type}

/-- The attempts made from `first` on, at most `n`, and what was found. -/
def run (ask : Nat → Reply α) : Nat → Nat → List Nat × Option α
  | _, 0 => ([], none)
  | first, n + 1 =>
      match ask first with
      | .found a => ([first], some a)
      | .stop => ([first], none)
      | .again =>
          let (asked, found) := run ask (first + 1) n
          (first :: asked, found)

theorem run_asked (ask : Nat → Reply α) (first n : Nat) :
    ∃ k ≤ n, (run ask first n).1 = List.range' first k := by
  induction n generalizing first with
  | zero => exact ⟨0, Nat.le_refl 0, rfl⟩
  | succ n ih =>
      rw [run]
      cases ask first with
      | found a => exact ⟨1, by omega, rfl⟩
      | stop => exact ⟨1, by omega, rfl⟩
      | again =>
          obtain ⟨k, le, asked⟩ := ih (first + 1)
          exact ⟨k + 1, by omega, by rw [List.range'_succ, ← asked]⟩

theorem run_found_iff (ask : Nat → Reply α) (first n : Nat) (a : α) :
    (run ask first n).2 = some a ↔
      ∃ k < n, (∀ j < k, ask (first + j) = .again) ∧ ask (first + k) = .found a := by
  induction n generalizing first with
  | zero =>
      refine iff_of_false (by simp [run]) ?_
      rintro ⟨k, impossible, -⟩
      exact absurd impossible (Nat.not_lt_zero k)
  | succ n ih =>
      rw [run]
      cases here : ask first with
      | found b =>
          constructor
          · intro same
            obtain rfl : b = a := Option.some.inj same
            exact ⟨0, Nat.zero_lt_succ n, fun j none => absurd none (Nat.not_lt_zero j), here⟩
          · rintro ⟨k, -, earlier, isFound⟩
            cases k with
            | zero =>
                rw [Nat.add_zero, here] at isFound
                exact congrArg some (Reply.found.inj isFound)
            | succ k =>
                have again := earlier 0 (Nat.zero_lt_succ k)
                rw [Nat.add_zero, here] at again
                cases again
      | stop =>
          refine iff_of_false (by simp) ?_
          rintro ⟨k, -, earlier, isFound⟩
          cases k with
          | zero =>
              rw [Nat.add_zero, here] at isFound
              cases isFound
          | succ k =>
              have again := earlier 0 (Nat.zero_lt_succ k)
              rw [Nat.add_zero, here] at again
              cases again
      | again =>
          have shift : ∀ j, first + 1 + j = first + (j + 1) := by omega
          refine (ih (first + 1)).trans ?_
          constructor
          · rintro ⟨k, le, earlier, isFound⟩
            refine ⟨k + 1, by omega, fun j less => ?_, ?_⟩
            · cases j with
              | zero => exact here
              | succ j => rw [← shift, earlier j (by omega)]
            · rw [← shift, isFound]
          · rintro ⟨k, le, earlier, isFound⟩
            cases k with
            | zero =>
                rw [Nat.add_zero, here] at isFound
                cases isFound
            | succ k =>
                refine ⟨k, by omega, fun j less => ?_, ?_⟩
                · rw [shift, earlier (j + 1) (by omega)]
                · rw [shift, isFound]

end Retry
