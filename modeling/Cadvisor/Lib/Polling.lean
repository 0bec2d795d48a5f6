import Mathlib.Data.List.Induction
import Mathlib.Data.List.Pairwise
import Mathlib.Order.MinMax
import Mathlib.Order.Nat

/-!
# Polling

A poller lengthens its interval while it sees nothing new and returns to the
base when it does.  `Steady` is what one poll may do to the interval.  Clamping
to a cap keeps it for every outcome only if the cap is not below the base.  Of a
counter that is polled the rises are counted: how often the readings go up from
one to the next.
-/

set_option autoImplicit false

namespace Backoff

inductive Outcome where
  | changed
  | unchanged
  | failed
  deriving DecidableEq

variable {τ : Type} [LinearOrder τ]

/-- The clamped doubling: back to the base, up to the cap, or as it was. -/
def next (double : τ → τ) (base cap interval : τ) : Outcome → τ
  | .changed => base
  | .unchanged => min (double interval) cap
  | .failed => interval

def Within (base cap interval : τ) : Prop := base ≤ interval ∧ interval ≤ max base cap

/-- From one interval slept to the next. -/
structure Steady (base cap interval next : τ) (outcome : Outcome) : Prop where
  within : Within base cap next
  reset : outcome = .changed → next = base
  rises : outcome ≠ .changed → interval ≤ next

theorem within_base (base cap : τ) : Within base cap base := ⟨le_refl base, le_max_left base cap⟩

theorem next_steady_of_ne {double : τ → τ} {base cap interval : τ} {outcome : Outcome}
    (within : Within base cap interval) (ne : outcome ≠ .unchanged) :
    Steady base cap interval (next double base cap interval outcome) outcome := by
  cases outcome with
  | changed => exact ⟨within_base base cap, fun _ => rfl, fun other => absurd rfl other⟩
  | unchanged => exact absurd rfl ne
  | failed => exact ⟨within, by simp, fun _ => le_refl interval⟩

theorem next_steady {double : τ → τ} {base cap interval : τ} (grows : ∀ t, t ≤ double t)
    (le : base ≤ cap) (within : Within base cap interval) (outcome : Outcome) :
    Steady base cap interval (next double base cap interval outcome) outcome := by
  by_cases idle : outcome = .unchanged
  · subst outcome
    have inCap : interval ≤ cap := within.2.trans (max_le le (le_refl cap))
    have rises : interval ≤ min (double interval) cap := le_min (grows interval) inCap
    refine ⟨⟨within.1.trans rises, ?_⟩, by simp, fun _ => rises⟩
    exact (min_le_right (double interval) cap).trans (le_max_right base cap)
  · exact next_steady_of_ne within idle

/-- Below the base, the cap takes the interval below it too. -/
theorem not_steady_of_lt (double : τ → τ) {base cap : τ} (interval : τ) (lt : cap < base) :
    ¬ Steady base cap interval (next double base cap interval .unchanged) .unchanged := by
  intro steady
  have least : base ≤ min (double interval) cap := steady.within.1
  exact absurd (least.trans (min_le_right (double interval) cap)) (not_le_of_gt lt)

end Backoff

namespace Rises

def rises : List Nat → Nat
  | a :: b :: rest => (if a < b then 1 else 0) + rises (b :: rest)
  | _ => 0

theorem rises_concat (xs : List Nat) (x : Nat) :
    rises (xs ++ [x]) = rises xs + if ∃ last ∈ xs.getLast?, last < x then 1 else 0 := by
  induction xs with
  | nil => simp [rises]
  | cons a rest ih =>
      cases rest with
      | nil => simp [rises]
      | cons b rest =>
          rw [List.cons_append, List.cons_append, rises, rises, ← List.cons_append, ih,
            List.getLast?_cons_cons, Nat.add_assoc]

/-- A counter that never goes down has gone up at least by its rises, and by nothing
without one. -/
theorem rises_of_monotone {xs : List Nat} (monotone : xs.Pairwise (· ≤ ·)) {first last : Nat}
    (isFirst : first ∈ xs.head?) (isLast : last ∈ xs.getLast?) :
    first + rises xs ≤ last ∧ (rises xs = 0 ↔ first = last) := by
  induction xs generalizing first with
  | nil => cases isFirst
  | cons a rest ih =>
      obtain rfl : a = first := Option.some.inj isFirst
      cases rest with
      | nil =>
          obtain rfl : a = last := Option.some.inj isLast
          exact ⟨Nat.le_refl a, Iff.of_eq (by simp [rises])⟩
      | cons b rest =>
          obtain ⟨below, others⟩ := List.pairwise_cons.mp monotone
          have step : a ≤ b := below b (List.mem_cons_self ..)
          obtain ⟨bound, level⟩ := ih others rfl (by rwa [List.getLast?_cons_cons] at isLast)
          rw [rises]
          split_ifs with up
          · omega
          · obtain rfl : a = b := by omega
            rw [Nat.zero_add]
            exact ⟨bound, level⟩

end Rises
