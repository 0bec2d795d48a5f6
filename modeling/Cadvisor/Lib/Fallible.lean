import Mathlib.Algebra.Order.Ring.Nat
import Mathlib.Data.List.Basic
import Mathlib.Data.Option.Basic

/-!
# Functions that may fail

Going through a list with a function that may fail gives a result exactly if the
function has one for every element, and it is the list of these, in order.  Checked
64-bit arithmetic fails where a build with overflow checks panics, and has the result
of the wrapping operation elsewhere.
-/

set_option autoImplicit false

namespace Traverse

variable {α β γ : Type} {f : α → Option β} {xs : List α} {ys : List β}

theorem mapM_eq_some_iff : xs.mapM f = some ys ↔ xs.map f = ys.map some := by
  induction xs generalizing ys with
  | nil =>
      rw [List.mapM_nil, List.map_nil]
      cases ys with
      | nil => simp
      | cons y ys => simp
  | cons x xs ih =>
      rw [List.mapM_cons, List.map_cons]
      cases head : f x with
      | none =>
          cases ys with
          | nil => simp
          | cons y ys => simp
      | some y =>
          cases tail : xs.mapM f with
          | none =>
              have stuck : ∀ ys, xs.map f ≠ List.map some ys := by
                intro ys all
                rw [ih.mpr all] at tail
                cases tail
              cases ys with
              | nil => simp
              | cons z zs => simp [stuck zs]
          | some rest =>
              have all := ih.mp tail
              cases ys with
              | nil => simp
              | cons z zs =>
                  simp [all, List.map_inj_right (Option.some_injective β)]

theorem exists_of_mem_mapM (all : xs.mapM f = some ys) {y : β} (member : y ∈ ys) :
    ∃ x ∈ xs, f x = some y := by
  have inEntries : some y ∈ xs.map f := by
    rw [mapM_eq_some_iff.mp all]
    exact List.mem_map_of_mem member
  exact List.mem_map.mp inEntries

theorem isSome_mapM_iff : (xs.mapM f).isSome = true ↔ ∀ x ∈ xs, (f x).isSome = true := by
  induction xs with
  | nil => simp
  | cons x xs ih =>
      rw [List.mapM_cons, List.forall_mem_cons, ← ih]
      cases f x <;> cases xs.mapM f <;> simp

theorem map_of_mapM {g : α → γ} {h : β → γ} (all : xs.mapM f = some ys)
    (kept : ∀ x ∈ xs, ∀ y, f x = some y → h y = g x) : ys.map h = xs.map g := by
  have entries := mapM_eq_some_iff.mp all
  clear all
  induction xs generalizing ys with
  | nil =>
      cases ys with
      | nil => rfl
      | cons y ys => cases entries
  | cons x xs ih =>
      cases ys with
      | nil => cases entries
      | cons y ys =>
          obtain ⟨head, tail⟩ := List.cons.inj entries
          obtain ⟨first, rest⟩ := List.forall_mem_cons.mp kept
          rw [List.map_cons, List.map_cons, first y head, ih rest tail]

end Traverse

namespace Checked

def add (a b : UInt64) : Option UInt64 := if a.toNat + b.toNat < 2 ^ 64 then some (a + b) else none

def sub (a b : UInt64) : Option UInt64 := if b ≤ a then some (a - b) else none

def mul (a b : UInt64) : Option UInt64 := if a.toNat * b.toNat < 2 ^ 64 then some (a * b) else none

variable {a b : UInt64}

theorem add_of_lt (fits : a.toNat + b.toNat < 2 ^ 64) : add a b = some (a + b) := if_pos fits

theorem sub_of_le (le : b ≤ a) : sub a b = some (a - b) := if_pos le

theorem mul_of_lt (fits : a.toNat * b.toNat < 2 ^ 64) : mul a b = some (a * b) := if_pos fits

theorem mul_of_not_lt (overflows : ¬ a.toNat * b.toNat < 2 ^ 64) : mul a b = none :=
  if_neg overflows

/-- A fold with a checked step is the wrapping fold as long as no step fails. -/
theorem foldlM_eq {σ α : Type} {checked : σ → α → Option σ} {step : σ → α → σ} {ok : α → Prop}
    (fits : ∀ s x, ok x → checked s x = some (step s x)) {xs : List α} (all : ∀ x ∈ xs, ok x)
    (s : σ) : xs.foldlM checked s = some (xs.foldl step s) := by
  induction xs generalizing s with
  | nil => rfl
  | cons x rest ih =>
      rw [List.foldlM_cons, fits s x (all x (List.mem_cons_self ..)), List.foldl_cons]
      exact ih (fun y member => all y (List.mem_cons_of_mem x member)) (step s x)

theorem foldlM_eq_none {σ α : Type} {checked : σ → α → Option σ} {ok : α → Prop}
    (overflows : ∀ s x, ¬ ok x → checked s x = none) {xs : List α} {x : α} (member : x ∈ xs)
    (bad : ¬ ok x) (s : σ) : xs.foldlM checked s = none := by
  induction xs generalizing s with
  | nil => cases member
  | cons y rest ih =>
      rw [List.foldlM_cons]
      cases first : checked s y with
      | none => rfl
      | some next =>
          rcases List.mem_cons.mp member with rfl | later
          · rw [overflows s x bad] at first
            cases first
          · exact ih later next

theorem mapError_bind {ε δ α β : Type} (rename : ε → δ) (first : Except ε α)
    (next : α → Except ε β) :
    (first >>= next).mapError rename =
      first.mapError rename >>= fun a => (next a).mapError rename := by
  cases first <;> rfl

end Checked
