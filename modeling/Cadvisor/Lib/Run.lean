import Mathlib.Data.List.Basic

/-!
# Runs of a partial step function

A run is a list of actions, each enabled where it is taken.  What every allowed
step keeps, every run of allowed steps keeps.
-/

set_option autoImplicit false

namespace Run

variable {σ α : Type} (step : σ → α → Option σ) (ok : σ → α → Prop)

def exec (s : σ) (actions : List α) : Option σ := actions.foldlM step s

/-- Every action of the run is allowed in the state in which it is taken. -/
def Allowed : σ → List α → Prop
  | _, [] => True
  | s, a :: rest => ok s a ∧ ∀ next, step s a = some next → Allowed next rest

theorem exec_cons (s : σ) (a : α) (rest : List α) :
    exec step s (a :: rest) = (step s a).bind fun next => exec step next rest := by
  rw [exec, List.foldlM_cons]
  rfl

theorem allowed_cons {step : σ → α → Option σ} {ok : σ → α → Prop} {s next : σ} {a : α}
    {rest : List α} (stepIs : step s a = some next) :
    Allowed step ok s (a :: rest) ↔ ok s a ∧ Allowed step ok next rest := by
  refine and_congr_right fun _ => ⟨fun all => all next stepIs, fun allowed other otherIs => ?_⟩
  rw [stepIs, Option.some.injEq] at otherIs
  exact otherIs ▸ allowed

theorem allowed_of_forall {step : σ → α → Option σ} {ok : α → Prop} {actions : List α} {s : σ}
    (all : ∀ a ∈ actions, ok a) : Allowed step (fun _ a => ok a) s actions := by
  induction actions generalizing s with
  | nil => trivial
  | cons a rest ih =>
      exact ⟨all a (List.mem_cons_self ..),
        fun _ _ => ih fun b member => all b (List.mem_cons_of_mem a member)⟩

theorem exec_keeps {step : σ → α → Option σ} {ok : σ → α → Prop} {I : σ → Prop}
    (keeps : ∀ s a next, I s → ok s a → step s a = some next → I next) {actions : List α}
    {s final : σ} (start : I s) (allowed : Allowed step ok s actions)
    (run : exec step s actions = some final) : I final := by
  induction actions generalizing s with
  | nil =>
      cases run
      exact start
  | cons a rest ih =>
      obtain ⟨first, others⟩ := allowed
      rw [exec_cons, Option.bind_eq_some_iff] at run
      obtain ⟨next, stepIs, restRun⟩ := run
      exact ih (keeps s a next start first stepIs) (others next stepIs) restRun

/-- What every step keeps, every run keeps. -/
theorem exec_keeps_all {step : σ → α → Option σ} {I : σ → Prop}
    (keeps : ∀ s a next, I s → step s a = some next → I next) {actions : List α} {s final : σ}
    (start : I s) (run : exec step s actions = some final) : I final := by
  induction actions generalizing s with
  | nil =>
      cases run
      exact start
  | cons a rest ih =>
      rw [exec_cons, Option.bind_eq_some_iff] at run
      obtain ⟨next, stepIs, restRun⟩ := run
      exact ih (keeps s a next start stepIs) restRun

def guarded [∀ s a, Decidable (ok s a)] (s : σ) (a : α) : Option σ :=
  if ok s a then step s a else none

/-- A run that the refusing step makes is an allowed run. -/
theorem allowed_of_guarded {step : σ → α → Option σ} {ok : σ → α → Prop}
    [∀ s a, Decidable (ok s a)] {actions : List α} {s final : σ}
    (run : exec (guarded step ok) s actions = some final) :
    Allowed step ok s actions ∧ exec step s actions = some final := by
  induction actions generalizing s with
  | nil => exact ⟨trivial, run⟩
  | cons a rest ih =>
      rw [exec_cons, Option.bind_eq_some_iff] at run
      obtain ⟨next, stepIs, restRun⟩ := run
      unfold guarded at stepIs
      split_ifs at stepIs with first
      obtain ⟨restAllowed, restExec⟩ := ih restRun
      refine ⟨⟨first, fun other otherIs => ?_⟩, ?_⟩
      · rw [stepIs, Option.some.injEq] at otherIs
        exact otherIs ▸ restAllowed
      · rw [exec_cons, stepIs]
        exact restExec

theorem getElem?_concat (log : List α) (new : α) (n : Nat) (x : α) :
    (log ++ [new])[n]? = some x ↔ log[n]? = some x ∨ n = log.length ∧ x = new := by
  rcases Nat.lt_trichotomy n log.length with before | rfl | behind
  · rw [List.getElem?_append_left before]
    exact ⟨Or.inl, fun found => found.resolve_right fun last => Nat.ne_of_lt before last.1⟩
  · rw [List.getElem?_concat_length, List.getElem?_eq_none (Nat.le_refl _), Option.some.injEq]
    simp [eq_comm]
  · have outside : (log ++ [new]).length ≤ n := by
      rw [List.length_append]
      exact behind
    rw [List.getElem?_eq_none outside, List.getElem?_eq_none (Nat.le_of_lt behind)]
    simp [Nat.ne_of_gt behind]

end Run
