import Cadvisor.Lib.Polling
import Cadvisor.Manager.Housekeeping

/-!
# The intervals of dynamic housekeeping

The loop clamps the doubled interval to the configured maximum and never looks
whether the maximum is below the base interval.
-/

set_option autoImplicit false

namespace Cadvisor

namespace Housekeeping

open Backoff (Outcome Steady Within)

def outcome (cfg : HousekeepingConfig) (s : Housekeeping) (r : Round) : Outcome :=
  match (s.slowPath r).sample cfg r with
  | .error _ => .failed
  | .ok (stats, _) => if unchanged s.prev stats then .unchanged else .changed

theorem slowPath_prev (s : Housekeeping) (r : Round) : (s.slowPath r).prev = s.prev := by
  unfold slowPath
  split_ifs <;> rfl

theorem slowPath_interval (s : Housekeeping) (r : Round) :
    (s.slowPath r).interval = s.interval := by
  unfold slowPath
  split_ifs <;> rfl

theorem nextInterval_eq {cfg : HousekeepingConfig} {s : Housekeeping} {stats : ContainerStats}
    {interval : Nat} (dynamic : cfg.allowDynamicHousekeeping = true)
    (chosen : nextInterval cfg s stats = some interval) :
    interval = Backoff.next (· * 2) cfg.housekeepingInterval cfg.maxHousekeepingInterval s.interval
      (if unchanged s.prev stats then .unchanged else .changed) := by
  unfold nextInterval at chosen
  rw [if_pos dynamic] at chosen
  by_cases idle : unchanged s.prev stats = true
  · rw [if_pos idle] at chosen ⊢
    unfold doubled at chosen
    by_cases fits : s.interval * 2 < 2 ^ 64 * 1000000000
    · rw [if_pos fits] at chosen
      exact (Option.some.inj chosen).symm
    · rw [if_neg fits] at chosen
      cases chosen
  · rw [if_neg idle] at chosen ⊢
    exact (Option.some.inj chosen).symm

theorem keepSample_running {cfg : HousekeepingConfig} {s : Housekeeping} {r : Round}
    {stats : ContainerStats} (runs : (keepSample cfg s r stats).status = .running) :
    nextInterval cfg s stats = some (keepSample cfg s r stats).interval := by
  unfold keepSample at runs ⊢
  cases oom : recordOom s r stats with
  | none => simp [oom] at runs
  | some events =>
      simp only [oom] at runs ⊢
      cases chosen : nextInterval cfg s stats with
      | none => simp [chosen] at runs
      | some interval =>
          simp only [chosen] at runs ⊢
          cases pushed : s.handle.store.push stats with
          | none => simp [pushed] at runs
          | some store => rfl

theorem step_interval {cfg : HousekeepingConfig} {s : Housekeeping} {r : Round}
    (dynamic : cfg.allowDynamicHousekeeping = true)
    (runs : (step cfg s r).status = .running) :
    s.status = .running ∧
      (step cfg s r).interval =
        Backoff.next (· * 2) cfg.housekeepingInterval cfg.maxHousekeepingInterval s.interval
          (outcome cfg s r) := by
  by_cases before : s.status = .running
  · refine ⟨before, ?_⟩
    unfold step at runs ⊢
    simp only [before, ne_eq, not_true_eq_false, if_false] at runs ⊢
    unfold outcome
    cases sampled : (s.slowPath r).sample cfg r with
    | error e =>
        simp only [sampled] at runs ⊢
        split_ifs at runs ⊢
        exact slowPath_interval s r
    | ok result =>
        obtain ⟨stats, disks⟩ := result
        simp only [sampled] at runs ⊢
        rw [nextInterval_eq dynamic (keepSample_running runs)]
        dsimp only
        rw [slowPath_prev, slowPath_interval]
  · rw [step_stopped cfg r before] at runs
    exact absurd runs before

/-! ## Runs -/

def SleepsSteadily (cfg : HousekeepingConfig) (s : Housekeeping) (rounds : List Round) : Prop :=
  ∀ before r after, rounds = before ++ r :: after →
    (run cfg s (before ++ [r])).status = .running →
      Steady cfg.housekeepingInterval cfg.maxHousekeepingInterval (run cfg s before).interval
        (run cfg s (before ++ [r])).interval (outcome cfg (run cfg s before) r)

/-- No sample that the loop goes on from is as the one before it. -/
def NeverIdle (cfg : HousekeepingConfig) (s : Housekeeping) (rounds : List Round) : Prop :=
  ∀ before r after, rounds = before ++ r :: after →
    (run cfg s (before ++ [r])).status = .running →
      outcome cfg (run cfg s before) r ≠ .unchanged

theorem within_concat {cfg : HousekeepingConfig} {s : Housekeeping}
    (dynamic : cfg.allowDynamicHousekeeping = true) (before : List Round) (r : Round)
    (earlier : (run cfg s before).status = .running →
      Within cfg.housekeepingInterval cfg.maxHousekeepingInterval (run cfg s before).interval)
    (allowed : cfg.housekeepingInterval ≤ cfg.maxHousekeepingInterval ∨
      outcome cfg (run cfg s before) r ≠ .unchanged)
    (runs : (run cfg s (before ++ [r])).status = .running) :
    Steady cfg.housekeepingInterval cfg.maxHousekeepingInterval (run cfg s before).interval
      (run cfg s (before ++ [r])).interval (outcome cfg (run cfg s before) r) := by
  rw [run_concat] at runs ⊢
  obtain ⟨ran, intervalIs⟩ := step_interval dynamic runs
  rw [intervalIs]
  rcases allowed with le | ne
  · exact Backoff.next_steady (fun t => by omega) le (earlier ran) _
  · exact Backoff.next_steady_of_ne (earlier ran) ne

/-- As long as every round is allowed, every interval is between the bounds. -/
theorem run_within {cfg : HousekeepingConfig} {s : Housekeeping}
    (dynamic : cfg.allowDynamicHousekeeping = true) (fresh : s.interval = cfg.housekeepingInterval)
    (rounds : List Round)
    (allowed : cfg.housekeepingInterval ≤ cfg.maxHousekeepingInterval ∨ NeverIdle cfg s rounds)
    (runs : (run cfg s rounds).status = .running) :
    Within cfg.housekeepingInterval cfg.maxHousekeepingInterval (run cfg s rounds).interval := by
  induction rounds using List.reverseRecOn with
  | nil =>
      rw [show (run cfg s []).interval = cfg.housekeepingInterval from fresh]
      exact Backoff.within_base ..
  | append_singleton rounds r ih =>
      have shorter : NeverIdle cfg s (rounds ++ [r]) → NeverIdle cfg s rounds :=
        fun never before x after split => never before x (after ++ [r]) (by simp [split])
      have last : NeverIdle cfg s (rounds ++ [r]) →
          outcome cfg (run cfg s rounds) r ≠ .unchanged :=
        fun never => never rounds r [] rfl runs
      exact (within_concat dynamic rounds r (ih (allowed.imp_right shorter))
        (allowed.imp_right last) runs).within

/-- With dynamic housekeeping the intervals of a run stay between the base and
the larger of base and maximum, return to the base after a change and rise
otherwise, exactly when the maximum is not below the base or the run has no
unchanged sample. -/
theorem dynamic_intervals_iff (cfg : HousekeepingConfig)
    (dynamic : cfg.allowDynamicHousekeeping = true) (handle : ContainerHandle)
    (disks : DiskState) (events : EventStore) (rounds : List Round) :
    SleepsSteadily cfg (start cfg handle disks events) rounds ↔
      cfg.housekeepingInterval ≤ cfg.maxHousekeepingInterval ∨
        NeverIdle cfg (start cfg handle disks events) rounds := by
  constructor
  · intro steady
    by_cases le : cfg.housekeepingInterval ≤ cfg.maxHousekeepingInterval
    · exact Or.inl le
    · refine Or.inr fun before r after split runs idle => ?_
      have slept := steady before r after split runs
      have stepRuns := runs
      rw [run_concat] at slept stepRuns
      rw [(step_interval dynamic stepRuns).2, idle] at slept
      exact Backoff.not_steady_of_lt (· * 2) _ (Nat.lt_of_not_le le) slept
  · intro allowed before r after split runs
    have prefixNever : NeverIdle cfg (start cfg handle disks events) rounds →
        NeverIdle cfg (start cfg handle disks events) before :=
      fun never first x rest inner => never first x (rest ++ r :: after) (by simp [split, inner])
    exact within_concat dynamic before r
      (run_within dynamic rfl before (allowed.imp_right prefixNever))
      (allowed.imp_right fun never => never before r after split runs) runs

def shortMaximum : HousekeepingConfig := ⟨1000000000, 500000000, true, []⟩

theorem dynamic_intervals_reversed :
    SleepsSteadily shortMaximum (start shortMaximum plainStart.handle plainStart.disks
        plainStart.events) [plainRound (some usedDir)] ↔
      shortMaximum.housekeepingInterval ≤ shortMaximum.maxHousekeepingInterval ∨
        NeverIdle shortMaximum (start shortMaximum plainStart.handle plainStart.disks
          plainStart.events) [plainRound (some usedDir)] :=
  dynamic_intervals_iff shortMaximum rfl plainStart.handle plainStart.disks plainStart.events
    [plainRound (some usedDir)]

/-- Two equal samples: the idle container is then sampled twice a second, the
busy one once. -/
theorem idle_sampled_more_often :
    ¬ ∀ (cfg : HousekeepingConfig), cfg.allowDynamicHousekeeping = true →
      ∀ (handle : ContainerHandle) (disks : DiskState) (events : EventStore)
        (rounds : List Round),
        SleepsSteadily cfg (start cfg handle disks events) rounds := by
  intro claimed
  have steady := claimed shortMaximum rfl plainStart.handle plainStart.disks plainStart.events
    [plainRound (some usedDir), plainRound (some usedDir)] [plainRound (some usedDir)]
    (plainRound (some usedDir)) [] rfl (by decide +kernel)
  have slept : (run shortMaximum (start shortMaximum plainStart.handle plainStart.disks
      plainStart.events) ([plainRound (some usedDir)] ++ [plainRound (some usedDir)])).interval =
        500000000 := by
    decide +kernel
  have least := steady.within.1
  rw [slept] at least
  exact absurd least (by decide)

end Housekeeping

end Cadvisor
