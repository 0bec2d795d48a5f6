import Cadvisor.Api.V2
import Cadvisor.Lib.OrderStat
import Mathlib.Data.UInt

/-!
# The v2 summary

Percentiles of what a container's store holds.  The sum behind the mean is a
`u64` and wraps (a build with overflow checks panics instead).  Nothing limits
the samples of the minute to a minute: they are whatever the store retains.
-/

set_option autoImplicit false

namespace Cadvisor.V2

/-- The value whose rank is `percent` of the last rank, rounded down; `none` is
the panic of an index out of range. -/
def pick (sorted : List UInt64) (percent : Nat) : Option UInt64 :=
  sorted[(sorted.length - 1) * percent / 100]?

def percentilesFrom (values : List UInt64) : Option Percentiles :=
  if values.isEmpty then some {}
  else do
    let values := SortedSeq.stableSort UInt64.toNat values
    let n := values.length
    let mean := values.sum / UInt64.ofNat n
    let max ← values[n - 1]?
    let fifty ← pick values 50
    let ninety ← pick values 90
    let ninetyFive ← pick values 95
    some { present := true, mean, max, fifty, ninety, ninetyFive }

/-- The rates in milliCPU per second, each sample against the one in front of it. -/
def cpuRates (samples : List Cadvisor.ContainerStats) : List UInt64 :=
  (samples.zip samples.tail).filterMap fun pair =>
    (instCpu pair.1 pair.2).map fun inst => inst.usage.total / 1000000

def derivedStats (store : TimedStore) (now : GoTime) : Option DerivedStats := do
  let samples := store.inRange GoTime.zero GoTime.zero (-1)
  let mem := samples.map fun s => s.memory.workingSet
  let rates := cpuRates samples
  let latest := samples.getLast?
  let cpu ← percentilesFrom rates
  let memory ← percentilesFrom mem
  let minute : Usage :=
    { percentComplete := if 60 ≤ samples.length then 100 else (samples.length * 100 / 60 : Nat)
      cpu
      memory }
  some
    { timestamp := (latest.map fun s => s.timestamp).getD now
      latestUsage :=
        { cpu := (rates.getLast?).getD 0
          memory := (latest.map fun s => s.memory.workingSet).getD 0 }
      minuteUsage := minute
      hourUsage := {}
      dayUsage := {} }

/-! ## The percentiles -/

/-- What percentiles say of a list: members in order, below the greatest, and
the exact average rounded down. -/
structure Summarises (values : List UInt64) (p : Percentiles) : Prop where
  present : p.present = true
  members : p.fifty ∈ values ∧ p.ninety ∈ values ∧ p.ninetyFive ∈ values ∧ p.max ∈ values
  ordered : p.fifty ≤ p.ninety ∧ p.ninety ≤ p.ninetyFive ∧ p.ninetyFive ≤ p.max
  greatest : ∀ v ∈ values, v ≤ p.max
  least : ∃ min ∈ values, (∀ v ∈ values, min ≤ v) ∧ min ≤ p.fifty ∧ min ≤ p.mean
  average : p.mean.toNat = (values.map UInt64.toNat).sum / values.length
  averageAtMost : p.mean ≤ p.max

theorem toNat_sum (values : List UInt64) :
    values.sum.toNat = (values.map UInt64.toNat).sum % 2 ^ 64 := by
  induction values with
  | nil => rfl
  | cons v rest ih =>
      rw [List.sum_cons, List.map_cons, List.sum_cons, UInt64.toNat_add, ih, Nat.add_mod_mod]

theorem toNat_mean (values : List UInt64) (fits : values.length < 2 ^ 64) :
    (values.sum / UInt64.ofNat values.length).toNat =
      (values.map UInt64.toNat).sum % 2 ^ 64 / values.length := by
  rw [UInt64.toNat_div, toNat_sum, UInt64.toNat_ofNat_of_lt' fits]

theorem sum_sorted (values : List UInt64) :
    (SortedSeq.stableSort UInt64.toNat values).sum = values.sum := by
  apply UInt64.toNat_inj.mp
  rw [toNat_sum, toNat_sum]
  rw [((SortedSeq.stableSort_perm UInt64.toNat values).map UInt64.toNat).sum_nat]

theorem percentilesFrom_eq {values : List UInt64} (nonempty : values ≠ []) :
    ∃ p, percentilesFrom values = some p ∧ p.present = true ∧
      p.mean = values.sum / UInt64.ofNat values.length ∧
      OrderStat.nth UInt64.toNat values (values.length - 1) = some p.max ∧
      OrderStat.nth UInt64.toNat values ((values.length - 1) * 50 / 100) = some p.fifty ∧
      OrderStat.nth UInt64.toNat values ((values.length - 1) * 90 / 100) = some p.ninety ∧
      OrderStat.nth UInt64.toNat values ((values.length - 1) * 95 / 100) = some p.ninetyFive := by
  have positive : 0 < values.length := List.length_pos_iff.mpr nonempty
  have length := OrderStat.length_sorted UInt64.toNat values
  have inside : ∀ percent, percent ≤ 100 → (values.length - 1) * percent / 100 < values.length := by
    intro percent le
    have scaled : (values.length - 1) * percent ≤ (values.length - 1) * 100 :=
      Nat.mul_le_mul_left _ le
    omega
  have last : values.length - 1 < values.length := by omega
  obtain ⟨max, maxIs⟩ := OrderStat.exists_nth UInt64.toNat last
  obtain ⟨fifty, fiftyIs⟩ := OrderStat.exists_nth UInt64.toNat (inside 50 (by omega))
  obtain ⟨ninety, ninetyIs⟩ := OrderStat.exists_nth UInt64.toNat (inside 90 (by omega))
  obtain ⟨ninetyFive, ninetyFiveIs⟩ := OrderStat.exists_nth UInt64.toNat (inside 95 (by omega))
  refine ⟨⟨true, values.sum / UInt64.ofNat values.length, max, fifty, ninety, ninetyFive⟩, ?_, rfl,
    rfl, maxIs, fiftyIs, ninetyIs, ninetyFiveIs⟩
  unfold OrderStat.nth at maxIs fiftyIs ninetyIs ninetyFiveIs
  simp only [percentilesFrom, List.isEmpty_eq_false_iff.mpr nonempty, pick, length, sum_sorted,
    maxIs, fiftyIs, ninetyIs, ninetyFiveIs]
  rfl

theorem percentilesFrom_perm {values other : List UInt64} (perm : other.Perm values) :
    percentilesFrom other = percentilesFrom values := by
  have injective : Function.Injective UInt64.toNat := fun _ _ same => UInt64.toNat_inj.mp same
  have empty : other.isEmpty = values.isEmpty := by
    rw [Bool.eq_iff_iff, List.isEmpty_iff, List.isEmpty_iff]
    constructor
    · rintro rfl
      exact perm.nil_eq.symm
    · rintro rfl
      exact perm.eq_nil
  unfold percentilesFrom
  rw [empty, OrderStat.sorted_eq_of_perm injective perm]

/-- A wrapped sum has another average, for lists a vector can hold. -/
theorem average_wrapped_iff {total n : Nat} (positive : 0 < n) (fits : n < 2 ^ 64) :
    total % 2 ^ 64 / n = total / n ↔ total < 2 ^ 64 := by
  constructor
  · intro same
    by_cases wraps : total < 2 ^ 64
    · exact wraps
    · have room : total % 2 ^ 64 + n ≤ total := by omega
      have above : (total % 2 ^ 64 + n) / n ≤ total / n := Nat.div_le_div_right room
      rw [Nat.add_div_right _ positive] at above
      omega
  · intro small
    rw [Nat.mod_eq_of_lt small]

theorem map_toNat_ne_nil {values : List UInt64} (nonempty : values ≠ []) :
    values.map UInt64.toNat ≠ [] := by
  simpa using nonempty

/-- The percentiles of every list are what they should be, in whatever order it
is, exactly when the sum of the list fits 64 bits. -/
theorem percentilesFrom_right_iff (values : List UInt64) (nonempty : values ≠ [])
    (fits : values.length < 2 ^ 64) :
    (∃ p, percentilesFrom values = some p ∧ Summarises values p ∧
        ∀ other : List UInt64, other.Perm values → percentilesFrom other = some p) ↔
      (values.map UInt64.toNat).sum < 2 ^ 64 := by
  have positive : 0 < values.length := List.length_pos_iff.mpr nonempty
  obtain ⟨p, result, present, meanIs, maxAt, fiftyAt, ninetyAt, ninetyFiveAt⟩ :=
    percentilesFrom_eq nonempty
  have meanNat : p.mean.toNat = (values.map UInt64.toNat).sum % 2 ^ 64 / values.length := by
    rw [meanIs]
    exact toNat_mean values fits
  constructor
  · rintro ⟨other, otherIs, summary, _⟩
    rw [result, Option.some.injEq] at otherIs
    subst other
    have average := summary.average
    rw [meanNat] at average
    exact (average_wrapped_iff positive fits).mp average
  · intro small
    have average : p.mean.toNat = (values.map UInt64.toNat).sum / values.length := by
      rw [meanNat]
      exact (average_wrapped_iff positive fits).mpr small
    have length : (values.map UInt64.toNat).length = values.length := List.length_map ..
    have greatest : ∀ v ∈ values, v ≤ p.max := fun v member =>
      UInt64.le_iff_toNat_le.mpr (OrderStat.le_last maxAt member)
    obtain ⟨min, minAt⟩ := OrderStat.exists_nth UInt64.toNat positive
    have least : ∀ v ∈ values, min ≤ v := fun v member =>
      UInt64.le_iff_toNat_le.mpr (OrderStat.first_le minAt member)
    refine ⟨p, result, ?_, fun other perm => (percentilesFrom_perm perm).trans result⟩
    refine ⟨present, ?_, ?_, greatest, ?_, average, ?_⟩
    · exact ⟨OrderStat.mem_of_nth fiftyAt, OrderStat.mem_of_nth ninetyAt,
        OrderStat.mem_of_nth ninetyFiveAt, OrderStat.mem_of_nth maxAt⟩
    · simp only [UInt64.le_iff_toNat_le]
      exact ⟨OrderStat.nth_mono (by omega) fiftyAt ninetyAt,
        OrderStat.nth_mono (by omega) ninetyAt ninetyFiveAt,
        OrderStat.nth_mono (by omega) ninetyFiveAt maxAt⟩
    · refine ⟨min, OrderStat.mem_of_nth minAt, least, least _ (OrderStat.mem_of_nth fiftyAt), ?_⟩
      rw [UInt64.le_iff_toNat_le, average, ← length]
      apply OrderStat.le_average (map_toNat_ne_nil nonempty)
      intro n member
      obtain ⟨v, vIn, rfl⟩ := List.mem_map.mp member
      exact UInt64.le_iff_toNat_le.mp (least v vIn)
    · rw [UInt64.le_iff_toNat_le, average, ← length]
      apply OrderStat.average_le
      intro n member
      obtain ⟨v, vIn, rfl⟩ := List.mem_map.mp member
      exact UInt64.le_iff_toNat_le.mp (greatest v vIn)

theorem percentilesFrom_right_three :
    (∃ p, percentilesFrom [7, 1, 4] = some p ∧ Summarises [7, 1, 4] p ∧
        ∀ other : List UInt64, other.Perm [7, 1, 4] → percentilesFrom other = some p) ↔
      (([7, 1, 4] : List UInt64).map UInt64.toNat).sum < 2 ^ 64 :=
  percentilesFrom_right_iff [7, 1, 4] (by simp) (by simp)

/-- Two halves of the range: their mean comes out as zero. -/
theorem mean_of_halves_wraps :
    ¬ ∀ values : List UInt64, values ≠ [] → values.length < 2 ^ 64 →
      ∃ p, percentilesFrom values = some p ∧ Summarises values p ∧
        ∀ other : List UInt64, other.Perm values → percentilesFrom other = some p := by
  intro claimed
  obtain ⟨p, result, summary, _⟩ :=
    claimed [9223372036854775808, 9223372036854775808] (by simp) (by simp)
  have computed : percentilesFrom [9223372036854775808, 9223372036854775808] =
      some ⟨true, 0, 9223372036854775808, 9223372036854775808, 9223372036854775808,
        9223372036854775808⟩ := by
    decide +kernel
  rw [computed, Option.some.injEq] at result
  have average := summary.average
  rw [← result] at average
  exact absurd average (by decide)

/-! ## The minute -/

def minute : Int := 60 * nanosPerSecond

def lastMinute (store : TimedStore) : List Cadvisor.ContainerStats :=
  match store.buf.getLast? with
  | none => []
  | some newest => store.buf.filter fun s => newest.timestamp.nanos - minute ≤ s.timestamp.nanos

def minuteMemory (store : TimedStore) (now : GoTime) : Option Percentiles :=
  (derivedStats store now).map fun stats => stats.minuteUsage.memory

/-- Whatever was pushed to two stores, if their last minutes are the same then so
are the memory percentiles of the minute. -/
def MinuteDecides (d e : StdDuration) : Prop :=
  ∀ (first second : List Cadvisor.ContainerStats) (a b : TimedStore),
    (TimedStore.new d).pushAll first = some a → (TimedStore.new e).pushAll second = some b →
      lastMinute a = lastMinute b → ∀ now later, minuteMemory a now = minuteMemory b later

theorem percentilesFrom_isSome (values : List UInt64) : ∃ p, percentilesFrom values = some p := by
  by_cases nonempty : values = []
  · subst nonempty
    exact ⟨{}, rfl⟩
  · obtain ⟨p, result, _⟩ := percentilesFrom_eq nonempty
    exact ⟨p, result⟩

theorem minuteMemory_eq (store : TimedStore) (now : GoTime) :
    minuteMemory store now = percentilesFrom (store.buf.map fun s => s.memory.workingSet) := by
  obtain ⟨cpu, cpuIs⟩ := percentilesFrom_isSome (cpuRates store.buf)
  obtain ⟨memory, memoryIs⟩ :=
    percentilesFrom_isSome (store.buf.map fun s => s.memory.workingSet)
  simp [minuteMemory, derivedStats, TimedStore.inRange_all, cpuIs, memoryIs]

theorem lastMinute_eq_nil {store : TimedStore} (empty : lastMinute store = []) :
    store.buf = [] := by
  unfold lastMinute at empty
  cases lastIs : store.buf.getLast? with
  | none => exact List.getLast?_eq_none_iff.mp lastIs
  | some newest =>
      simp only [lastIs] at empty
      have inside := List.filter_eq_nil_iff.mp empty newest (List.mem_of_getLast? lastIs)
      have positive : 0 ≤ minute := by decide
      simp only [decide_eq_true_eq] at inside
      omega

theorem lastMinute_eq_buf {d : StdDuration} {store : TimedStore}
    (recent : TimedStore.Recent d store) (short : TimedStore.age d ≤ minute) :
    lastMinute store = store.buf := by
  unfold lastMinute
  cases lastIs : store.buf.getLast? with
  | none => exact (List.getLast?_eq_none_iff.mp lastIs).symm
  | some newest =>
      apply List.filter_eq_self.mpr
      intro s member
      have young := recent.young newest lastIs s member
      simp only [decide_eq_true_eq]
      omega

theorem MinuteDecides.symm {d e : StdDuration} (decides : MinuteDecides d e) :
    MinuteDecides e d :=
  fun first second a b runA runB same now later =>
    (decides second first b a runB runA same.symm later now).symm

theorem minuteDecides_of_age {d e : StdDuration} (long : chronoMax - chronoMin < TimedStore.age d) :
    MinuteDecides d e := by
  intro first second a b runA runB same now later
  have emptyA := TimedStore.buf_eq_nil_of_age long runA
  have emptyB : b.buf = [] := by
    apply lastMinute_eq_nil
    rw [← same, lastMinute, emptyA]
    rfl
  rw [minuteMemory_eq, minuteMemory_eq, emptyA, emptyB]

/-! ### Two samples more than a minute apart -/

/-- The last instant there is, and one just over a minute before it. -/
def latestSample : Cadvisor.ContainerStats :=
  { timestamp := ⟨chronoMax, by decide, by decide⟩ }

def earlierSample : Cadvisor.ContainerStats :=
  { timestamp := ⟨chronoMax - minute - 1, by decide, by decide⟩
    memory := { workingSet := 1 } }

theorem cutoff_latest {d : StdDuration} (usable : TimedStore.age d ≤ chronoMax - chronoMin) :
    ∃ cutoff, latestSample.timestamp.sub (d.toChrono.getD 0) = some cutoff ∧
      cutoff.nanos = chronoMax - TimedStore.age d := by
  have forward := TimedStore.age_nonneg d
  refine ⟨⟨chronoMax - TimedStore.age d, by omega, by omega⟩, ?_, rfl⟩
  rw [GoTime.sub_eq_some_iff]
  rfl

theorem pushAll_latest {d : StdDuration} (usable : TimedStore.age d ≤ chronoMax - chronoMin) :
    (TimedStore.new d).pushAll [latestSample] = some ⟨[latestSample], d⟩ := by
  obtain ⟨cutoff, cutoffIs, _⟩ := cutoff_latest usable
  simp [TimedStore.pushAll, TimedStore.push, TimedStore.place, TimedStore.new, cutoffIs,
    TimedStore.evict]

theorem pushAll_latest_earlier {d : StdDuration}
    (usable : TimedStore.age d ≤ chronoMax - chronoMin) (long : minute < TimedStore.age d) :
    (TimedStore.new d).pushAll [latestSample, earlierSample] =
      some ⟨[earlierSample, latestSample], d⟩ := by
  obtain ⟨cutoff, cutoffIs, cutoffNanos⟩ := cutoff_latest usable
  have first := pushAll_latest usable
  have stale : earlierSample.timestamp < latestSample.timestamp := by decide
  have sorted : SortedSeq.SortedBy Cadvisor.ContainerStats.timestamp [latestSample] :=
    List.pairwise_singleton _ _
  have placed : TimedStore.place [latestSample] earlierSample = [earlierSample, latestSample] := by
    rw [TimedStore.place_eq_stableInsert sorted]
    rfl
  have kept : ¬ earlierSample.timestamp < cutoff := by
    rw [not_lt, GoTime.le_iff, cutoffNanos]
    show _ ≤ chronoMax - minute - 1
    omega
  rw [show [latestSample, earlierSample] = [latestSample] ++ [earlierSample] from rfl]
  unfold TimedStore.pushAll at first ⊢
  rw [List.foldlM_append, first]
  simp [TimedStore.push, placed, cutoffIs, TimedStore.evict, kept]

theorem not_minuteDecides {d e : StdDuration} (long : minute < TimedStore.age d)
    (usable : TimedStore.age d ≤ chronoMax - chronoMin)
    (otherUsable : TimedStore.age e ≤ chronoMax - chronoMin) : ¬ MinuteDecides d e := by
  intro decides
  have same : lastMinute ⟨[earlierSample, latestSample], d⟩ =
      lastMinute ⟨[latestSample], e⟩ := rfl
  have equal := decides _ _ _ _ (pushAll_latest_earlier usable long) (pushAll_latest otherUsable)
    same GoTime.zero GoTime.zero
  rw [minuteMemory_eq, minuteMemory_eq] at equal
  have differ : percentilesFrom [1, 0] ≠ percentilesFrom [0] := by decide
  exact differ equal

/-- The minute's memory percentiles depend on the last minute alone exactly when
neither store keeps more than a minute, or one of them can keep nothing at all. -/
theorem minuteDecides_iff (d e : StdDuration) :
    MinuteDecides d e ↔
      TimedStore.age d ≤ minute ∧ TimedStore.age e ≤ minute ∨
        chronoMax - chronoMin < TimedStore.age d ∨ chronoMax - chronoMin < TimedStore.age e := by
  constructor
  · intro decides
    by_cases unusable : chronoMax - chronoMin < TimedStore.age d
    · exact Or.inr (Or.inl unusable)
    · by_cases otherUnusable : chronoMax - chronoMin < TimedStore.age e
      · exact Or.inr (Or.inr otherUnusable)
      · left
        constructor
        · by_contra long
          exact not_minuteDecides (by omega) (by omega) (by omega) decides
        · by_contra long
          exact not_minuteDecides (by omega) (by omega) (by omega) decides.symm
  · rintro (⟨short, otherShort⟩ | unusable | otherUnusable)
    · intro first second a b runA runB same now later
      rw [lastMinute_eq_buf (TimedStore.recent_pushAll runA) short,
        lastMinute_eq_buf (TimedStore.recent_pushAll runB) otherShort] at same
      rw [minuteMemory_eq, minuteMemory_eq, same]
    · exact minuteDecides_of_age unusable
    · exact (minuteDecides_of_age otherUnusable).symm

theorem defaultStorage_bounded : 120 * 1000000000 < 2 ^ 64 * 1000000000 := by decide

/-- Two minutes, the default of `--storage_duration`. -/
def defaultStorage : StdDuration := ⟨120 * 1000000000, defaultStorage_bounded⟩

/-- A sample of an instant in 2026, and one just over a minute before it. -/
def newSample : Cadvisor.ContainerStats :=
  { timestamp := GoTime.sinceEpoch 1767225600000000000 }

def oldSample : Cadvisor.ContainerStats :=
  { timestamp := GoTime.sinceEpoch (1767225600000000000 - 60000000001)
    memory := { workingSet := 1 } }

/-- The older sample counts, although both stores have the same last minute. -/
theorem default_storage_counts_older : ¬ ∀ d e : StdDuration, MinuteDecides d e := by
  intro claimed
  have both : (TimedStore.new defaultStorage).pushAll [oldSample, newSample] =
      some ⟨[oldSample, newSample], defaultStorage⟩ := rfl
  have alone : (TimedStore.new defaultStorage).pushAll [newSample] =
      some ⟨[newSample], defaultStorage⟩ := rfl
  have same : lastMinute ⟨[oldSample, newSample], defaultStorage⟩ =
      lastMinute ⟨[newSample], defaultStorage⟩ := rfl
  have equal := claimed _ _ _ _ _ _ both alone same newSample.timestamp newSample.timestamp
  rw [minuteMemory_eq, minuteMemory_eq] at equal
  have differ : percentilesFrom [1, 0] ≠ percentilesFrom [0] := by decide
  exact differ equal

end Cadvisor.V2
