import Cadvisor.Manager.Store

/-!
# Two storage durations compared

The same samples are pushed into two stores.  A longer duration keeps at least
what a shorter one keeps as long as chrono can hold it and can subtract it.
Above `i64::MAX` milliseconds the store falls back to no duration at all, and
between that and chrono's years the subtraction panics.
-/

set_option autoImplicit false

namespace Cadvisor

open SortedSeq

namespace TimedStore

/-- For all samples of the window, the store of `long` takes them without a
panic and retains what the store of `short` retains. -/
def KeepsAtLeast (lo hi : GoTime) (short long : StdDuration) : Prop :=
  ∀ samples : List ContainerStats, (∀ s ∈ samples, lo ≤ s.timestamp ∧ s.timestamp ≤ hi) →
    ∃ store, (new long).pushAll samples = some store ∧
      ∀ less, (new short).pushAll samples = some less → less.buf.Subperm store.buf

/-- Chrono holds the longer duration and can take it from every instant of the
window; or it does not hold it, and the shorter one is none as well or can be
taken from no instant of the window. -/
def DurationsFit (lo hi : GoTime) (short long : StdDuration) : Prop :=
  if long.toChrono.isSome then lo.Representable long.nanos
  else age short = 0 ∨ ¬ hi.Representable short.nanos

instance (lo hi : GoTime) (short long : StdDuration) : Decidable (DurationsFit lo hi short long) :=
  inferInstanceAs (Decidable (ite ..))

/-! ## What a duration does to a store -/

theorem isSome_toChrono (d : StdDuration) :
    d.toChrono.isSome = true ↔ d.nanos ≤ (2 ^ 63 - 1) * 1000000 := by
  unfold StdDuration.toChrono
  split_ifs with fits
  · exact iff_of_true rfl fits
  · exact iff_of_false nofun fits

theorem age_of_isSome {d : StdDuration} (held : d.toChrono.isSome = true) : age d = d.nanos := by
  rw [age, StdDuration.toChrono, if_pos ((isSome_toChrono d).mp held)]
  rfl

theorem age_of_isNone {d : StdDuration} (tooLong : ¬ d.toChrono.isSome = true) : age d = 0 := by
  rw [age, Option.not_isSome_iff_eq_none.mp tooLong]
  rfl

theorem push_of_age_eq {a b : TimedStore} (sameBuf : a.buf = b.buf)
    (sameAge : age a.maxAge = age b.maxAge) (sample : ContainerStats) :
    (a.push sample).map TimedStore.buf = (b.push sample).map TimedStore.buf := by
  unfold age at sameAge
  unfold push
  rw [sameBuf, sameAge]
  dsimp only
  cases (place b.buf sample).getLast? with
  | none => rfl
  | some newest =>
      dsimp only
      cases newest.timestamp.sub (b.maxAge.toChrono.getD 0) <;> rfl

theorem push_maxAge {store next : TimedStore} {sample : ContainerStats}
    (pushed : store.push sample = some next) : next.maxAge = store.maxAge := by
  unfold push at pushed
  dsimp only at pushed
  split at pushed
  · cases pushed
  · split at pushed
    · cases pushed
    · cases pushed
      rfl

theorem pushAll_of_age_eq {a b final : TimedStore} (sameBuf : a.buf = b.buf)
    (sameAge : age a.maxAge = age b.maxAge) {samples : List ContainerStats}
    (run : a.pushAll samples = some final) :
    ∃ other, b.pushAll samples = some other ∧ final.buf = other.buf := by
  induction samples generalizing a b with
  | nil =>
      cases run
      exact ⟨b, rfl, sameBuf⟩
  | cons sample rest ih =>
      rw [pushAll, List.foldlM_cons] at run
      obtain ⟨next, pushed, others⟩ := Option.bind_eq_some_iff.mp run
      have mapped := push_of_age_eq sameBuf sameAge sample
      rw [pushed] at mapped
      obtain ⟨next', pushed', nextBuf⟩ := Option.map_eq_some_iff.mp mapped.symm
      obtain ⟨other, otherRun, finalBuf⟩ := ih nextBuf.symm
        ((congrArg age (push_maxAge pushed)).trans
          (sameAge.trans (congrArg age (push_maxAge pushed')).symm)) others
      refine ⟨other, ?_, finalBuf⟩
      rw [pushAll, List.foldlM_cons, pushed']
      exact otherRun

theorem pushAll_singleton_isSome {d : StdDuration} {sample : ContainerStats} {store : TimedStore}
    (run : (new d).pushAll [sample] = some store) : sample.timestamp.Representable (age d) := by
  have pushed : (new d).push sample = some store := by
    simpa [pushAll] using run
  unfold push at pushed
  dsimp only [new, place, List.getLast?_nil, List.nil_append, List.getLast?_singleton] at pushed
  rw [GoTime.representable_iff]
  unfold age
  cases cutoff : sample.timestamp.sub (d.toChrono.getD 0) with
  | none =>
      rw [cutoff] at pushed
      cases pushed
  | some c => exact ⟨c, rfl⟩

/-! ## The two runs -/

theorem representable_zero (t : GoTime) : t.Representable 0 := by
  unfold GoTime.Representable
  rw [sub_zero]
  exact ⟨t.notBefore, t.notAfter⟩

/-- A duration without an age keeps the newest samples only, and never panics. -/
theorem pushAll_retains_of_age_eq_zero {d : StdDuration} (ageless : age d = 0)
    (samples : List ContainerStats) :
    ∃ store kept, (new d).pushAll samples = some store ∧ store.buf = kept.buf ∧
      Retains .zero samples kept := by
  obtain ⟨kept, run, retains⟩ := pushAll_retains .zero samples fun s _ => representable_zero _
  have ageZero : age .zero = 0 := by decide
  obtain ⟨store, storeRun, bufIs⟩ :=
    pushAll_of_age_eq (a := new .zero) (b := new d) rfl (ageZero.trans ageless.symm) run
  exact ⟨store, kept, storeRun, bufIs.symm, retains⟩

theorem Retains.subperm {short long : StdDuration} {samples : List ContainerStats}
    {less store : TimedStore} (le : short.nanos ≤ long.nanos) (fewer : Retains short samples less)
    (more : Retains long samples store) : less.buf.Subperm store.buf := by
  obtain ⟨_, fewer⟩ := fewer
  obtain ⟨_, more⟩ := more
  rcases fewer with ⟨_, empty⟩ | ⟨newest, cutoff, top, bound, bufIs⟩
  · rw [empty]
    exact List.nil_subperm
  rcases more with ⟨rfl, _⟩ | ⟨newest', cutoff', top', bound', bufIs'⟩
  · obtain ⟨holder, member, _⟩ := top.exists_holder
    cases member
  · have same : newest = newest' := top.unique top'
    rw [GoTime.sub_eq_some_iff] at bound bound'
    rw [bufIs, bufIs']
    apply List.Sublist.subperm
    apply List.monotone_filter_right
    intro s kept
    have reach : cutoff.nanos ≤ s.timestamp.nanos := by simpa [GoTime.le_iff] using kept
    have earlier : cutoff'.nanos ≤ s.timestamp.nanos := by
      rw [← same] at bound'
      omega
    simpa [GoTime.le_iff] using earlier

theorem representable_of_le {t : GoTime} {short long : Nat} (fits : t.Representable long)
    (le : short ≤ long) : t.Representable short := by
  have low : chronoMin ≤ t.nanos - long := fits.1
  have high := t.notAfter
  exact ⟨by omega, by omega⟩

theorem pushAll_eq_nil {hi : GoTime} {d : StdDuration} (held : d.toChrono.isSome = true)
    (never : ¬ hi.Representable d.nanos) {samples : List ContainerStats}
    (inside : ∀ s ∈ samples, s.timestamp ≤ hi) {store : TimedStore}
    (run : (new d).pushAll samples = some store) : store.buf = [] := by
  cases samples with
  | nil =>
      cases run
      rfl
  | cons first rest =>
      rw [pushAll, List.foldlM_cons] at run
      obtain ⟨middle, pushed, _⟩ := Option.bind_eq_some_iff.mp run
      have alone : (new d).pushAll [first] = some middle := by
        simp [pushAll, pushed]
      have fits := pushAll_singleton_isSome alone
      rw [age_of_isSome held] at fits
      exact absurd (fits.of_le (inside first (List.mem_cons_self ..)) (Int.natCast_nonneg _)) never

theorem keepsAtLeast_of_fit {lo hi : GoTime} {short long : StdDuration}
    (le : short.nanos ≤ long.nanos) (fit : DurationsFit lo hi short long) :
    KeepsAtLeast lo hi short long := by
  intro samples inside
  unfold DurationsFit at fit
  by_cases held : long.toChrono.isSome = true
  · rw [if_pos held] at fit
    have fits : ∀ s ∈ samples.head?, s.timestamp.Representable long.nanos := fun s head =>
      fit.of_le (inside s (List.mem_of_head? head)).1 (Int.natCast_nonneg _)
    obtain ⟨store, run, retains⟩ := pushAll_retains long samples fits
    obtain ⟨less, lessRun, lessRetains⟩ := pushAll_retains short samples fun s head =>
      representable_of_le (fits s head) le
    refine ⟨store, run, fun other otherRun => ?_⟩
    rw [lessRun, Option.some.injEq] at otherRun
    exact otherRun ▸ lessRetains.subperm le retains
  · rw [if_neg held] at fit
    obtain ⟨store, kept, run, bufIs, retains⟩ :=
      pushAll_retains_of_age_eq_zero (age_of_isNone held) samples
    refine ⟨store, run, fun less lessRun => ?_⟩
    by_cases ageless : age short = 0
    · obtain ⟨same, sameRun, lessBuf⟩ := pushAll_of_age_eq (a := new short) (b := new long) rfl
        (ageless.trans (age_of_isNone held).symm) lessRun
      rw [run, Option.some.injEq] at sameRun
      rw [lessBuf, sameRun]
    · have shortHeld : short.toChrono.isSome = true := by
        by_contra tooLong
        exact ageless (age_of_isNone tooLong)
      rw [pushAll_eq_nil shortHeld (fit.resolve_left ageless) (fun s member => (inside s member).2)
        lessRun]
      exact List.nil_subperm

theorem exists_before {lo hi : GoTime} (window : lo < hi) :
    ∃ t : GoTime, t.nanos = hi.nanos - 1 ∧ lo ≤ t := by
  have order : lo.nanos < hi.nanos := window
  have low := lo.notBefore
  have high := hi.notAfter
  refine ⟨⟨hi.nanos - 1, by omega, by omega⟩, rfl, ?_⟩
  rw [GoTime.le_iff]
  dsimp only
  omega

/-- Where the longer duration falls back to none, a shorter one that can be
taken from the end of the window keeps the nanosecond before it. -/
theorem not_keepsAtLeast_of_fallback {lo hi : GoTime} (window : lo < hi)
    {short long : StdDuration} (tooLong : ¬ long.toChrono.isSome = true)
    (aged : age short ≠ 0) (fits : hi.Representable short.nanos) :
    ¬ KeepsAtLeast lo hi short long := by
  intro keeps
  obtain ⟨t, tIs, lowEnough⟩ := exists_before window
  have below : t ≤ hi := by
    rw [GoTime.le_iff]
    omega
  obtain ⟨store, run, all⟩ := keeps [{ timestamp := hi }, { timestamp := t }] (by
    intro s member
    rcases List.mem_cons.mp member with rfl | second
    · exact ⟨window.le, le_rfl⟩
    · rw [List.mem_singleton.mp second]
      exact ⟨lowEnough, below⟩)
  obtain ⟨less, lessRun, _, lessState⟩ :=
    pushAll_retains short [{ timestamp := hi }, { timestamp := t }] (by
      intro s head
      cases head
      exact fits)
  obtain ⟨same, kept, sameRun, bufIs, _, state⟩ :=
    pushAll_retains_of_age_eq_zero (age_of_isNone tooLong) [{ timestamp := hi }, { timestamp := t }]
  rw [run, Option.some.injEq] at sameRun
  have top : IsNewest ContainerStats.timestamp
      [{ timestamp := hi }, { timestamp := t }] hi := by
    refine isNewest_of_holder (x := ({ timestamp := hi } : ContainerStats))
      (List.mem_cons_self ..) ?_
    intro s member
    rcases List.mem_cons.mp member with rfl | second
    · exact le_rfl
    · rw [List.mem_singleton.mp second]
      exact below
  have positive : 0 < short.nanos := by
    rcases Nat.eq_zero_or_pos short.nanos with zero | positive
    · have held : short.toChrono.isSome = true := by
        rw [isSome_toChrono, zero]
        exact Nat.zero_le _
      exact absurd ((age_of_isSome held).trans (by rw [zero]; rfl)) aged
    · exact positive
  have inLess : ({ timestamp := t } : ContainerStats) ∈ less.buf := by
    rcases lessState with ⟨impossible, _⟩ | ⟨newest, cutoff, isTop, bound, lessBuf⟩
    · cases impossible
    · rw [← top.unique isTop, GoTime.sub_eq_some_iff] at bound
      rw [lessBuf, List.mem_filter, mem_stableSort]
      refine ⟨by simp, ?_⟩
      rw [decide_eq_true_eq, GoTime.le_iff]
      dsimp only
      omega
  have inStore := (all less lessRun).subset inLess
  rw [sameRun, bufIs] at inStore
  rcases state with ⟨impossible, _⟩ | ⟨newest, cutoff, isTop, bound, keptBuf⟩
  · cases impossible
  · rw [← top.unique isTop, GoTime.sub_eq_some_iff] at bound
    rw [keptBuf, List.mem_filter, decide_eq_true_eq, GoTime.le_iff] at inStore
    have late := inStore.2
    dsimp only [StdDuration.zero] at late bound
    omega

/-- For durations with `short ≤ long`, the longer one takes every sequence of
samples of a window and keeps what the shorter one keeps exactly if chrono
holds it and can take it from the window's first instant, or does not hold it
and the shorter one keeps the newest samples only or nothing. -/
theorem keepsAtLeast_iff {lo hi : GoTime} (window : lo < hi) {short long : StdDuration}
    (le : short.nanos ≤ long.nanos) :
    KeepsAtLeast lo hi short long ↔ DurationsFit lo hi short long := by
  refine ⟨fun keeps => ?_, keepsAtLeast_of_fit le⟩
  unfold DurationsFit
  by_cases held : long.toChrono.isSome = true
  · rw [if_pos held]
    obtain ⟨store, run, _⟩ := keeps [{ timestamp := lo }]
      (List.forall_mem_singleton.mpr ⟨le_rfl, window.le⟩)
    have fits := pushAll_singleton_isSome run
    rw [age_of_isSome held] at fits
    exact fits
  · rw [if_neg held]
    by_contra neither
    rw [not_or, not_not] at neither
    exact not_keepsAtLeast_of_fallback window held neither.1 neither.2 keeps

/-- The first instants of 2024 and of 2100. -/
def presentDay : GoTime × GoTime :=
  (.sinceEpoch 1704067200000000000, .sinceEpoch 4102444800000000000)

def twoMinutes : StdDuration := ⟨2 * 60 * 1000000000, by decide⟩

theorem hour_keeps_two_minutes :
    KeepsAtLeast presentDay.1 presentDay.2 twoMinutes ⟨3600 * 1000000000, by decide⟩ :=
  (keepsAtLeast_iff (by decide) (by decide)).mpr (by decide)

/-- Three hundred million years are more than chrono holds. -/
theorem longer_keeps_less :
    ¬ ∀ short long : StdDuration, short.nanos ≤ long.nanos →
      KeepsAtLeast presentDay.1 presentDay.2 short long := by
  intro claimed
  have keeps := claimed twoMinutes ⟨9467085600000000 * 1000000000, by decide⟩ (by decide)
  exact not_keepsAtLeast_of_fallback (by decide) (by decide) (by decide) (by decide) keeps

end TimedStore

end Cadvisor
