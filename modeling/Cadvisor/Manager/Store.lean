import Cadvisor.Lib.SortedSeq
import Cadvisor.Model.Container

/-!
# `TimedStore`

The per-container sample buffer: insertion by timestamp, eviction by age after
every push, and window selection by two binary searches.  Whatever the order of
the pushes, the buffer is the stable sort of all of them cut at the age bound
of the newest.
-/

set_option autoImplicit false

namespace Cadvisor

open SortedSeq

structure TimedStore where
  buf : List ContainerStats
  maxAge : StdDuration

namespace TimedStore

def new (maxAge : StdDuration) : TimedStore := ⟨[], maxAge⟩

/-- The eviction loop: the front goes while it is too old and not alone. -/
def evict (cutoff : GoTime) : List ContainerStats → List ContainerStats
  | [] => []
  | [only] => [only]
  | front :: next :: rest =>
      if front.timestamp < cutoff then evict cutoff (next :: rest) else front :: next :: rest

/-- The first half of `push`: a stale sample goes to its place by timestamp. -/
def place (buf : List ContainerStats) (sample : ContainerStats) : List ContainerStats :=
  match buf.getLast? with
  | none => buf ++ [sample]
  | some last =>
      if sample.timestamp < last.timestamp then
        let pos := partitionPoint buf fun s => s.timestamp ≤ sample.timestamp
        buf.take pos ++ sample :: buf.drop pos
      else buf ++ [sample]

/-- `none` is the panic of the date subtraction. -/
def push (store : TimedStore) (sample : ContainerStats) : Option TimedStore :=
  let buf := place store.buf sample
  match buf.getLast? with
  | none => none
  | some newest =>
      match newest.timestamp.sub (store.maxAge.toChrono.getD 0) with
      | none => none
      | some cutoff => some { store with buf := evict cutoff buf }

def pushAll (store : TimedStore) (samples : List ContainerStats) : Option TimedStore :=
  samples.foldlM push store

def latest (store : TimedStore) : Option ContainerStats := store.buf.getLast?

def inRange (store : TimedStore) (start stop : GoTime) (max : Int) : List ContainerStats :=
  if store.buf.isEmpty then []
  else
    let lo := if start.isZero then 0
      else partitionPoint store.buf fun s => s.timestamp < start
    let hi := if stop.isZero then store.buf.length
      else partitionPoint store.buf fun s => s.timestamp ≤ stop
    if hi ≤ lo then []
    else
      let count : Int := (hi - lo : Nat)
      let lo := if 0 ≤ max ∧ max < count then hi - max.toNat else lo
      (store.buf.take hi).drop lo

/-! ## The buffer after a run of pushes -/

theorem place_eq_stableInsert {buf : List ContainerStats}
    (sorted : SortedBy ContainerStats.timestamp buf) (sample : ContainerStats) :
    place buf sample = stableInsert ContainerStats.timestamp sample buf := by
  unfold place
  cases lastIs : buf.getLast? with
  | none =>
      rw [List.getLast?_eq_none_iff] at lastIs
      subst lastIs
      rfl
  | some last =>
      by_cases stale : sample.timestamp < last.timestamp
      · simp only [stale, if_true]
        exact insert_at_partitionPoint ContainerStats.timestamp sample sorted
      · simp only [stale, if_false]
        have lastGreatest : ∀ s ∈ buf, s.timestamp ≤ last.timestamp :=
          fun s member => sorted.le_getLast? lastIs member
        exact (stableInsert_of_le ContainerStats.timestamp sample fun s member =>
          (lastGreatest s member).trans (not_lt.mp stale)).symm

/-- With a sample at or above the cutoff in it, the buffer is never evicted down
to a too old sample: the loop's length guard does not fire. -/
theorem evict_eq_filter {buf : List ContainerStats}
    (sorted : SortedBy ContainerStats.timestamp buf) (cutoff : GoTime)
    (young : ∃ s ∈ buf, cutoff ≤ s.timestamp) :
    evict cutoff buf = buf.filter fun s => cutoff ≤ s.timestamp := by
  induction buf with
  | nil => rfl
  | cons front rest ih =>
      cases rest with
      | nil =>
          obtain ⟨s, member, bound⟩ := young
          rw [List.mem_singleton.mp member] at bound
          simp [evict, bound]
      | cons next rest =>
          rw [evict]
          by_cases old : front.timestamp < cutoff
          · rw [if_pos old, ih (List.Pairwise.of_cons sorted)]
            · simp [not_le.mpr old]
            · obtain ⟨s, member, bound⟩ := young
              rcases List.mem_cons.mp member with rfl | later
              · exact absurd bound (not_le.mpr old)
              · exact ⟨s, later, bound⟩
          · rw [if_neg old, eq_comm, List.filter_eq_self]
            intro s member
            have reach : cutoff ≤ front.timestamp := not_lt.mp old
            rcases List.mem_cons.mp member with rfl | later
            · simpa using reach
            · simpa using reach.trans ((List.pairwise_cons.mp sorted).1 s later)

theorem push_eq (store : TimedStore) (sample : ContainerStats)
    (sorted : SortedBy ContainerStats.timestamp store.buf) {newest cutoff : GoTime}
    (top : IsNewest ContainerStats.timestamp
      (stableInsert ContainerStats.timestamp sample store.buf) newest)
    (bound : newest.sub store.maxAge.nanos = some cutoff) :
    store.push sample = some { store with
      buf := (stableInsert ContainerStats.timestamp sample store.buf).filter
        fun s => cutoff ≤ s.timestamp } := by
  have inserted := stableInsert_sorted ContainerStats.timestamp sample sorted
  obtain ⟨last, lastIs, lastStamp⟩ := inserted.getLast?_of_isNewest top
  have fits := (GoTime.representable_iff _ _).mpr ⟨cutoff, bound⟩
  have below : cutoff ≤ newest := GoTime.sub_le bound (Int.natCast_nonneg _)
  have young : ∃ s ∈ stableInsert ContainerStats.timestamp sample store.buf,
      cutoff ≤ s.timestamp := by
    obtain ⟨holder, member, stamp⟩ := top.exists_holder
    exact ⟨holder, member, stamp ▸ below⟩
  unfold push
  simp only [place_eq_stableInsert sorted, lastIs, lastStamp,
    store.maxAge.toChrono_of_representable newest fits, Option.getD_some, bound,
    evict_eq_filter inserted cutoff young]

/-- The invariant of a run: nothing pushed yet, or the sorted pushes from the
cutoff of the newest on. -/
def Retains (maxAge : StdDuration) (pushed : List ContainerStats) (store : TimedStore) : Prop :=
  store.maxAge = maxAge ∧
    (pushed = [] ∧ store.buf = [] ∨
      ∃ newest cutoff : GoTime,
        IsNewest ContainerStats.timestamp pushed newest ∧
        newest.sub maxAge.nanos = some cutoff ∧
        store.buf = (stableSort ContainerStats.timestamp pushed).filter
          fun s => cutoff ≤ s.timestamp)

theorem retains_push {maxAge : StdDuration} {pushed : List ContainerStats} {store : TimedStore}
    (inv : Retains maxAge pushed store) (sample : ContainerStats)
    (fits : ∀ s ∈ (pushed ++ [sample]).head?, s.timestamp.Representable maxAge.nanos) :
    ∃ next, store.push sample = some next ∧ Retains maxAge (pushed ++ [sample]) next := by
  obtain ⟨age, state⟩ := inv
  rcases state with ⟨rfl, empty⟩ | ⟨old, oldCutoff, oldTop, oldBound, bufIs⟩
  · obtain ⟨cutoff, bound⟩ := (GoTime.representable_iff _ _).mp (fits sample (by simp))
    have top : IsNewest ContainerStats.timestamp [sample] sample.timestamp :=
      isNewest_singleton _ sample
    have inserted : stableInsert ContainerStats.timestamp sample store.buf = [sample] := by
      rw [empty]
      rfl
    have pushIs := push_eq store sample (by rw [empty]; exact List.Pairwise.nil)
      (by rw [inserted]; exact top) (age.symm ▸ bound)
    refine ⟨_, pushIs, age, Or.inr ⟨sample.timestamp, cutoff, top, bound, ?_⟩⟩
    rw [inserted]
    rfl
  · have sortedAll := stableSort_sorted ContainerStats.timestamp pushed
    have sortedBuf : SortedBy ContainerStats.timestamp store.buf := by
      rw [bufIs]
      exact sortedAll.filter _
    have bufTop : IsNewest ContainerStats.timestamp store.buf old := by
      rw [bufIs]
      exact (oldTop.of_mem_iff fun s => mem_stableSort _ _ _).filter_le
        (GoTime.sub_le oldBound (Int.natCast_nonneg _))
    have oldFits := (GoTime.representable_iff _ _).mpr ⟨oldCutoff, oldBound⟩
    obtain ⟨cutoff, bound⟩ := (GoTime.representable_iff _ _).mp
      (oldFits.of_le (le_max_left old sample.timestamp) (Int.natCast_nonneg _))
    have pushIs := push_eq store sample sortedBuf
      (bufTop.insert fun s => mem_stableInsert _ _ _ _) (age.symm ▸ bound)
    refine ⟨_, pushIs, age, Or.inr ⟨max old sample.timestamp, cutoff, ?_, bound, ?_⟩⟩
    · apply oldTop.insert
      intro s
      simp [or_comm]
    · simp only [stableSort_concat, bufIs]
      exact filter_insert_filter_le ContainerStats.timestamp sample sortedAll
        (GoTime.sub_mono oldBound bound (le_max_left old sample.timestamp))

theorem pushAll_retains (maxAge : StdDuration) (samples : List ContainerStats)
    (fits : ∀ s ∈ samples.head?, s.timestamp.Representable maxAge.nanos) :
    ∃ store, (new maxAge).pushAll samples = some store ∧ Retains maxAge samples store := by
  induction samples using List.reverseRecOn with
  | nil => exact ⟨new maxAge, rfl, rfl, Or.inl ⟨rfl, rfl⟩⟩
  | append_singleton samples sample ih =>
      have earlierFits : ∀ s ∈ samples.head?, s.timestamp.Representable maxAge.nanos := by
        intro s head
        apply fits
        cases samples with
        | nil => cases head
        | cons first rest => exact head
      obtain ⟨store, run, inv⟩ := ih earlierFits
      obtain ⟨next, pushIs, nextInv⟩ := retains_push inv sample fits
      refine ⟨next, ?_, nextInv⟩
      unfold pushAll at run ⊢
      rw [List.foldlM_append, run]
      simp [pushIs]

/-! ## The bound in use -/

/-- A duration that chrono cannot hold counts as none. -/
def age (maxAge : StdDuration) : Int := maxAge.toChrono.getD 0

theorem age_nonneg (maxAge : StdDuration) : 0 ≤ age maxAge := by
  unfold age StdDuration.toChrono
  split_ifs
  · exact Int.natCast_nonneg _
  · exact le_refl 0

/-- What every run of pushes that does not panic leaves, whatever the duration. -/
structure Recent (maxAge : StdDuration) (store : TimedStore) : Prop where
  bound : store.maxAge = maxAge
  sorted : SortedBy ContainerStats.timestamp store.buf
  young : ∀ last, store.buf.getLast? = some last →
    ∀ s ∈ store.buf, last.timestamp.nanos - age maxAge ≤ s.timestamp.nanos

theorem recent_new (maxAge : StdDuration) : Recent maxAge (new maxAge) :=
  ⟨rfl, List.Pairwise.nil, fun _ lastIs => by cases lastIs⟩

theorem recent_push {maxAge : StdDuration} {store next : TimedStore} {sample : ContainerStats}
    (recent : Recent maxAge store) (pushed : store.push sample = some next) :
    Recent maxAge next := by
  have inserted := stableInsert_sorted ContainerStats.timestamp sample recent.sorted
  unfold push at pushed
  rw [place_eq_stableInsert recent.sorted, recent.bound] at pushed
  cases lastIs : (stableInsert ContainerStats.timestamp sample store.buf).getLast? with
  | none => simp [lastIs] at pushed
  | some newest =>
      cases cutoffIs : newest.timestamp.sub (maxAge.toChrono.getD 0) with
      | none => simp [lastIs, cutoffIs] at pushed
      | some cutoff =>
          have below : cutoff ≤ newest.timestamp := GoTime.sub_le cutoffIs (age_nonneg maxAge)
          have young : ∃ s ∈ stableInsert ContainerStats.timestamp sample store.buf,
              cutoff ≤ s.timestamp := ⟨newest, List.mem_of_getLast? lastIs, below⟩
          simp only [lastIs, cutoffIs, evict_eq_filter inserted cutoff young,
            Option.some.injEq] at pushed
          subst pushed
          refine ⟨rfl, inserted.filter _, fun last keptLast s kept => ?_⟩
          have lastIn := (List.mem_filter.mp (List.mem_of_getLast? keptLast)).1
          have atMost : last.timestamp.nanos ≤ newest.timestamp.nanos :=
            inserted.le_getLast? lastIs lastIn
          have atLeast : cutoff.nanos ≤ s.timestamp.nanos := by
            simpa [GoTime.le_iff] using (List.mem_filter.mp kept).2
          have cut := (GoTime.sub_eq_some_iff _ _ _).mp cutoffIs
          unfold age
          omega

theorem recent_pushAll {maxAge : StdDuration} {samples : List ContainerStats} {store : TimedStore}
    (run : (new maxAge).pushAll samples = some store) : Recent maxAge store := by
  induction samples using List.reverseRecOn generalizing store with
  | nil =>
      cases run
      exact recent_new maxAge
  | append_singleton samples sample ih =>
      unfold pushAll at run ih
      rw [List.foldlM_append] at run
      obtain ⟨before, earlier, last⟩ := Option.bind_eq_some_iff.mp run
      have pushed : before.push sample = some store := by simpa using last
      exact recent_push (ih earlier) pushed

theorem push_eq_none_of_age {store : TimedStore} (sample : ContainerStats)
    (long : chronoMax - chronoMin < age store.maxAge) : store.push sample = none := by
  unfold push
  dsimp only
  cases (place store.buf sample).getLast? with
  | none => rfl
  | some newest =>
      have fails : newest.timestamp.sub (store.maxAge.toChrono.getD 0) = none := by
        rw [GoTime.sub, dif_neg]
        intro fits
        have low : chronoMin ≤ newest.timestamp.nanos - age store.maxAge := fits.1
        have high := newest.timestamp.notAfter
        omega
      simp only [fails]

theorem buf_eq_nil_of_age {maxAge : StdDuration} {samples : List ContainerStats}
    {store : TimedStore} (long : chronoMax - chronoMin < age maxAge)
    (run : (new maxAge).pushAll samples = some store) : store.buf = [] := by
  cases samples with
  | nil =>
      cases run
      rfl
  | cons sample rest =>
      have fails : (new maxAge).push sample = none := push_eq_none_of_age sample long
      simp [pushAll, fails] at run

/-! ## Window selection -/

def InWindow (start stop t : GoTime) : Prop :=
  (start.isZero = true ∨ start ≤ t) ∧ (stop.isZero = true ∨ t ≤ stop)

instance (start stop t : GoTime) : Decidable (InWindow start stop t) :=
  inferInstanceAs (Decidable (_ ∧ _))

def mostRecent {α : Type} (max : Int) (xs : List α) : List α :=
  if 0 ≤ max then xs.rtake max.toNat else xs

theorem slice_eq_window {buf : List ContainerStats}
    (sorted : SortedBy ContainerStats.timestamp buf) (start stop : GoTime) :
    (buf.take (if stop.isZero then buf.length
        else partitionPoint buf fun s => s.timestamp ≤ stop)).drop
      (if start.isZero then 0 else partitionPoint buf fun s => s.timestamp < start) =
      buf.filter fun s => InWindow start stop s.timestamp := by
  have upper : buf.take (if stop.isZero then buf.length
      else partitionPoint buf fun s => s.timestamp ≤ stop) =
      buf.filter (fun s => stop.isZero || (s.timestamp ≤ stop : Bool)) := by
    by_cases unbounded : stop.isZero = true
    · simp [unbounded]
    · simp only [unbounded, if_false, Bool.false_or, Bool.false_eq_true]
      exact sorted.take_partitionPoint _ (le_closed _ stop)
  rw [upper]
  by_cases unbounded : start.isZero = true
  · simp only [unbounded, if_true, List.drop_zero]
    apply List.filter_congr
    intro s _
    simp [InWindow, unbounded]
  · simp only [unbounded, if_false, Bool.false_eq_true]
    rw [sorted.partitionPoint _ (lt_closed _ start)]
    rw [sorted.drop_filter _ _ (lt_closed _ start), List.filter_filter]
    · apply List.filter_congr
      intro s _
      by_cases early : s.timestamp < start
      · simp [InWindow, unbounded, early, not_le.mpr early]
      · simp [InWindow, unbounded, early, not_lt.mp early]
    · intro a b le pass
      rcases Bool.or_eq_true_iff.mp pass with zeroStop | within
      · simp [zeroStop]
      · simp [le_closed ContainerStats.timestamp stop a b le within]

theorem inRange_eq (store : TimedStore)
    (sorted : SortedBy ContainerStats.timestamp store.buf) (start stop : GoTime) (max : Int) :
    store.inRange start stop max =
      mostRecent max (store.buf.filter fun s => InWindow start stop s.timestamp) := by
  rw [← slice_eq_window sorted start stop]
  unfold inRange mostRecent
  generalize loIs : (if start.isZero then 0
    else partitionPoint store.buf fun s => s.timestamp < start) = lo
  generalize hiIs : (if stop.isZero then store.buf.length
    else partitionPoint store.buf fun s => s.timestamp ≤ stop) = hi
  have hiBound : hi ≤ store.buf.length := by
    rw [← hiIs]
    split
    · exact le_rfl
    · rw [sorted.partitionPoint _ (le_closed _ stop)]
      exact List.length_filter_le ..
  by_cases empty : store.buf.isEmpty
  · have nil : store.buf = [] := by simpa using empty
    simp [nil, List.rtake]
  · simp only [empty, if_false, Bool.false_eq_true]
    have sliceLength : ((store.buf.take hi).drop lo).length = hi - lo := by
      simp only [List.length_drop, List.length_take]
      omega
    by_cases reversed : hi ≤ lo
    · have nil : (store.buf.take hi).drop lo = [] := by
        rw [← List.length_eq_zero_iff, sliceLength]
        omega
      simp [reversed, nil]
    · simp only [reversed, if_false]
      by_cases limited : 0 ≤ max
      · simp only [limited, true_and, if_true, List.rtake, sliceLength]
        by_cases trims : max < ((hi - lo : Nat) : Int)
        · simp only [trims, if_true, List.drop_drop]
          congr 1
          omega
        · have short : hi - lo - max.toNat = 0 := by omega
          simp [trims, short]
      · simp [limited]

theorem inRange_all (store : TimedStore) :
    store.inRange GoTime.zero GoTime.zero (-1) = store.buf := by
  have zero : GoTime.zero.isZero = true := by
    simp [GoTime.isZero]
  unfold inRange
  cases bufIs : store.buf with
  | nil => rfl
  | cons first rest => simp [zero]

/-- After any run of pushes, in any timestamp order, the buffer is the stable
sort of all samples from `maxAge` before the newest on, and a query returns its
window, cut to the most recent `max`.  Only the first push can overflow the
date subtraction: the newest timestamp never moves back. -/
theorem pushAll_closed_form (maxAge : StdDuration) (samples : List ContainerStats)
    (nonempty : samples ≠ [])
    (fits : ∀ s ∈ samples.head?, s.timestamp.Representable maxAge.nanos) :
    ∃ (store : TimedStore) (newest cutoff : GoTime),
      (new maxAge).pushAll samples = some store ∧
      IsNewest ContainerStats.timestamp samples newest ∧
      cutoff.nanos = newest.nanos - maxAge.nanos ∧
      store.buf = (samples.mergeSort fun a b => a.timestamp ≤ b.timestamp).filter
        (fun s => cutoff ≤ s.timestamp) ∧
      ∀ (start stop : GoTime) (max : Int), store.inRange start stop max =
        mostRecent max (store.buf.filter fun s => InWindow start stop s.timestamp) := by
  obtain ⟨store, run, _, state⟩ := pushAll_retains maxAge samples fits
  rcases state with ⟨nil, _⟩ | ⟨newest, cutoff, top, bound, bufIs⟩
  · exact absurd nil nonempty
  · have sorted : SortedBy ContainerStats.timestamp store.buf := by
      rw [bufIs]
      exact (stableSort_sorted _ _).filter _
    refine ⟨store, newest, cutoff, run, top, (GoTime.sub_eq_some_iff _ _ _).mp bound, ?_,
      inRange_eq store sorted⟩
    rw [bufIs, stableSort_eq_mergeSort]

/-- Ten nanoseconds of storage: the stale second sample is filed in front, the
third push evicts both. -/
theorem pushAll_closed_form_late_sample :
    ∃ (store : TimedStore) (cutoff : GoTime),
      (new ⟨10, by decide⟩).pushAll
        [{ timestamp := .sinceEpoch 5 }, { timestamp := .sinceEpoch 0 },
          { timestamp := .sinceEpoch 17 }] = some store ∧
      store.buf = ([{ timestamp := .sinceEpoch 5 }, { timestamp := .sinceEpoch 0 },
        { timestamp := .sinceEpoch 17 }].mergeSort fun a b => a.timestamp ≤ b.timestamp).filter
          (fun s => cutoff ≤ s.timestamp) := by
  obtain ⟨store, newest, cutoff, run, _, _, bufIs, _⟩ :=
    pushAll_closed_form ⟨10, by decide⟩
      [{ timestamp := .sinceEpoch 5 }, { timestamp := .sinceEpoch 0 },
        { timestamp := .sinceEpoch 17 }] (by decide) (by decide)
  exact ⟨store, cutoff, run, bufIs⟩

end TimedStore

end Cadvisor
