import Cadvisor.Suite.Client

/-!
# Checks that ask again

The check of housekeeping reads the root's samples twice, three seconds apart.  What it
says of a server depends on what was pushed by the first read and by the second.
-/

set_option autoImplicit false

namespace Cadvisor

open SortedSeq

namespace Checks

open Cad

/-- How the check ends.  The milliseconds are from the newest sample of the first read to that
of the second. -/
inductive HousekeepingOutcome where
  | failed (e : Failure)
  | few (samples : Nat)
  | noNew
  | backwards (first second : Stat)
  | pass (samples : Nat) (ms : Int)

def notAfter : Option Int → Option Int → Bool
  | none, _ => true
  | some _, none => false
  | some y, some x => y ≤ x

def isBackwards (pair : Stat × Stat) : Bool :=
  pair.2.ts ≤ pair.1.ts ∨ pair.2.cpuTotal < pair.1.cpuTotal

/-- What the samples of two reads say; `none` is the panic of unwrapping no newest sample. -/
def judge (a b : List Stat) : Option HousekeepingOutcome :=
  if b.length < 2 then some (.few b.length)
  else if notAfter (b.getLast?.map Stat.ts) (a.getLast?.map Stat.ts) then some .noNew
  else
    match (b.zip b.tail).find? isBackwards with
    | some pair => some (.backwards pair.1 pair.2)
    | none =>
        match b.getLast?, a.getLast? with
        | some y, some x => some (.pass b.length ((y.ts - x.ts).tdiv 1000000))
        | _, _ => none

/-- `none` is a panic. -/
def housekeeping (parse : String → Option Value) (first second : Fetch) :
    Option HousekeepingOutcome :=
  match stats parse first "/" 64 with
  | none => none
  | some (.error e) => some (.failed e)
  | some (.ok a) =>
      match stats parse second "/" 64 with
      | none => none
      | some (.error e) => some (.failed e)
      | some (.ok b) => judge a b

/-! ## In order -/

def Steady (samples : List Stat) : Prop :=
  samples.Pairwise fun a b => a.ts < b.ts ∧ a.cpuTotal ≤ b.cpuTotal

theorem find_isBackwards_eq_none (samples : List Stat) :
    (samples.zip samples.tail).find? isBackwards = none ↔ Steady samples := by
  let ordered (a b : Stat) : Prop := a.ts < b.ts ∧ a.cpuTotal ≤ b.cpuTotal
  have trans : ∀ {a b c : Stat}, ordered a b → ordered b c → ordered a c := fun ab bc =>
    ⟨ab.1.trans bc.1, UInt64.le_trans ab.2 bc.2⟩
  have neighbours : (samples.zip samples.tail).find? isBackwards = none ↔
      samples.IsChain ordered := by
    induction samples with
    | nil => simp
    | cons a rest ih =>
        cases rest with
        | nil => simp
        | cons b rest =>
            rw [List.isChain_cons_cons, ← ih, List.tail_cons, List.tail_cons, List.zip_cons_cons,
              List.find?_eq_none, List.find?_eq_none, List.forall_mem_cons]
            simp [isBackwards, ordered]
  have : IsTrans Stat ordered := ⟨fun _ _ _ => trans⟩
  rw [neighbours, List.isChain_iff_pairwise]
  rfl

def Advanced (a b : List Stat) : Prop :=
  2 ≤ b.length ∧ notAfter (b.getLast?.map Stat.ts) (a.getLast?.map Stat.ts) = false ∧ Steady b

theorem judge_of_advanced {a b : List Stat} (advanced : Advanced a b) :
    (a = [] ∧ judge a b = none) ∨
      (a ≠ [] ∧ ∃ ms, judge a b = some (.pass b.length ms)) := by
  obtain ⟨enough, later, steady⟩ := advanced
  unfold judge
  rw [if_neg (by omega), later, if_neg Bool.false_ne_true,
    (find_isBackwards_eq_none b).mpr steady]
  dsimp only
  cases last : b.getLast? with
  | none =>
      rw [List.getLast?_eq_none_iff.mp last] at enough
      cases enough
  | some y =>
      cases a using List.reverseRecOn with
      | nil => exact Or.inl ⟨rfl, rfl⟩
      | append_singleton front x =>
          rw [List.getLast?_concat]
          exact Or.inr ⟨List.concat_ne_nil _ _, _, rfl⟩

theorem judge_of_not_advanced {a b : List Stat} (stuck : ¬ Advanced a b) :
    ∃ outcome, judge a b = some outcome ∧ ∀ n ms, outcome ≠ .pass n ms := by
  unfold judge
  split_ifs with few late
  · exact ⟨_, rfl, fun _ _ same => by cases same⟩
  · exact ⟨_, rfl, fun _ _ same => by cases same⟩
  · cases unordered : (b.zip b.tail).find? isBackwards with
    | some pair => exact ⟨_, rfl, fun _ _ same => by cases same⟩
    | none =>
        have steady := (find_isBackwards_eq_none b).mp unordered
        exact absurd ⟨by omega, by simpa using late, steady⟩ stuck

theorem judge_passes_iff (a b : List Stat) :
    (∃ n ms, judge a b = some (.pass n ms)) ↔ a ≠ [] ∧ Advanced a b := by
  by_cases advanced : Advanced a b
  · rcases judge_of_advanced advanced with ⟨rfl, panics⟩ | ⟨given, passes⟩
    · simp [panics]
    · exact iff_of_true ⟨_, passes⟩ ⟨given, advanced⟩
  · obtain ⟨outcome, isOutcome, fails⟩ := judge_of_not_advanced advanced
    refine iff_of_false ?_ fun both => advanced both.2
    rintro ⟨n, ms, passes⟩
    exact fails n ms (Option.some.inj (isOutcome.symm.trans passes))

theorem judge_panics_iff (a b : List Stat) : judge a b = none ↔ a = [] ∧ Advanced a b := by
  by_cases advanced : Advanced a b
  · rcases judge_of_advanced advanced with ⟨empty, panics⟩ | ⟨given, ms, passes⟩
    · exact iff_of_true panics ⟨empty, advanced⟩
    · simp [given, passes]
  · obtain ⟨outcome, isOutcome, _⟩ := judge_of_not_advanced advanced
    simp [isOutcome, advanced]

/-! ## Two reads of a server -/

/-- The samples of the last minute or so that the API hands out. -/
def lastRead (maxAge : StdDuration) (samples : List ContainerStats) : List ContainerStats :=
  (keptSamples maxAge samples).rtake 64

theorem isNewest_keptSamples (maxAge : StdDuration) {samples : List ContainerStats}
    {newest : GoTime} (top : IsNewest ContainerStats.timestamp samples newest) :
    IsNewest ContainerStats.timestamp (keptSamples maxAge samples) newest := by
  obtain ⟨last, member, isNewest⟩ := List.mem_map.mp top.1
  constructor
  · refine List.mem_map.mpr
      ⟨last, List.mem_filter.mpr ⟨List.mem_mergeSort.mpr member, ?_⟩, isNewest⟩
    refine List.all_eq_true.mpr fun newer inSamples => decide_eq_true ?_
    have below := (GoTime.le_iff _ _).mp (top.2 (List.mem_map_of_mem inSamples))
    rw [isNewest]
    omega
  · rintro time inKept
    obtain ⟨s, isKept, rfl⟩ := List.mem_map.mp inKept
    exact top.2 (List.mem_map_of_mem (mem_of_mem_keptSamples isKept))

theorem lastRead_newest (maxAge : StdDuration) {samples : List ContainerStats} {newest : GoTime}
    (top : IsNewest ContainerStats.timestamp samples newest) (spec : ContainerSpec) :
    ((lastRead maxAge samples).map (Stat.of spec)).getLast?.map Stat.ts = some newest.nanos := by
  have sorted := keptSamples_sorted maxAge samples
  have inRead := (isNewest_keptSamples maxAge top).rtake sorted (by decide : 0 < 64)
  have sortedRead : SortedBy ContainerStats.timestamp (lastRead maxAge samples) :=
    sorted.sublist (List.drop_sublist _ _)
  obtain ⟨last, isLast, lastKey⟩ := sortedRead.getLast?_of_isNewest inRead
  rw [List.getLast?_map, isLast, Option.map_some, Option.map_some, ← lastKey]
  rfl

theorem lastRead_eq_nil {maxAge : StdDuration} {samples : List ContainerStats} :
    lastRead maxAge samples = [] ↔ samples = [] := by
  constructor
  · intro empty
    by_contra given
    obtain ⟨newest, top⟩ := exists_newest ContainerStats.timestamp given
    have last := lastRead_newest maxAge top {}
    rw [empty] at last
    cases last
  · rintro rfl
    simp [lastRead, keptSamples]

theorem notAfter_lastRead (maxAge : StdDuration) (before after : List ContainerStats)
    (spec spec' : ContainerSpec) :
    notAfter (((lastRead maxAge (before ++ after)).map (Stat.of spec')).getLast?.map Stat.ts)
        (((lastRead maxAge before).map (Stat.of spec)).getLast?.map Stat.ts) = false ↔
      ∃ y ∈ after, ∀ x ∈ before, x.timestamp < y.timestamp := by
  by_cases none : before ++ after = []
  · obtain ⟨rfl, rfl⟩ := List.append_eq_nil_iff.mp none
    rw [List.append_nil, lastRead_eq_nil.mpr rfl]
    simp [notAfter]
  obtain ⟨newest, top⟩ := exists_newest ContainerStats.timestamp none
  rw [lastRead_newest maxAge top]
  by_cases noneBefore : before = []
  · subst noneBefore
    obtain ⟨y, inAfter, _⟩ := top.exists_holder
    rw [lastRead_eq_nil.mpr rfl]
    exact iff_of_true rfl ⟨y, inAfter, fun x inNone => absurd inNone List.not_mem_nil⟩
  obtain ⟨old, oldTop⟩ := exists_newest ContainerStats.timestamp noneBefore
  rw [lastRead_newest maxAge oldTop, notAfter, decide_eq_false_iff_not, not_le]
  constructor
  · intro later
    obtain ⟨y, member, rfl⟩ := top.exists_holder
    rcases List.mem_append.mp member with inBefore | inAfter
    · have below := (GoTime.le_iff _ _).mp (oldTop.le inBefore)
      omega
    · exact ⟨y, inAfter, fun x inBefore => (oldTop.le inBefore).trans_lt later⟩
  · rintro ⟨y, inAfter, above⟩
    obtain ⟨x, inBefore, rfl⟩ := oldTop.exists_holder
    exact (above x inBefore).trans_le (top.le (List.mem_append_right _ inAfter))

section

variable {percentDecode : String → Option String} {w : PayloadText}
  {format : String → GoTime → String} {t t' : ApiText} {server server' : Server}
  {host host' : Host}

theorem housekeeping_judges (decodes : Decodes percentDecode)
    (prints : PrintsTimes w.toWireText format) (parse : String → Option Value)
    {h h' : ContainerHandle} (registered : server.manager.handle "/" = some h)
    (registered' : server'.manager.handle "/" = some h') {maxAge : StdDuration}
    {before after : List ContainerStats}
    (fits : ∀ s ∈ (before ++ after).head?, s.timestamp.Representable maxAge.nanos)
    (pushed : (TimedStore.new maxAge).pushAll before = some h.store)
    (pushed' : (TimedStore.new maxAge).pushAll (before ++ after) = some h'.store)
    (years : ∀ s ∈ before ++ after, s.timestamp ∈ GoTime.fourDigitYears) :
    housekeeping parse (serve percentDecode t w server host)
        (serve percentDecode t' w server' host') =
      judge ((lastRead maxAge before).map (Stat.of h.spec))
        ((lastRead maxAge (before ++ after)).map (Stat.of h'.spec)) := by
  have root : WellNamed "/" := ⟨[], List.forall_mem_nil _, rfl⟩
  have read : ∀ {t : ApiText} {server : Server} {host : Host} {h : ContainerHandle}
      {samples : List ContainerStats}, server.manager.handle "/" = some h →
      (∀ s ∈ samples.head?, s.timestamp.Representable maxAge.nanos) →
      (TimedStore.new maxAge).pushAll samples = some h.store →
      (∀ s ∈ samples, s.timestamp ∈ GoTime.fourDigitYears) →
      stats parse (serve percentDecode t w server host) "/" 64 =
        some (.ok ((lastRead maxAge samples).map (Stat.of h.spec))) := by
    intro t server host h samples registered fits pushed years
    obtain ⟨store, run, retains⟩ := TimedStore.pushAll_retains maxAge samples fits
    cases Option.some.inj (run.symm.trans pushed)
    have bufIs := buf_of_retains retains
    have served := @stats_served _ t _ _ _ host decodes prints parse _ root _ registered
      (bufIs ▸ keptSamples_sorted maxAge samples)
      (fun s member => years s (mem_of_mem_keptSamples (bufIs ▸ member))) 64
    rw [served, bufIs]
    rfl
  have fitsBefore : ∀ s ∈ before.head?, s.timestamp.Representable maxAge.nanos := by
    intro s head
    refine fits s ?_
    rw [List.head?_append, Option.mem_def.mp head]
    rfl
  unfold housekeeping
  rw [read registered fitsBefore pushed fun s member => years s (List.mem_append_left _ member),
    read registered' fits pushed' years]

/-- The check passes when there are samples before it, it sees two or more, one of those
between is the newest, and all it sees are in order.  Where the samples before are missing it
panics instead. -/
theorem housekeeping_of_pushes (decodes : Decodes percentDecode)
    (prints : PrintsTimes w.toWireText format) (parse : String → Option Value)
    {h h' : ContainerHandle} (registered : server.manager.handle "/" = some h)
    (registered' : server'.manager.handle "/" = some h') {maxAge : StdDuration}
    {before after : List ContainerStats}
    (fits : ∀ s ∈ (before ++ after).head?, s.timestamp.Representable maxAge.nanos)
    (pushed : (TimedStore.new maxAge).pushAll before = some h.store)
    (pushed' : (TimedStore.new maxAge).pushAll (before ++ after) = some h'.store)
    (years : ∀ s ∈ before ++ after, s.timestamp ∈ GoTime.fourDigitYears) :
    let outcome := housekeeping parse (serve percentDecode t w server host)
      (serve percentDecode t' w server' host')
    let seen := (lastRead maxAge (before ++ after)).map (Stat.of h'.spec)
    ((∃ n ms, outcome = some (.pass n ms)) ↔
        before ≠ [] ∧ 2 ≤ seen.length ∧
          (∃ y ∈ after, ∀ x ∈ before, x.timestamp < y.timestamp) ∧ Steady seen) ∧
      (outcome = none ↔ before = [] ∧ 2 ≤ seen.length ∧ Steady seen) := by
  intro outcome seen
  have judged : outcome = judge ((lastRead maxAge before).map (Stat.of h.spec)) seen :=
    housekeeping_judges decodes prints parse registered registered' fits pushed pushed' years
  have advanced : Advanced ((lastRead maxAge before).map (Stat.of h.spec)) seen ↔
      2 ≤ seen.length ∧ (∃ y ∈ after, ∀ x ∈ before, x.timestamp < y.timestamp) ∧
        Steady seen := by
    rw [Advanced, notAfter_lastRead]
  have noneRead : (lastRead maxAge before).map (Stat.of h.spec) = [] ↔ before = [] := by
    rw [List.map_eq_nil_iff, lastRead_eq_nil]
  constructor
  · rw [judged, judge_passes_iff, advanced, ne_eq, noneRead]
  · rw [judged, judge_panics_iff, advanced, noneRead]
    constructor
    · rintro ⟨empty, enough, _, steady⟩
      exact ⟨empty, enough, steady⟩
    · rintro ⟨rfl, enough, steady⟩
      refine ⟨rfl, enough, ?_, steady⟩
      have given : after ≠ [] := by
        rintro rfl
        have none : seen = [] := by
          rw [List.map_eq_nil_iff, lastRead_eq_nil, List.append_nil]
        rw [none] at enough
        cases enough
      obtain ⟨y, inAfter⟩ := List.exists_mem_of_ne_nil _ given
      exact ⟨y, inAfter, fun x inNone => absurd inNone List.not_mem_nil⟩

end

def laterStats : ContainerStats :=
  { timestamp := ⟨GoTime.zero.nanos + 3000000000, by decide, by decide⟩
    cpu := { usage := { total := 456, perCpu := [300, 156] } } }

theorem housekeeping_of_pushes_root : ∃ n ms,
    housekeeping (fun _ => none)
        (serve plainDecode plainText civilText (rootServer [busyStats]) rootHost)
        (serve plainDecode plainText civilText (rootServer [busyStats, laterStats]) rootHost) =
      some (.pass n ms) := by
  have registered : ∀ samples,
        (rootServer samples).manager.handle "/" = some (rootHandle samples) :=
    fun _ => rfl
  have pushed : (TimedStore.new ⟨60 * 1000000000, by decide⟩).pushAll [busyStats] =
      some (rootHandle [busyStats]).store := by rfl
  have pushedBoth : (TimedStore.new ⟨60 * 1000000000, by decide⟩).pushAll
      ([busyStats] ++ [laterStats]) = some (rootHandle [busyStats, laterStats]).store := by
    rfl
  have year : (Calendar.DateTime.ofNanos busyStats.timestamp.nanos).date.year = 1 := by
    decide +kernel
  have laterYear : (Calendar.DateTime.ofNanos laterStats.timestamp.nanos).date.year = 1 := by
    decide +kernel
  have later : busyStats.timestamp < laterStats.timestamp := by decide
  have judged := @housekeeping_of_pushes _ _ _ plainText plainText _ _ rootHost rootHost
    decodes_plainDecode printsTimes_civilText (fun _ => none) _ _ (registered [busyStats])
    (registered [busyStats, laterStats]) _ _ _ (by decide) pushed pushedBoth
    (List.forall_mem_cons.mpr ⟨years_of_year year (by decide) (by decide),
      List.forall_mem_singleton.mpr (years_of_year laterYear (by decide) (by decide))⟩)
  have read : lastRead ⟨60 * 1000000000, by decide⟩ ([busyStats] ++ [laterStats]) =
      [busyStats, laterStats] := by
    have sorted : ([busyStats] ++ [laterStats]).mergeSort
        (fun a b => a.timestamp ≤ b.timestamp) = [busyStats, laterStats] := by
      apply List.mergeSort_of_pairwise
      exact List.pairwise_pair.mpr (decide_eq_true later.le)
    rw [lastRead, keptSamples, sorted]
    rfl
  refine judged.1.mpr ⟨List.cons_ne_nil _ _, ?_, ?_, ?_⟩
  · rw [read]
    decide
  · exact ⟨laterStats, List.mem_singleton_self _, List.forall_mem_singleton.mpr later⟩
  · rw [read]
    exact List.pairwise_pair.mpr (by decide)

end Checks

end Cadvisor
