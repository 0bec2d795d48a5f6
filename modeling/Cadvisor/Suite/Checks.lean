import Cadvisor.Metrics.Groups
import Cadvisor.Metrics.ReadBack
import Cadvisor.Metrics.Reordering

/-!
# The suite's check of `/metrics`

The text has to parse, to show the root container in four families, and to give a
time for every sample of three of them.  On a text that the exporter renders, only
the root container decides whether the check passes.
-/

set_option autoImplicit false

namespace Cadvisor

open SortedSeq Output

namespace Expo

def Sample.label (s : Sample) (k : String) : Option String :=
  (s.labels.find? fun l => l.1 = k).map Prod.snd

/-- Samples of `name` whose label `k` is `v`. -/
def find (e : Expo) (name k v : String) : List Sample :=
  e.samples.filter fun s => s.name = name ∧ s.label k = some v

def families (e : Expo) : Nat := e.types.toList.length

end Expo

namespace Checks

open Expo

/-- How the check ends.  The time the request took is not kept. -/
inductive MetricsOutcome where
  | parse (e : ParseError)
  | missing (family : String)
  | untimed (name : String) (labels : List (String × String))
  | pass (families samples : Nat)

def rootFamilies : List String :=
  [ "container_cpu_usage_seconds_total", "container_memory_working_set_bytes",
    "container_last_seen", "container_start_time_seconds" ]

/-- The families whose samples carry the time of the container's sample. -/
def stat (n : String) : Bool :=
  n = "container_cpu_usage_seconds_total" ∨ n = "container_memory_working_set_bytes" ∨
    n = "container_memory_usage_bytes"

def metrics (parseF64 : String → Option Float) (text : String) : MetricsOutcome :=
  match parse parseF64 text with
  | .error e => .parse e
  | .ok e =>
      match rootFamilies.find? fun f => (e.find f "id" "/").isEmpty with
      | some f => .missing f
      | none =>
          match e.samples.find? fun s => stat s.name ∧ s.ts.isNone with
          | some s => .untimed s.name s.labels
          | none => .pass e.families e.samples.length

end Checks

/-! ## What a container shows -/

theorem mem_gate {opts : MetricsOpts} {group : String} {readings : List Reading} {r : Reading} :
    r ∈ opts.gate group readings ↔ opts.enabled group = true ∧ r ∈ readings := by
  unfold MetricsOpts.gate
  split_ifs with on
  · simp [on]
  · simp [on]

/-- A sample that shows CPU time: the total if the kernel gave no time by CPU, else that of
some CPU. -/
def ShowsCpu (s : ContainerStats) : Prop :=
  if s.cpu.usage.perCpu = [] then 0 < s.cpu.usage.total else ∃ cpu ∈ s.cpu.usage.perCpu, 0 < cpu

theorem cpuReadings_usage_iff (spec : ContainerSpec) (s : ContainerStats) (ts : Option Int) :
    (∃ r ∈ cpuReadings spec s ts, r.family = "container_cpu_usage_seconds_total") ↔
      ShowsCpu s := by
  unfold cpuReadings ShowsCpu
  simp only [List.mem_append, or_and_right, exists_or]
  constructor
  · rintro ((fixed | usage) | quota)
    · obtain ⟨r, member, family⟩ := fixed
      simp only [List.mem_cons, List.not_mem_nil, or_false] at member
      rcases member with rfl | rfl <;> simp at family
    · obtain ⟨r, member, _⟩ := usage
      cases cpus : s.cpu.usage.perCpu with
      | nil =>
          rw [cpus] at member
          simp only [List.isEmpty_nil, if_true] at member
          split_ifs at member with shown
          · rw [if_pos rfl]
            exact shown
          · exact absurd member List.not_mem_nil
      | cons cpu rest =>
          rw [cpus] at member
          rw [if_neg (List.cons_ne_nil _ _)]
          simp only [List.isEmpty_cons, Bool.false_eq_true, if_false] at member
          obtain ⟨entry, inCpus, isReading⟩ := List.mem_filterMap.mp member
          split_ifs at isReading with shown
          exact ⟨entry.1, (List.mem_zipIdx inCpus).2.2 ▸ List.getElem_mem _, shown⟩
    · obtain ⟨r, member, family⟩ := quota
      split_ifs at member
      · simp only [List.mem_cons, List.not_mem_nil, or_false] at member
        rcases member with rfl | rfl | rfl <;> simp at family
      · exact absurd member List.not_mem_nil
  · intro shows
    refine Or.inl (Or.inr ?_)
    cases cpus : s.cpu.usage.perCpu with
    | nil =>
        rw [cpus, if_pos rfl] at shows
        simp only [List.isEmpty_nil, if_true]
        rw [if_pos shows]
        exact ⟨_, List.mem_singleton_self _, rfl⟩
    | cons cpu rest =>
        rw [cpus, if_neg (List.cons_ne_nil _ _)] at shows
        obtain ⟨c, inCpus, shown⟩ := shows
        simp only [List.isEmpty_cons, Bool.false_eq_true, if_false]
        obtain ⟨i, inside, isCpu⟩ := List.getElem_of_mem inCpus
        refine ⟨_, List.mem_filterMap.mpr ⟨(c, i), ?_, if_pos shown⟩, rfl⟩
        exact List.mk_mem_zipIdx_iff_getElem?.mpr (List.getElem?_eq_some_iff.mpr ⟨inside, isCpu⟩)

def groupReadings (diskMap : SortedMap String DiskInfo) (spec : ContainerSpec)
    (s : ContainerStats) : MetricGroup → List Reading
  | .cpu => cpuReadings spec s (some s.timestamp.timestampMillis)
  | .cpuLoad => cpuLoadReadings s (some s.timestamp.timestampMillis)
  | .memory => memoryReadings s (some s.timestamp.timestampMillis)
  | .disk => diskReadings s (some s.timestamp.timestampMillis)
  | .diskIo => diskIoReadings diskMap s (some s.timestamp.timestampMillis)
  | .network => networkReadings s (some s.timestamp.timestampMillis)
  | .oomEvent => oomReadings s (some s.timestamp.timestampMillis)

theorem groupReadings_groups (diskMap : SortedMap String DiskInfo) (spec : ContainerSpec)
    (s : ContainerStats) (g : MetricGroup) :
    ∀ r ∈ groupReadings diskMap spec s g, groupsOf r.family = [g] := by
  cases g with
  | cpu => exact cpuReadings_groups spec s _
  | cpuLoad => exact cpuLoadReadings_groups s _
  | memory => exact memoryReadings_groups s _
  | disk => exact diskReadings_groups s _
  | diskIo => exact diskIoReadings_groups diskMap s _
  | network => exact networkReadings_groups s _
  | oomEvent => exact oomReadings_groups s _

theorem mem_latestReadings {opts : MetricsOpts} {diskMap : SortedMap String DiskInfo}
    {spec : ContainerSpec} {s : ContainerStats} {r : Reading} :
    r ∈ latestReadings opts diskMap spec s ↔
      ∃ g : MetricGroup, opts.enabled g.token = true ∧ r ∈ groupReadings diskMap spec s g := by
  unfold latestReadings
  simp only [List.mem_append, mem_gate]
  constructor
  · rintro ((((((cpu | cpuLoad) | memory) | disk) | diskIo) | network) | oom)
    · exact ⟨.cpu, cpu⟩
    · exact ⟨.cpuLoad, cpuLoad⟩
    · exact ⟨.memory, memory⟩
    · exact ⟨.disk, disk⟩
    · exact ⟨.diskIo, diskIo⟩
    · exact ⟨.network, network⟩
    · exact ⟨.oomEvent, oom⟩
  · rintro ⟨g, shown⟩
    cases g with
    | cpu => exact Or.inl (Or.inl (Or.inl (Or.inl (Or.inl (Or.inl shown)))))
    | cpuLoad => exact Or.inl (Or.inl (Or.inl (Or.inl (Or.inl (Or.inr shown)))))
    | memory => exact Or.inl (Or.inl (Or.inl (Or.inl (Or.inr shown))))
    | disk => exact Or.inl (Or.inl (Or.inl (Or.inr shown)))
    | diskIo => exact Or.inl (Or.inl (Or.inr shown))
    | network => exact Or.inl (Or.inr shown)
    | oomEvent => exact Or.inr shown

theorem mem_latest_of_group {opts : MetricsOpts} {diskMap : SortedMap String DiskInfo}
    {spec : ContainerSpec} {s : ContainerStats} {r : Reading} {g : MetricGroup}
    (group : groupsOf r.family = [g]) :
    r ∈ latestReadings opts diskMap spec s ↔
      opts.enabled g.token = true ∧ r ∈ groupReadings diskMap spec s g := by
  rw [mem_latestReadings]
  constructor
  · rintro ⟨other, on, member⟩
    have same := (groupReadings_groups diskMap spec s other r member).symm.trans group
    obtain rfl : other = g := (List.cons.inj same).1
    exact ⟨on, member⟩
  · exact fun shown => ⟨g, shown⟩

/-- The families that are read from the container's specification. -/
def specFamilies : List String :=
  [ "container_spec_cpu_period", "container_spec_cpu_shares", "container_spec_cpu_quota",
    "container_spec_memory_limit_bytes", "container_spec_memory_swap_limit_bytes",
    "container_spec_memory_reservation_limit_bytes", "container_start_time_seconds",
    "container_last_seen" ]

theorem specReadings_families (opts : MetricsOpts) (spec : ContainerSpec) (now : GoTime) :
    ∀ r ∈ specReadings opts spec now, r.family ∈ specFamilies := by
  unfold specReadings
  simp only [List.forall_mem_append]
  refine ⟨⟨?_, ?_⟩, ?_⟩
  · split_ifs
    all_goals simp [specFamilies]
  · split_ifs
    all_goals simp [specFamilies]
  · simp [specFamilies]

namespace Snapshot

variable (snap : Snapshot) (opts : MetricsOpts)

theorem readings_of_group {family : String} {g : MetricGroup} (group : groupsOf family = [g])
    (notSpec : family ∉ specFamilies) (h : ContainerHandle) :
    (∃ r ∈ snap.readings opts h, r.family = family) ↔
      opts.enabled g.token = true ∧ ∃ s, h.store.latest = some s ∧
        ∃ r ∈ groupReadings snap.machineInfo.diskMap h.spec s g, r.family = family := by
  constructor
  · rintro ⟨r, member, rfl⟩
    rcases List.mem_append.mp member with fromSpec | fromSample
    · exact absurd (specReadings_families opts h.spec snap.now r fromSpec) notSpec
    · cases latest : h.store.latest with
      | none =>
          rw [latest] at fromSample
          exact absurd fromSample List.not_mem_nil
      | some s =>
          rw [latest] at fromSample
          obtain ⟨on, inGroup⟩ := (mem_latest_of_group group).mp fromSample
          exact ⟨on, s, rfl, r, inGroup, rfl⟩
  · rintro ⟨on, s, latest, r, inGroup, rfl⟩
    refine ⟨r, List.mem_append_right _ ?_, rfl⟩
    rw [latest]
    exact (mem_latest_of_group group).mpr ⟨on, inGroup⟩

/-- Only a container's pushes carry an `id`, and it is the container's name. -/
theorem pushes_id_iff (family id : String) :
    (∃ p ∈ snap.pushes opts, p.family = family ∧ ("id", id) ∈ p.labels) ↔
      ∃ h ∈ snap.handles, h.name = id ∧ ∃ r ∈ snap.readings opts h, r.family = family := by
  constructor
  · rintro ⟨p, member, rfl, hasId⟩
    rcases List.mem_append.mp member with front | back
    · rcases List.mem_cons.mp front with rfl | inContainers
      · simp [versionPush] at hasId
      · obtain ⟨h, inHandles, pushed⟩ := List.mem_flatMap.mp inContainers
        have nodup : (p.labels.map Prod.fst).Nodup :=
          (snap.containerPushes_shaped opts inHandles p pushed).names_spec.1.imp ne_of_lt
        have same := List.inj_on_of_nodup_map nodup (snap.id_mem_labels opts inHandles pushed)
          hasId rfl
        obtain ⟨r, inReadings, rfl⟩ := List.mem_map.mp pushed
        exact ⟨h, inHandles, congrArg Prod.snd same, r, inReadings, rfl⟩
    · rcases List.mem_cons.mp back with rfl | inMachine
      · exact absurd hasId List.not_mem_nil
      · simp only [machinePushes, List.mem_append, List.mem_cons, List.mem_map, List.not_mem_nil,
          or_false] at inMachine
        rcases inMachine with (fixed | ⟨mode, _, rfl⟩) | (rfl | rfl)
        · rcases fixed with rfl | rfl | rfl | rfl | rfl <;> simp at hasId
        · simp at hasId
        · simp at hasId
        · simp at hasId
  · rintro ⟨h, inHandles, rfl, r, inReadings, rfl⟩
    have pushed : (⟨r.family, (snap.labels opts h).withExtra r.extra, r.value, r.ts⟩ : Push) ∈
        snap.containerPushes opts h := List.mem_map_of_mem inReadings
    refine ⟨_, List.mem_append_left _ (List.mem_cons_of_mem _ (List.mem_flatMap.mpr
      ⟨h, inHandles, pushed⟩)), rfl, ?_⟩
    exact snap.id_mem_labels opts inHandles pushed

theorem exists_served_iff {pushes : List Push} {family : String} (listed : family ∈ familyNames)
    (P : List (String × String) → Prop) :
    (∃ p ∈ served pushes, p.family = family ∧ P p.labels) ↔
      ∃ p ∈ pushes, p.family = family ∧ P p.labels := by
  constructor
  · rintro ⟨p, member, facts⟩
    exact ⟨p, List.mem_of_find?_eq_some (mem_served_iff.mp member).2, facts⟩
  · rintro ⟨p, member, rfl, holds⟩
    have found : ∃ first, pushes.find? (fun q => p.SameSeries q) = some first := by
      rw [← Option.isSome_iff_exists, List.find?_isSome]
      exact ⟨p, member, decide_eq_true ⟨rfl, rfl⟩⟩
    obtain ⟨first, isFirst⟩ := found
    obtain ⟨sameFamily, sameLabels⟩ : p.SameSeries first := by
      simpa using List.find?_some isFirst
    have sameTest : (fun q => decide (first.SameSeries q)) = fun q => decide (p.SameSeries q) := by
      funext q
      rw [decide_eq_decide, Push.SameSeries, Push.SameSeries, sameFamily, sameLabels]
    refine ⟨first, mem_served_iff.mpr ⟨sameFamily ▸ listed, ?_⟩, sameFamily, sameLabels ▸ holds⟩
    rw [sameTest]
    exact isFirst

theorem stat_timed {h : ContainerHandle} :
    ∀ r ∈ snap.readings opts h, Checks.stat r.family = true → r.ts.isSome = true := by
  intro r member timed
  have family : r.family = "container_cpu_usage_seconds_total" ∨
      r.family = "container_memory_working_set_bytes" ∨
        r.family = "container_memory_usage_bytes" := of_decide_eq_true timed
  rcases List.mem_append.mp member with fromSpec | fromSample
  · have inSpec := specReadings_families opts h.spec snap.now r fromSpec
    rcases family with isFamily | isFamily | isFamily
    all_goals
      rw [isFamily] at inSpec
      simp [specFamilies] at inSpec
  · cases latest : h.store.latest with
    | none =>
        rw [latest] at fromSample
        exact absurd fromSample List.not_mem_nil
    | some s =>
        rw [latest] at fromSample
        rw [latestReadings_ts opts _ h.spec s r fromSample]
        rfl

/-- What the check needs of the containers: the root container is registered, and its latest
sample shows CPU time and is not withheld. -/
def RootShown : Prop :=
  opts.enabled "cpu" = true ∧ opts.enabled "memory" = true ∧
    ∃ h ∈ snap.handles, h.name = "/" ∧ ∃ s, h.store.latest = some s ∧ ShowsCpu s

theorem rootShown_iff :
    snap.RootShown opts ↔ ∀ f ∈ Checks.rootFamilies, ∃ p ∈ served (snap.pushes opts),
      p.family = f ∧ ("id", "/") ∈ p.labels := by
  have listed : ∀ f ∈ Checks.rootFamilies, f ∈ familyNames := by
    simp only [Checks.rootFamilies, List.forall_mem_cons]
    refine ⟨?_, ?_, ?_, ?_, List.forall_mem_nil _⟩
    all_goals simp [familyNames, families]
  have shown : ∀ f ∈ Checks.rootFamilies, ((∃ p ∈ served (snap.pushes opts),
      p.family = f ∧ ("id", "/") ∈ p.labels) ↔
        ∃ h ∈ snap.handles, h.name = "/" ∧ ∃ r ∈ snap.readings opts h, r.family = f) := by
    intro f isRoot
    rw [exists_served_iff (listed f isRoot) fun labels => ("id", "/") ∈ labels,
      snap.pushes_id_iff opts]
  have cpu : groupsOf "container_cpu_usage_seconds_total" = [.cpu] := groupsOf_ofList (by decide)
  have memory : groupsOf "container_memory_working_set_bytes" = [.memory] :=
    groupsOf_ofList (by decide)
  have usage := snap.readings_of_group opts cpu (by simp [specFamilies])
  have workingSet := snap.readings_of_group opts memory (by simp [specFamilies])
  have always : ∀ h, ∀ f ∈ ["container_last_seen", "container_start_time_seconds"],
      ∃ r ∈ snap.readings opts h, r.family = f := by
    intro h f isLast
    have ends : ∀ r ∈ [(⟨"container_start_time_seconds", [],
        Float.ofInt h.spec.creationTime.timestamp +
          Float.ofInt h.spec.creationTime.timestampSubsecNanos / 1e9, none⟩ : Reading),
        ⟨"container_last_seen", [], Float.ofInt snap.now.timestampMillis / 1000.0,
          some snap.now.timestampMillis⟩], r ∈ snap.readings opts h := fun r member =>
      List.mem_append_left _ (List.mem_append_right _ member)
    simp only [List.mem_cons, List.not_mem_nil, or_false] at isLast
    rcases isLast with rfl | rfl
    · exact ⟨_, ends _ (List.mem_cons_of_mem _ (List.mem_singleton_self _)), rfl⟩
    · exact ⟨_, ends _ (List.mem_cons_self ..), rfl⟩
  constructor
  · rintro ⟨cpuOn, memoryOn, h, inHandles, isRoot, s, latest, shows⟩ f member
    rw [shown f member]
    refine ⟨h, inHandles, isRoot, ?_⟩
    simp only [Checks.rootFamilies, List.mem_cons, List.not_mem_nil, or_false] at member
    rcases member with rfl | rfl | rfl | rfl
    · exact (usage h).mpr ⟨cpuOn, s, latest, (cpuReadings_usage_iff h.spec s _).mpr shows⟩
    · refine (workingSet h).mpr ⟨memoryOn, s, latest, ?_⟩
      exact ⟨⟨"container_memory_working_set_bytes", [], s.memory.workingSet.toFloat,
        some s.timestamp.timestampMillis⟩, by simp [groupReadings, memoryReadings], rfl⟩
    · exact always h _ (by simp)
    · exact always h _ (by simp)
  · intro all
    have cpuFamily := all "container_cpu_usage_seconds_total" (by simp [Checks.rootFamilies])
    have memoryFamily := all "container_memory_working_set_bytes" (by simp [Checks.rootFamilies])
    rw [shown _ (by simp [Checks.rootFamilies])] at cpuFamily memoryFamily
    obtain ⟨h, inHandles, isRoot, reading⟩ := cpuFamily
    obtain ⟨_, _, _, memoryReading⟩ := memoryFamily
    obtain ⟨cpuOn, s, latest, inGroup⟩ := (usage h).mp reading
    exact ⟨cpuOn, ((workingSet _).mp memoryReading).1, h, inHandles, isRoot, s, latest,
      (cpuReadings_usage_iff h.spec s _).mp inGroup⟩

/-! ## The check of a rendered text -/

theorem lookup_iff {labels : List (String × String)} (nodup : (labels.map Prod.fst).Nodup)
    (k v : String) :
    (labels.find? fun l => l.1 = k).map Prod.snd = some v ↔ (k, v) ∈ labels := by
  constructor
  · intro found
    obtain ⟨l, isFirst, rfl⟩ := Option.map_eq_some_iff.mp found
    have isKey : l.1 = k := by simpa using List.find?_some isFirst
    exact isKey ▸ List.mem_of_find?_eq_some isFirst
  · intro member
    have found : (labels.find? fun l => l.1 = k).isSome = true := by
      rw [List.find?_isSome]
      exact ⟨(k, v), member, by simp⟩
    obtain ⟨l, isFirst⟩ := Option.isSome_iff_exists.mp found
    have isKey : l.1 = k := by simpa using List.find?_some isFirst
    have same := List.inj_on_of_nodup_map nodup (List.mem_of_find?_eq_some isFirst) member isKey
    rw [isFirst, same]
    rfl

variable {snap opts} {ryu : Ryu} {parseF64 : String → Option Float}

theorem find_isEmpty_iff {e : Expo} {read : List Expo.Sample} (samplesAre : e.samples = read)
    (values : (served (snap.pushes opts)).mapM (Expo.reread ryu parseF64) = some read)
    (f : String) :
    (e.find f "id" "/").isEmpty = false ↔
      ∃ p ∈ served (snap.pushes opts), p.family = f ∧ ("id", "/") ∈ p.labels := by
  have found : (e.find f "id" "/").isEmpty = false ↔
      ∃ s ∈ read, s.name = f ∧ (s.labels.find? fun l => l.1 = "id").map Prod.snd = some "/" := by
    rw [Expo.find, samplesAre, ← Bool.not_eq_true, List.isEmpty_iff, List.filter_eq_nil_iff]
    push Not
    refine exists_congr fun s => and_congr_right fun _ => ?_
    rw [decide_eq_true_iff, Expo.Sample.label]
  rw [found, Expo.exists_read_iff values fun series => series.1 = f ∧
    (series.2.1.find? fun l => l.1 = "id").map Prod.snd = some "/"]
  refine exists_congr fun p => and_congr_right fun member => and_congr_right fun _ => ?_
  have inPushes := List.mem_of_find?_eq_some (mem_served_iff.mp member).2
  exact lookup_iff ((snap.pushes_shaped opts p inPushes).names_spec.1.imp ne_of_lt) _ _

theorem served_timed : ∀ p ∈ served (snap.pushes opts), Checks.stat p.family = true →
    p.ts.isSome = true := by
  intro p member timed
  have inPushes := List.mem_of_find?_eq_some (mem_served_iff.mp member).2
  have calm : ∀ {family : String}, Checks.stat family = false → p.family ≠ family := by
    intro family other isFamily
    rw [isFamily, other] at timed
    cases timed
  rcases List.mem_append.mp inPushes with front | back
  · rcases List.mem_cons.mp front with isVersion | inContainers
    · have name : p.family = "cadvisor_version_info" := by rw [isVersion, versionPush]
      exact absurd name (calm (by decide))
    · obtain ⟨h, inHandles, pushed⟩ := List.mem_flatMap.mp inContainers
      obtain ⟨r, inReadings, rfl⟩ := List.mem_map.mp pushed
      exact snap.stat_timed opts r inReadings timed
  · rcases List.mem_cons.mp back with isError | inMachine
    · exact absurd (congrArg Push.family isError) (calm (by decide))
    · simp only [machinePushes, List.mem_append, List.mem_cons, List.mem_map, List.not_mem_nil,
        or_false] at inMachine
      rcases inMachine with (fixed | ⟨mode, _, isMode⟩) | (isBudget | isError)
      · rcases fixed with rfl | rfl | rfl | rfl | rfl <;> rfl
      · rw [← isMode]
        rfl
      · rw [isBudget]
        rfl
      · exact absurd (congrArg Push.family isError) (calm (by decide))

theorem families_withBlocks (read : List Expo.Sample) :
    (Expo.empty.withBlocks (blocks (snap.pushes opts)) read).families =
      (blocks (snap.pushes opts)).length := by
  have names := (blocks_sublist (snap.pushes opts)).map Family.name
  rw [List.map_map] at names
  have distinct : ((Expo.typesOf (blocks (snap.pushes opts))).map Prod.fst).Nodup := by
    rw [Expo.typesOf, List.map_map]
    exact familyNames_nodup.sublist names
  have keys : (SortedMap.ofList (Expo.typesOf (blocks (snap.pushes opts)))).keys.Perm
      ((Expo.typesOf (blocks (snap.pushes opts))).map Prod.fst) := by
    refine (List.perm_ext_iff_of_nodup (SortedMap.keys_nodup _) distinct).mpr fun name => ?_
    exact SortedMap.mem_keys_ofList _ _
  have length := keys.length_eq
  rw [SortedMap.keys, List.length_map, List.length_map, Expo.typesOf, List.length_map] at length
  exact length

/-- The check of a rendered text passes exactly if every served value can be read and the
root container is shown; it then counts the served families and series, and a sample
without its time is never what fails it. -/
theorem metrics_render (black : ryu.Black)
    (noNul : ∀ p ∈ snap.pushes opts, ∀ l ∈ p.labels, '\x00' ∉ l.2.toList) :
    (Checks.metrics parseF64 (snap.render ryu opts "") =
        .pass (blocks (snap.pushes opts)).length (served (snap.pushes opts)).length ↔
      (∀ p ∈ served (snap.pushes opts), (Expo.reread ryu parseF64 p).isSome = true) ∧
        snap.RootShown opts) ∧
    (∀ n m, Checks.metrics parseF64 (snap.render ryu opts "") = .pass n m →
      n = (blocks (snap.pushes opts)).length ∧ m = (served (snap.pushes opts)).length) ∧
    ∀ name labels, Checks.metrics parseF64 (snap.render ryu opts "") ≠ .untimed name labels := by
  have parsed := snap.parse_eq_scraped black parseF64 opts noNul
  rw [scraped] at parsed
  have readable := @Traverse.isSome_mapM_iff _ _ (Expo.reread ryu parseF64)
    (served (snap.pushes opts))
  cases values : (served (snap.pushes opts)).mapM (Expo.reread ryu parseF64) with
  | none =>
      rw [values] at parsed readable
      cases read : Expo.parse parseF64 (snap.render ryu opts "") with
      | ok e =>
          rw [read] at parsed
          cases parsed
      | error e =>
          have verdict : Checks.metrics parseF64 (snap.render ryu opts "") = .parse e := by
            rw [Checks.metrics, read]
          rw [verdict]
          simp [← readable]
  | some read =>
      rw [values] at parsed readable
      cases isParsed : Expo.parse parseF64 (snap.render ryu opts "") with
      | error e =>
          rw [isParsed] at parsed
          cases parsed
      | ok e =>
          rw [isParsed] at parsed
          have eIs : e = Expo.empty.withBlocks (blocks (snap.pushes opts)) read :=
            Option.some.inj parsed
          have samplesAre : e.samples = read := by
            rw [eIs, Expo.withBlocks, Expo.empty, List.nil_append]
          have families : e.families = (blocks (snap.pushes opts)).length :=
            eIs ▸ families_withBlocks read
          have count : e.samples.length = (served (snap.pushes opts)).length := by
            have series := congrArg List.length (Expo.mapM_reread_series values)
            rw [List.length_map, List.length_map] at series
            rw [samplesAre, series]
          have timed : (e.samples.find? fun s => Checks.stat s.name ∧ s.ts.isNone) = none := by
            rw [List.find?_eq_none, samplesAre]
            intro s member
            obtain ⟨p, inServed, same⟩ := (Expo.exists_read_iff values fun series =>
              series = (s.name, s.labels, s.ts)).mp ⟨s, member, rfl⟩
            simp only [Prod.mk.injEq] at same
            have stamped := served_timed p inServed
            rw [same.1, same.2.2] at stamped
            cases isStat : Checks.stat s.name with
            | false => simp
            | true =>
                obtain ⟨ms, isTime⟩ := Option.isSome_iff_exists.mp (stamped isStat)
                simp [isTime]
          have root : (Checks.rootFamilies.find? fun f => (e.find f "id" "/").isEmpty) = none ↔
              snap.RootShown opts := by
            rw [snap.rootShown_iff opts, List.find?_eq_none]
            refine forall₂_congr fun f _ => ?_
            rw [Bool.not_eq_true]
            exact find_isEmpty_iff samplesAre values f
          cases missing : Checks.rootFamilies.find? fun f => (e.find f "id" "/").isEmpty with
          | some f =>
              have verdict : Checks.metrics parseF64 (snap.render ryu opts "") = .missing f := by
                rw [Checks.metrics, isParsed]
                dsimp only
                rw [missing]
              rw [missing] at root
              have hidden : ¬ snap.RootShown opts := fun shown => absurd (root.mpr shown) (by simp)
              rw [verdict]
              simp [hidden]
          | none =>
              have verdict : Checks.metrics parseF64 (snap.render ryu opts "") =
                  .pass (blocks (snap.pushes opts)).length (served (snap.pushes opts)).length := by
                rw [Checks.metrics, isParsed]
                dsimp only
                rw [missing, timed, families, count]
              have shown := root.mp missing
              rw [verdict]
              refine ⟨⟨fun _ => ⟨readable.mp rfl, shown⟩, fun _ => rfl⟩, ?_, by simp⟩
              rintro n m same
              cases same
              exact ⟨rfl, rfl⟩

theorem sampledAge_bounded : 60 * 1000000000 < 2 ^ 64 * 1000000000 := by
  decide

/-- The root container again, with its first sample. -/
def sampledHandle : ContainerHandle where
  name := "/"
  reference := { name := "/" }
  spec :=
    { creationTime := GoTime.sinceEpoch 0
      hasCpu := true
      cpu := { limit := 1, period := 1 } }
  store :=
    { buf :=
        [ { timestamp := GoTime.sinceEpoch 0
            cpu := { usage := { total := 1000000000 } }
            memory := { workingSet := 1 } } ]
      maxAge := ⟨60 * 1000000000, sampledAge_bounded⟩ }
  initPid := none
  reportsNetwork := true
  rootfsDiff := none
  fsUsage := (0, 0)

def sampledSnapshot : Snapshot where
  versionInfo := {}
  containers := ⟨[sampledHandle], List.nodup_singleton _⟩
  machineInfo := { timestamp := GoTime.sinceEpoch 0 }
  now := GoTime.sinceEpoch 0

theorem sampledSnapshot_noNul :
    ∀ p ∈ sampledSnapshot.pushes {}, ∀ l ∈ p.labels, '\x00' ∉ l.2.toList := by
  decide +kernel

theorem sampledSnapshot_shown : sampledSnapshot.RootShown {} := by
  refine ⟨by decide, by decide, sampledHandle, List.mem_singleton_self _, rfl, _, rfl, ?_⟩
  have total : (0 : UInt64) < 1000000000 := by decide
  exact total

def unitOrZero (v : String) : Option Float := if v = "-1" then some (-1.0) else zeroOrOne v

theorem reread_zeroRyu (p : Push) : (Expo.reread zeroRyu unitOrZero p).isSome = true := by
  have digits : String.ofList (reshape "0.0".toList) = "0" := by decide
  have unsigned : Str.stripPrefix "0.0" "-" = none := by decide
  rw [Expo.reread, Option.isSome_map, fmtFloat, zeroRyu]
  dsimp only
  rw [unsigned]
  dsimp only
  rw [digits]
  split_ifs
  all_goals rfl

theorem metrics_render_sampled :
    Checks.metrics unitOrZero (sampledSnapshot.render zeroRyu {} "") =
        .pass (blocks (sampledSnapshot.pushes {})).length
          (served (sampledSnapshot.pushes {})).length ∧
      ¬ ∃ n m, Checks.metrics unitOrZero (quotaSnapshot.render zeroRyu {} "") = .pass n m := by
  refine ⟨?_, ?_⟩
  · exact (@metrics_render sampledSnapshot {} zeroRyu unitOrZero zeroRyu_black
      sampledSnapshot_noNul).1.mpr ⟨fun p _ => reread_zeroRyu p, sampledSnapshot_shown⟩
  · rintro ⟨n, m, passes⟩
    obtain ⟨passes_iff, counts, _⟩ :=
      @metrics_render quotaSnapshot {} zeroRyu unitOrZero zeroRyu_black quotaSnapshot_noNul
    obtain ⟨rfl, rfl⟩ := counts n m passes
    obtain ⟨_, _, _, h, inHandles, _, s, latest, _⟩ := passes_iff.mp passes
    rw [List.mem_singleton.mp inHandles] at latest
    cases latest

end Snapshot

end Cadvisor
