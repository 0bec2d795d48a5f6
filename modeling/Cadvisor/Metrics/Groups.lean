import Cadvisor.Metrics.Exposition

/-!
# Metric groups

The collector pushes a family only while its group is enabled.  The vocabulary
of the groups is a function of its own, by prefixes of the family names; every
push is under the group that the function gives its family, or under the group
of its spec families, so disabling a token takes whole families out of the text
and touches nothing else.
-/

set_option autoImplicit false

namespace Cadvisor

open SortedSeq Output

inductive MetricGroup where
  | cpu
  | cpuLoad
  | memory
  | disk
  | diskIo
  | network
  | oomEvent
  deriving DecidableEq

def MetricGroup.token : MetricGroup → String
  | .cpu => "cpu"
  | .cpuLoad => "cpuLoad"
  | .memory => "memory"
  | .disk => "disk"
  | .diskIo => "diskIO"
  | .network => "network"
  | .oomEvent => "oom_event"

def familyGroup (name : String) : Option MetricGroup :=
  if Str.startsWith name "container_cpu_load" ∨ name = "container_tasks_state" then some .cpuLoad
  else if Str.startsWith name "container_cpu" then some .cpu
  else if Str.startsWith name "container_memory" then some .memory
  else if name = "container_fs_inodes_free" ∨ name = "container_fs_inodes_total" ∨
      name = "container_fs_limit_bytes" ∨ name = "container_fs_usage_bytes" then some .disk
  else if Str.startsWith name "container_fs" ∨ Str.startsWith name "container_blkio" then
    some .diskIo
  else if Str.startsWith name "container_network" then some .network
  else if name = "container_oom_events_total" then some .oomEvent
  else none

/-- Whether a family is to go when a token is disabled: the token is its group,
or the group that its spec family follows. -/
def Follows (token family : String) : Prop :=
  (∃ group, familyGroup family = some group ∧ group.token = token) ∨
    token = "cpu" ∧ Str.startsWith family "container_spec_cpu_" = true ∨
    token = "memory" ∧ Str.startsWith family "container_spec_memory_" = true

def MetricsOpts.disable (opts : MetricsOpts) (token : String) : MetricsOpts :=
  { opts with disabledGroups := opts.disabledGroups.insert token () }

/-! ## The groups of a family -/

def groupsOf (family : String) : List MetricGroup :=
  (familyGroup family).toList ++
    (if Str.startsWith family "container_spec_cpu_" then [.cpu] else []) ++
    (if Str.startsWith family "container_spec_memory_" then [.memory] else [])

theorem follows_iff (token family : String) :
    Follows token family ↔ ∃ group ∈ groupsOf family, group.token = token := by
  have cpu : MetricGroup.cpu.token = "cpu" := rfl
  have memory : MetricGroup.memory.token = "memory" := rfl
  unfold Follows groupsOf
  simp only [List.mem_append, Option.mem_toList, or_and_right, exists_or, or_assoc]
  refine or_congr Iff.rfl (or_congr ?_ ?_)
  · split_ifs with spec
    · simp [spec, cpu, eq_comm]
    · simp [spec]
  · split_ifs with spec
    · simp [spec, memory, eq_comm]
    · simp [spec]

instance (token family : String) : Decidable (Follows token family) :=
  decidable_of_iff _ (follows_iff token family).symm

/-- The same by characters, so that it can be decided of a literal. -/
def groupOfChars (cs : List Char) : Option MetricGroup :=
  if (Str.literal (rfl : "container_cpu_load" = String.ofList _)).isPrefixOf cs = true ∨
      cs = Str.literal (rfl : "container_tasks_state" = String.ofList _) then some .cpuLoad
  else if (Str.literal (rfl : "container_cpu" = String.ofList _)).isPrefixOf cs = true then
    some .cpu
  else if (Str.literal (rfl : "container_memory" = String.ofList _)).isPrefixOf cs = true then
    some .memory
  else if cs = Str.literal (rfl : "container_fs_inodes_free" = String.ofList _) ∨
      cs = Str.literal (rfl : "container_fs_inodes_total" = String.ofList _) ∨
      cs = Str.literal (rfl : "container_fs_limit_bytes" = String.ofList _) ∨
      cs = Str.literal (rfl : "container_fs_usage_bytes" = String.ofList _) then some .disk
  else if (Str.literal (rfl : "container_fs" = String.ofList _)).isPrefixOf cs = true ∨
      (Str.literal (rfl : "container_blkio" = String.ofList _)).isPrefixOf cs = true then
    some .diskIo
  else if (Str.literal (rfl : "container_network" = String.ofList _)).isPrefixOf cs = true then
    some .network
  else if cs = Str.literal (rfl : "container_oom_events_total" = String.ofList _) then
    some .oomEvent
  else none

theorem familyGroup_ofList (cs : List Char) :
    familyGroup (String.ofList cs) = groupOfChars cs := by
  unfold familyGroup groupOfChars
  refine if_congr (or_congr (Str.startsWith_literal rfl cs) (Str.eq_literal rfl cs)) rfl ?_
  refine if_congr (Str.startsWith_literal rfl cs) rfl ?_
  refine if_congr (Str.startsWith_literal rfl cs) rfl ?_
  refine if_congr (or_congr (Str.eq_literal rfl cs) (or_congr (Str.eq_literal rfl cs)
    (or_congr (Str.eq_literal rfl cs) (Str.eq_literal rfl cs)))) rfl ?_
  refine if_congr (or_congr (Str.startsWith_literal rfl cs) (Str.startsWith_literal rfl cs)) rfl ?_
  refine if_congr (Str.startsWith_literal rfl cs) rfl ?_
  exact if_congr (Str.eq_literal rfl cs) rfl rfl

def groupsOfChars (cs : List Char) : List MetricGroup :=
  (groupOfChars cs).toList ++
    (if (Str.literal (rfl : "container_spec_cpu_" = String.ofList _)).isPrefixOf cs = true then
      [.cpu] else []) ++
    (if (Str.literal (rfl : "container_spec_memory_" = String.ofList _)).isPrefixOf cs = true then
      [.memory] else [])

theorem groupsOf_ofList {cs : List Char} {groups : List MetricGroup}
    (chars : groupsOfChars cs = groups) : groupsOf (String.ofList cs) = groups := by
  rw [← chars]
  unfold groupsOf groupsOfChars
  rw [familyGroup_ofList]
  refine congrArg₂ (· ++ ·) (congrArg ((groupOfChars cs).toList ++ ·) ?_) ?_
  · exact if_congr (Str.startsWith_literal rfl cs) rfl rfl
  · exact if_congr (Str.startsWith_literal rfl cs) rfl rfl

example : groupsOf "container_spec_memory_limit_bytes" = [.memory] := groupsOf_ofList (by decide)

/-! ## The groups of the readings -/

theorem cpuReadings_groups (spec : ContainerSpec) (s : ContainerStats) (ts : Option Int) :
    ∀ r ∈ cpuReadings spec s ts, groupsOf r.family = [.cpu] := by
  have usage : groupsOf "container_cpu_usage_seconds_total" = [.cpu] :=
    groupsOf_ofList (by decide)
  unfold cpuReadings
  simp only [List.forall_mem_append]
  refine ⟨⟨?_, ?_⟩, ?_⟩
  · simp only [List.forall_mem_cons]
    refine ⟨?_, ?_, List.forall_mem_nil _⟩
    all_goals exact groupsOf_ofList (by decide)
  · split_ifs
    · exact List.forall_mem_singleton.mpr usage
    · exact List.forall_mem_nil _
    · intro r member
      obtain ⟨cpu, _, isReading⟩ := List.mem_filterMap.mp member
      split_ifs at isReading
      rw [← Option.some.inj isReading]
      exact usage
  · split_ifs
    · simp only [List.forall_mem_cons]
      refine ⟨?_, ?_, ?_, List.forall_mem_nil _⟩
      all_goals exact groupsOf_ofList (by decide)
    · exact List.forall_mem_nil _

theorem cpuLoadReadings_groups (s : ContainerStats) (ts : Option Int) :
    ∀ r ∈ cpuLoadReadings s ts, groupsOf r.family = [.cpuLoad] := by
  refine List.forall_mem_cons.mpr ⟨?_, List.forall_mem_map.mpr fun _ _ => ?_⟩
  all_goals exact groupsOf_ofList (by decide)

theorem memoryReadings_groups (s : ContainerStats) (ts : Option Int) :
    ∀ r ∈ memoryReadings s ts, groupsOf r.family = [.memory] := by
  refine List.forall_mem_append.mpr ⟨?_, List.forall_mem_map.mpr fun _ _ => ?_⟩
  · simp only [List.forall_mem_cons]
    refine ⟨?_, ?_, ?_, ?_, ?_, ?_, ?_, ?_, ?_, List.forall_mem_nil _⟩
    all_goals exact groupsOf_ofList (by decide)
  · exact groupsOf_ofList (by decide)

theorem diskReadings_groups (s : ContainerStats) (ts : Option Int) :
    ∀ r ∈ diskReadings s ts, groupsOf r.family = [.disk] := by
  refine List.forall_mem_flatMap.mpr fun fs _ => ?_
  dsimp only
  simp only [List.forall_mem_cons]
  refine ⟨?_, ?_, ?_, ?_, List.forall_mem_nil _⟩
  all_goals exact groupsOf_ofList (by decide)

theorem operationReading_groups {family : String} {groups : List MetricGroup}
    (familyGroups : groupsOf family = groups) (device op : String) (entry : PerDiskStats)
    (ts : Option Int) :
    ∀ r ∈ operationReading family device op entry ts, groupsOf r.family = groups := by
  unfold operationReading
  cases entry.stats.get? op with
  | none => exact List.forall_mem_nil _
  | some v => exact List.forall_mem_singleton.mpr familyGroups

theorem diskIoReadings_groups (diskMap : SortedMap String DiskInfo) (s : ContainerStats)
    (ts : Option Int) : ∀ r ∈ diskIoReadings diskMap s ts, groupsOf r.family = [.diskIo] := by
  refine List.forall_mem_append.mpr ⟨List.forall_mem_append.mpr ⟨?_, ?_⟩, ?_⟩
  · refine List.forall_mem_flatMap.mpr fun entry _ => ?_
    refine List.forall_mem_append.mpr ⟨List.forall_mem_append.mpr ⟨?_, ?_⟩, ?_⟩
    · exact List.forall_mem_map.mpr fun _ _ => groupsOf_ofList (by decide)
    · apply operationReading_groups
      exact groupsOf_ofList (by decide)
    · apply operationReading_groups
      exact groupsOf_ofList (by decide)
  · refine List.forall_mem_flatMap.mpr fun entry _ => ?_
    refine List.forall_mem_append.mpr ⟨?_, ?_⟩
    · apply operationReading_groups
      exact groupsOf_ofList (by decide)
    · apply operationReading_groups
      exact groupsOf_ofList (by decide)
  · refine List.forall_mem_flatMap.mpr fun fs _ => ?_
    dsimp only
    simp only [List.forall_mem_cons]
    refine ⟨?_, ?_, ?_, ?_, ?_, ?_, ?_, ?_, ?_, ?_, ?_, List.forall_mem_nil _⟩
    all_goals exact groupsOf_ofList (by decide)

theorem networkReadings_groups (s : ContainerStats) (ts : Option Int) :
    ∀ r ∈ networkReadings s ts, groupsOf r.family = [.network] := by
  refine List.forall_mem_flatMap.mpr fun iface _ => List.forall_mem_map.mpr ?_
  simp only [List.forall_mem_cons]
  refine ⟨?_, ?_, ?_, ?_, ?_, ?_, ?_, ?_, List.forall_mem_nil _⟩
  all_goals exact groupsOf_ofList (by decide)

theorem oomReadings_groups (s : ContainerStats) (ts : Option Int) :
    ∀ r ∈ oomReadings s ts, groupsOf r.family = [.oomEvent] :=
  List.forall_mem_singleton.mpr (groupsOf_ofList (by decide))

/-! ## Disabling a token -/

theorem enabled_disable (opts : MetricsOpts) (token group : String) :
    (opts.disable token).enabled group = true ↔ opts.enabled group = true ∧ group ≠ token := by
  simp only [MetricsOpts.enabled, MetricsOpts.disable, SortedMap.contains_insert]
  simp [and_comm]

def keepOthers (token : String) (readings : List Reading) : List Reading :=
  readings.filter fun r => ¬ Follows token r.family

@[simp] theorem keepOthers_append (token : String) (front back : List Reading) :
    keepOthers token (front ++ back) = keepOthers token front ++ keepOthers token back :=
  List.filter_append ..

theorem keepOthers_free {token : String} {readings : List Reading}
    (free : ∀ r ∈ readings, groupsOf r.family = []) : keepOthers token readings = readings := by
  refine List.filter_eq_self.mpr fun r member => ?_
  rw [decide_eq_true_iff, follows_iff, free r member]
  simp

theorem gate_disable (opts : MetricsOpts) (token : String) (group : MetricGroup)
    {readings : List Reading} (under : ∀ r ∈ readings, groupsOf r.family = [group]) :
    (opts.disable token).gate group.token readings =
      keepOthers token (opts.gate group.token readings) := by
  have follows : ∀ r ∈ readings, Follows token r.family ↔ group.token = token := by
    intro r member
    rw [follows_iff, under r member]
    simp
  unfold MetricsOpts.gate keepOthers
  simp only [enabled_disable]
  by_cases on : opts.enabled group.token = true
  · by_cases same : group.token = token
    · rw [if_neg (by simp [same]), if_pos on]
      refine (List.filter_eq_nil_iff.mpr fun r member => ?_).symm
      simp [(follows r member).mpr same]
    · rw [if_pos ⟨on, same⟩, if_pos on]
      refine (List.filter_eq_self.mpr fun r member => ?_).symm
      simp [(follows r member).not.mpr same]
  · rw [if_neg (by simp [on]), if_neg on, List.filter_nil]

theorem specReadings_eq_gates (opts : MetricsOpts) (spec : ContainerSpec) (now : GoTime) :
    specReadings opts spec now =
      opts.gate "cpu" (if spec.hasCpu then
        [ ⟨"container_spec_cpu_period", [], spec.cpu.period.toFloat, none⟩,
          ⟨"container_spec_cpu_shares", [], spec.cpu.limit.toFloat, none⟩ ] ++
        (if spec.cpu.quota ≠ 0 then
          [ ⟨"container_spec_cpu_quota", [], spec.cpu.quota.toFloat, none⟩ ]
        else []) else []) ++
      opts.gate "memory" (if spec.hasMemory then
        [ ⟨"container_spec_memory_limit_bytes", [], clampUnlimited spec.memory.limit, none⟩,
          ⟨"container_spec_memory_swap_limit_bytes", [], clampUnlimited spec.memory.swapLimit,
            none⟩,
          ⟨"container_spec_memory_reservation_limit_bytes", [],
            clampUnlimited spec.memory.reservation, none⟩ ] else []) ++
      [ ⟨"container_start_time_seconds", [],
          Float.ofInt spec.creationTime.timestamp +
            Float.ofInt spec.creationTime.timestampSubsecNanos / 1e9, none⟩,
        ⟨"container_last_seen", [], Float.ofInt now.timestampMillis / 1000.0,
          some now.timestampMillis⟩ ] := by
  unfold specReadings MetricsOpts.gate
  simp only [ite_and]

theorem specReadings_disable (opts : MetricsOpts) (token : String) (spec : ContainerSpec)
    (now : GoTime) :
    specReadings (opts.disable token) spec now = keepOthers token (specReadings opts spec now) := by
  rw [specReadings_eq_gates, specReadings_eq_gates, keepOthers_append, keepOthers_append]
  refine congrArg₂ (· ++ ·) (congrArg₂ (· ++ ·) ?_ ?_) ?_
  · refine gate_disable opts token .cpu ?_
    split_ifs
    · refine List.forall_mem_append.mpr ⟨?_, List.forall_mem_singleton.mpr ?_⟩
      · simp only [List.forall_mem_cons]
        refine ⟨?_, ?_, List.forall_mem_nil _⟩
        all_goals exact groupsOf_ofList (by decide)
      · exact groupsOf_ofList (by decide)
    · simp only [List.append_nil, List.forall_mem_cons]
      refine ⟨?_, ?_, List.forall_mem_nil _⟩
      all_goals exact groupsOf_ofList (by decide)
    · exact List.forall_mem_nil _
  · refine gate_disable opts token .memory ?_
    split_ifs
    · simp only [List.forall_mem_cons]
      refine ⟨?_, ?_, ?_, List.forall_mem_nil _⟩
      all_goals exact groupsOf_ofList (by decide)
    · exact List.forall_mem_nil _
  · refine (keepOthers_free ?_).symm
    simp only [List.forall_mem_cons]
    refine ⟨?_, ?_, List.forall_mem_nil _⟩
    all_goals exact groupsOf_ofList (by decide)

theorem latestReadings_disable (opts : MetricsOpts) (token : String)
    (diskMap : SortedMap String DiskInfo) (spec : ContainerSpec) (s : ContainerStats) :
    latestReadings (opts.disable token) diskMap spec s =
      keepOthers token (latestReadings opts diskMap spec s) := by
  have cpu := gate_disable opts token .cpu
    (cpuReadings_groups spec s (some s.timestamp.timestampMillis))
  have cpuLoad := gate_disable opts token .cpuLoad
    (cpuLoadReadings_groups s (some s.timestamp.timestampMillis))
  have memory := gate_disable opts token .memory
    (memoryReadings_groups s (some s.timestamp.timestampMillis))
  have disk := gate_disable opts token .disk
    (diskReadings_groups s (some s.timestamp.timestampMillis))
  have diskIo := gate_disable opts token .diskIo
    (diskIoReadings_groups diskMap s (some s.timestamp.timestampMillis))
  have network := gate_disable opts token .network
    (networkReadings_groups s (some s.timestamp.timestampMillis))
  have oom := gate_disable opts token .oomEvent
    (oomReadings_groups s (some s.timestamp.timestampMillis))
  simp only [MetricGroup.token] at cpu cpuLoad memory disk diskIo network oom
  simp only [latestReadings, keepOthers_append, cpu, cpuLoad, memory, disk, diskIo, network, oom]

/-! ## The text -/

namespace Snapshot

theorem readings_disable (snap : Snapshot) (opts : MetricsOpts) (token : String)
    (h : ContainerHandle) :
    snap.readings (opts.disable token) h = keepOthers token (snap.readings opts h) := by
  unfold readings
  rw [keepOthers_append, specReadings_disable]
  refine congrArg (keepOthers token (specReadings opts h.spec snap.now) ++ ·) ?_
  cases h.store.latest with
  | none => rfl
  | some s => exact latestReadings_disable ..

theorem labels_disable (snap : Snapshot) (opts : MetricsOpts) (token : String)
    (h : ContainerHandle) : snap.labels (opts.disable token) h = snap.labels opts h := rfl

theorem containerPushes_disable (snap : Snapshot) (opts : MetricsOpts) (token : String)
    (h : ContainerHandle) :
    snap.containerPushes (opts.disable token) h =
      (snap.containerPushes opts h).filter fun p => ¬ Follows token p.family := by
  unfold containerPushes
  rw [readings_disable, labels_disable, List.filter_map]
  rfl

theorem machinePushes_groups (snap : Snapshot) :
    ∀ p ∈ snap.machinePushes, groupsOf p.family = [] := by
  unfold machinePushes
  simp only [List.forall_mem_append]
  refine ⟨⟨?_, ?_⟩, ?_⟩
  · simp only [List.forall_mem_cons]
    refine ⟨?_, ?_, ?_, ?_, ?_, List.forall_mem_nil _⟩
    all_goals exact groupsOf_ofList (by decide)
  · exact List.forall_mem_map.mpr fun _ _ => groupsOf_ofList (by decide)
  · simp only [List.forall_mem_cons]
    refine ⟨?_, ?_, List.forall_mem_nil _⟩
    all_goals exact groupsOf_ofList (by decide)

theorem not_follows_of_free {token family : String} (free : groupsOf family = []) :
    ¬ Follows token family := by
  rw [follows_iff, free]
  simp

theorem pushes_disable (snap : Snapshot) (opts : MetricsOpts) (token : String) :
    snap.pushes (opts.disable token) =
      (snap.pushes opts).filter fun p => ¬ Follows token p.family := by
  have version : ¬ Follows token snap.versionPush.family :=
    not_follows_of_free (groupsOf_ofList (by decide))
  have scrape : ¬ Follows token "container_scrape_error" :=
    not_follows_of_free (groupsOf_ofList (by decide))
  have machine : (snap.machinePushes.filter fun p => ¬ Follows token p.family) =
      snap.machinePushes := by
    refine List.filter_eq_self.mpr fun p member => ?_
    exact decide_eq_true (not_follows_of_free (snap.machinePushes_groups p member))
  unfold pushes
  rw [List.filter_append, List.filter_cons_of_pos (by simpa using version),
    List.filter_cons_of_pos (by simpa using scrape), machine, List.filter_flatMap]
  refine congrArg (fun middle => snap.versionPush :: middle ++ _) ?_
  exact List.flatMap_congr fun h _ => snap.containerPushes_disable opts token h

/-- Disabling a token takes from the text the whole families that follow it, and
nothing else; a token that is no group takes nothing. -/
theorem render_disable (ryu : Ryu) (snap : Snapshot) (opts : MetricsOpts) (token buf : String) :
    let exposition := blocks (snap.pushes opts)
    let text := unlines (exposition.flatMap (Block.lines ryu))
    snap.render ryu opts buf = buf ++ text ∧
      Str.split text '\n' = exposition.flatMap (Block.lines ryu) ++ [""] ∧
      (exposition.map Block.family).Sublist families ∧
      snap.render ryu (opts.disable token) buf = buf ++ unlines
        ((exposition.filter fun b => ¬ Follows token b.family.name).flatMap (Block.lines ryu)) ∧
      ((∀ group : MetricGroup, group.token ≠ token) →
        snap.render ryu (opts.disable token) buf = snap.render ryu opts buf) := by
  intro exposition text
  have disabled : snap.render ryu (opts.disable token) buf = buf ++ unlines
      ((exposition.filter fun b => ¬ Follows token b.family.name).flatMap (Block.lines ryu)) := by
    rw [render, render_eq_blocks, pushes_disable,
      blocks_filter fun family => ¬ Follows token family]
  refine ⟨render_eq_blocks ryu (snap.pushes opts) buf,
    split_unlines _ (snap.block_lines_oneLine ryu opts), blocks_sublist (snap.pushes opts),
    disabled, fun noGroup => ?_⟩
  have unfollowed : ∀ family, ¬ Follows token family := by
    intro family
    rw [follows_iff]
    rintro ⟨group, _, same⟩
    exact noGroup group same
  rw [render, pushes_disable,
    List.filter_eq_self.mpr fun p _ => decide_eq_true (unfollowed p.family)]
  rfl

end Snapshot

end Cadvisor
