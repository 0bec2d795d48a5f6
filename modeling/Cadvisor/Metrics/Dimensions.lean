import Cadvisor.Metrics.Collect

/-!
# The label names of each family

A family's samples have one list of label names: a fixed one, or the names of the
containers' labels and the family's own.  Four families are pushed that the family
table does not have.
-/

set_option autoImplicit false

namespace Cadvisor

open SortedSeq

/-- What a container family adds to the container's labels. -/
inductive Extra where
  | none
  | cpu
  | state
  | failure
  | device
  | operation
  | interface

def Extra.names : Extra → List String
  | .none => []
  | .cpu => ["cpu"]
  | .state => ["state"]
  | .failure => ["failure_type", "scope"]
  | .device => ["device"]
  | .operation => ["device", "major", "minor", "operation"]
  | .interface => ["interface"]

inductive Dimension where
  | version
  | machine
  | nvm
  | bare
  | container (extra : Extra)

/-- The label names of a sample, from the names of the containers' labels. -/
def Dimension.names (own : List String) : Dimension → List String
  | .version =>
      ["cadvisorRevision", "cadvisorVersion", "dockerVersion", "kernelVersion", "osVersion"]
  | .machine => ["boot_id", "machine_id", "system_uuid"]
  | .nvm => ["boot_id", "machine_id", "mode", "system_uuid"]
  | .bare => []
  | .container extra => stableSort id (own ++ extra.names)

def dimensions : List (String × Dimension) :=
  [ ("cadvisor_version_info", .version),
    ("container_blkio_device_usage_total", .container .operation),
    ("container_cpu_load_average_10s", .container .none),
    ("container_cpu_system_seconds_total", .container .none),
    ("container_cpu_usage_seconds_total", .container .cpu),
    ("container_cpu_user_seconds_total", .container .none),
    ("container_fs_inodes_free", .container .device),
    ("container_fs_inodes_total", .container .device),
    ("container_fs_io_current", .container .device),
    ("container_fs_io_time_seconds_total", .container .device),
    ("container_fs_io_time_weighted_seconds_total", .container .device),
    ("container_fs_limit_bytes", .container .device),
    ("container_fs_read_seconds_total", .container .device),
    ("container_fs_reads_bytes_total", .container .device),
    ("container_fs_reads_merged_total", .container .device),
    ("container_fs_reads_total", .container .device),
    ("container_fs_sector_reads_total", .container .device),
    ("container_fs_sector_writes_total", .container .device),
    ("container_fs_usage_bytes", .container .device),
    ("container_fs_write_seconds_total", .container .device),
    ("container_fs_writes_bytes_total", .container .device),
    ("container_fs_writes_merged_total", .container .device),
    ("container_fs_writes_total", .container .device),
    ("container_last_seen", .container .none),
    ("container_memory_cache", .container .none),
    ("container_memory_failcnt", .container .none),
    ("container_memory_failures_total", .container .failure),
    ("container_memory_kernel_usage", .container .none),
    ("container_memory_mapped_file", .container .none),
    ("container_memory_max_usage_bytes", .container .none),
    ("container_memory_rss", .container .none),
    ("container_memory_swap", .container .none),
    ("container_memory_usage_bytes", .container .none),
    ("container_memory_working_set_bytes", .container .none),
    ("container_network_receive_bytes_total", .container .interface),
    ("container_network_receive_errors_total", .container .interface),
    ("container_network_receive_packets_dropped_total", .container .interface),
    ("container_network_receive_packets_total", .container .interface),
    ("container_network_transmit_bytes_total", .container .interface),
    ("container_network_transmit_errors_total", .container .interface),
    ("container_network_transmit_packets_dropped_total", .container .interface),
    ("container_network_transmit_packets_total", .container .interface),
    ("container_oom_events_total", .container .none),
    ("container_scrape_error", .bare),
    ("container_spec_cpu_period", .container .none),
    ("container_spec_cpu_shares", .container .none),
    ("container_spec_memory_limit_bytes", .container .none),
    ("container_spec_memory_reservation_limit_bytes", .container .none),
    ("container_spec_memory_swap_limit_bytes", .container .none),
    ("container_start_time_seconds", .container .none),
    ("container_tasks_state", .container .state),
    ("machine_cpu_cores", .machine),
    ("machine_cpu_physical_cores", .machine),
    ("machine_cpu_sockets", .machine),
    ("machine_memory_bytes", .machine),
    ("machine_nvm_avg_power_budget_watts", .machine),
    ("machine_nvm_capacity", .nvm),
    ("machine_scrape_error", .bare),
    ("machine_swap_bytes", .machine) ]

/-- The families that are pushed and have no place in the family table. -/
def unlisted : List String :=
  [ "container_cpu_cfs_periods_total", "container_cpu_cfs_throttled_periods_total",
    "container_cpu_cfs_throttled_seconds_total", "container_spec_cpu_quota" ]

theorem dimensions_names : dimensions.map Prod.fst = familyNames := rfl

theorem dimension_unique {family : String} {d e : Dimension} (first : (family, d) ∈ dimensions)
    (second : (family, e) ∈ dimensions) : d = e := by
  have distinct : (dimensions.map Prod.fst).Nodup := dimensions_names ▸ familyNames_nodup
  have same := List.inj_on_of_nodup_map distinct first second rfl
  exact (Prod.mk.inj same).2

theorem unlisted_notMem {family : String} (missing : family ∈ unlisted) :
    family ∉ familyNames := by
  have between : ∀ (i : Nat) (low high : String), (familyNames.take i).getLast? = some low →
      (familyNames.drop i).head? = some high → low < family → family < high →
      family ∉ familyNames := by
    intro i low high lowIs highIs above below
    have sorted := familyNames_sorted
    rw [← List.take_append_drop i familyNames] at sorted ⊢
    exact notMem_of_between sorted lowIs highIs above below
  simp only [unlisted, List.mem_cons, List.not_mem_nil, or_false] at missing
  rcases missing with rfl | rfl | rfl | rfl
  · exact between 2 _ _ rfl rfl (Str.ofList_lt (by decide)) (Str.ofList_lt (by decide))
  · exact between 2 _ _ rfl rfl (Str.ofList_lt (by decide)) (Str.ofList_lt (by decide))
  · exact between 2 _ _ rfl rfl (Str.ofList_lt (by decide)) (Str.ofList_lt (by decide))
  · exact between 45 _ _ rfl rfl (Str.ofList_lt (by decide)) (Str.ofList_lt (by decide))

/-! ## What a reading adds -/

/-- A reading adds its family's labels; its family is in the table, or one of the
unlisted ones where these can be pushed. -/
def Reading.Shaped (mayMiss : Prop) (r : Reading) : Prop :=
  ∃ extra : Extra, r.extra.map Prod.fst = extra.names ∧
    ((r.family, Dimension.container extra) ∈ dimensions ∨
      (mayMiss ∧ r.family ∈ unlisted ∧ r.extra = []))

theorem Reading.Shaped.mono {mayMiss other : Prop} {r : Reading} (shaped : r.Shaped mayMiss)
    (implies : mayMiss → other) : r.Shaped other := by
  obtain ⟨extra, names, listed | ⟨may, missing⟩⟩ := shaped
  · exact ⟨extra, names, Or.inl listed⟩
  · exact ⟨extra, names, Or.inr ⟨implies may, missing⟩⟩

theorem shaped_listed {mayMiss : Prop} {r : Reading} (extra : Extra)
    (names : r.extra.map Prod.fst = extra.names)
    (listed : (r.family, Dimension.container extra) ∈ dimensions) : r.Shaped mayMiss :=
  ⟨extra, names, Or.inl listed⟩

theorem shaped_unlisted {mayMiss : Prop} {r : Reading} (may : mayMiss) (plain : r.extra = [])
    (missing : r.family ∈ unlisted) : r.Shaped mayMiss :=
  ⟨.none, by rw [plain]; rfl, Or.inr ⟨may, missing, plain⟩⟩

def QuotaSet (spec : ContainerSpec) : Prop := spec.cpu.quota ≠ 0

theorem specReadings_shaped (opts : MetricsOpts) (spec : ContainerSpec) (now : GoTime) :
    ∀ r ∈ specReadings opts spec now,
      r.Shaped (opts.enabled "cpu" ∧ spec.hasCpu ∧ QuotaSet spec) := by
  unfold specReadings
  simp only [List.forall_mem_append]
  refine ⟨⟨?_, ?_⟩, ?_⟩
  · split_ifs with cpu quota
    · refine List.forall_mem_append.mpr ⟨?_, ?_⟩
      · simp only [List.forall_mem_cons]
        refine ⟨?_, ?_, List.forall_mem_nil _⟩
        all_goals
          apply shaped_listed .none rfl
          simp only [dimensions, List.mem_cons, true_or, or_true]
      · intro r member
        rw [List.mem_singleton.mp member]
        exact shaped_unlisted ⟨cpu.1, cpu.2, quota⟩ rfl
          (by simp only [unlisted, List.mem_cons, true_or, or_true])
    · simp only [List.append_nil, List.forall_mem_cons]
      refine ⟨?_, ?_, List.forall_mem_nil _⟩
      all_goals
        apply shaped_listed .none rfl
        simp only [dimensions, List.mem_cons, true_or, or_true]
    · exact List.forall_mem_nil _
  · split_ifs
    · simp only [List.forall_mem_cons]
      refine ⟨?_, ?_, ?_, List.forall_mem_nil _⟩
      all_goals
        apply shaped_listed .none rfl
        simp only [dimensions, List.mem_cons, true_or, or_true]
    · exact List.forall_mem_nil _
  · simp only [List.forall_mem_cons]
    refine ⟨?_, ?_, List.forall_mem_nil _⟩
    all_goals
      apply shaped_listed .none rfl
      simp only [dimensions, List.mem_cons, true_or, or_true]

theorem cpuReadings_shaped (spec : ContainerSpec) (s : ContainerStats) (ts : Option Int) :
    ∀ r ∈ cpuReadings spec s ts, r.Shaped (QuotaSet spec) := by
  unfold cpuReadings
  simp only [List.forall_mem_append]
  refine ⟨⟨?_, ?_⟩, ?_⟩
  · simp only [List.forall_mem_cons]
    refine ⟨?_, ?_, List.forall_mem_nil _⟩
    all_goals
      apply shaped_listed .none rfl
      simp only [dimensions, List.mem_cons, true_or, or_true]
  · have usage : ("container_cpu_usage_seconds_total", Dimension.container .cpu) ∈ dimensions := by
      simp only [dimensions, List.mem_cons, true_or, or_true]
    split_ifs
    · intro r member
      rw [List.mem_singleton.mp member]
      exact shaped_listed .cpu rfl usage
    · exact List.forall_mem_nil _
    · intro r member
      obtain ⟨cpu, _, isReading⟩ := List.mem_filterMap.mp member
      split_ifs at isReading
      rw [← Option.some.inj isReading]
      exact shaped_listed .cpu rfl usage
  · split_ifs with quota
    · simp only [List.forall_mem_cons]
      refine ⟨?_, ?_, ?_, List.forall_mem_nil _⟩
      all_goals
        apply shaped_unlisted quota rfl
        simp only [unlisted, List.mem_cons, true_or, or_true]
    · exact List.forall_mem_nil _

theorem cpuLoadReadings_shaped (s : ContainerStats) (ts : Option Int) :
    ∀ r ∈ cpuLoadReadings s ts, r.Shaped False := by
  refine List.forall_mem_cons.mpr ⟨?_, ?_⟩
  · apply shaped_listed .none rfl
    simp only [dimensions, List.mem_cons, true_or, or_true]
  · refine List.forall_mem_map.mpr fun state _ => ?_
    apply shaped_listed .state rfl
    simp only [dimensions, List.mem_cons, true_or, or_true]

theorem memoryReadings_shaped (s : ContainerStats) (ts : Option Int) :
    ∀ r ∈ memoryReadings s ts, r.Shaped False := by
  refine List.forall_mem_append.mpr ⟨?_, ?_⟩
  · simp only [List.forall_mem_cons]
    refine ⟨?_, ?_, ?_, ?_, ?_, ?_, ?_, ?_, ?_, List.forall_mem_nil _⟩
    all_goals
      apply shaped_listed .none rfl
      simp only [dimensions, List.mem_cons, true_or, or_true]
  · refine List.forall_mem_map.mpr fun failure _ => ?_
    apply shaped_listed .failure rfl
    simp only [dimensions, List.mem_cons, true_or, or_true]

theorem diskReadings_shaped (s : ContainerStats) (ts : Option Int) :
    ∀ r ∈ diskReadings s ts, r.Shaped False := by
  refine List.forall_mem_flatMap.mpr fun fs _ => ?_
  dsimp only
  simp only [List.forall_mem_cons]
  refine ⟨?_, ?_, ?_, ?_, List.forall_mem_nil _⟩
  all_goals
    apply shaped_listed .device rfl
    simp only [dimensions, List.mem_cons, true_or, or_true]

theorem operationReading_shaped {family : String} (device op : String) (entry : PerDiskStats)
    (ts : Option Int) (listed : (family, Dimension.container .device) ∈ dimensions) :
    ∀ r ∈ operationReading family device op entry ts, r.Shaped False := by
  unfold operationReading
  cases entry.stats.get? op with
  | none => exact List.forall_mem_nil _
  | some v =>
      intro r member
      rw [List.mem_singleton.mp member]
      exact shaped_listed .device rfl listed

theorem diskIoReadings_shaped (diskMap : SortedMap String DiskInfo) (s : ContainerStats)
    (ts : Option Int) : ∀ r ∈ diskIoReadings diskMap s ts, r.Shaped False := by
  refine List.forall_mem_append.mpr ⟨List.forall_mem_append.mpr ⟨?_, ?_⟩, ?_⟩
  · refine List.forall_mem_flatMap.mpr fun entry _ => ?_
    refine List.forall_mem_append.mpr ⟨List.forall_mem_append.mpr ⟨?_, ?_⟩, ?_⟩
    · refine List.forall_mem_map.mpr fun op _ => ?_
      apply shaped_listed .operation rfl
      simp only [dimensions, List.mem_cons, true_or, or_true]
    · apply operationReading_shaped
      simp only [dimensions, List.mem_cons, true_or, or_true]
    · apply operationReading_shaped
      simp only [dimensions, List.mem_cons, true_or, or_true]
  · refine List.forall_mem_flatMap.mpr fun entry _ => ?_
    refine List.forall_mem_append.mpr ⟨?_, ?_⟩
    · apply operationReading_shaped
      simp only [dimensions, List.mem_cons, true_or, or_true]
    · apply operationReading_shaped
      simp only [dimensions, List.mem_cons, true_or, or_true]
  · refine List.forall_mem_flatMap.mpr fun fs _ => ?_
    dsimp only
    simp only [List.forall_mem_cons]
    refine ⟨?_, ?_, ?_, ?_, ?_, ?_, ?_, ?_, ?_, ?_, ?_, List.forall_mem_nil _⟩
    all_goals
      apply shaped_listed .device rfl
      simp only [dimensions, List.mem_cons, true_or, or_true]

theorem networkReadings_shaped (s : ContainerStats) (ts : Option Int) :
    ∀ r ∈ networkReadings s ts, r.Shaped False := by
  refine List.forall_mem_flatMap.mpr fun iface _ => ?_
  refine List.forall_mem_map.mpr ?_
  simp only [List.forall_mem_cons]
  refine ⟨?_, ?_, ?_, ?_, ?_, ?_, ?_, ?_, List.forall_mem_nil _⟩
  all_goals
    apply shaped_listed .interface rfl
    simp only [dimensions, List.mem_cons, true_or, or_true]

theorem oomReadings_shaped (s : ContainerStats) (ts : Option Int) :
    ∀ r ∈ oomReadings s ts, r.Shaped False := by
  intro r member
  rw [List.mem_singleton.mp member]
  apply shaped_listed .none rfl
  simp only [dimensions, List.mem_cons, true_or, or_true]

end Cadvisor
