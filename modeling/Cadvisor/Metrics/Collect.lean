import Cadvisor.Manager.Containers
import Cadvisor.Manager.Disks
import Cadvisor.Metrics.Labels
import Cadvisor.Metrics.Output

/-!
# Collecting the metrics

One pass over the containers and the machine.  What a container contributes is
listed as readings: the arguments of its pushes, each with the labels that are
handed to `with`.
-/

set_option autoImplicit false

namespace Cadvisor

open SortedSeq

/-- Values above 2^62 are treated as unlimited. -/
def clampUnlimited (v : UInt64) : Float :=
  if v.toNat > 2 ^ 62 then 0.0 else v.toFloat

structure Reading where
  family : String
  extra : List (String × String)
  value : Float
  ts : Option Int

def MetricsOpts.enabled (opts : MetricsOpts) (group : String) : Bool :=
  ¬ opts.disabledGroups.contains group

def specReadings (opts : MetricsOpts) (spec : ContainerSpec) (now : GoTime) : List Reading :=
  let nowMs := now.timestampMillis
  (if opts.enabled "cpu" ∧ spec.hasCpu then
      [ ⟨"container_spec_cpu_period", [], spec.cpu.period.toFloat, none⟩,
        ⟨"container_spec_cpu_shares", [], spec.cpu.limit.toFloat, none⟩ ] ++
      (if spec.cpu.quota ≠ 0 then
        [ ⟨"container_spec_cpu_quota", [], spec.cpu.quota.toFloat, none⟩ ]
      else [])
    else []) ++
  (if opts.enabled "memory" ∧ spec.hasMemory then
      [ ⟨"container_spec_memory_limit_bytes", [], clampUnlimited spec.memory.limit, none⟩,
        ⟨"container_spec_memory_swap_limit_bytes", [], clampUnlimited spec.memory.swapLimit,
          none⟩,
        ⟨"container_spec_memory_reservation_limit_bytes", [],
          clampUnlimited spec.memory.reservation, none⟩ ]
    else []) ++
  [ ⟨"container_start_time_seconds", [],
      Float.ofInt spec.creationTime.timestamp +
        Float.ofInt spec.creationTime.timestampSubsecNanos / 1e9, none⟩,
    ⟨"container_last_seen", [], Float.ofInt nowMs / 1000.0, some nowMs⟩ ]

/-- `cpu{i:02}`. -/
def cpuName (i : Nat) : String := "cpu" ++ (if i < 10 then "0" else "") ++ toString i

def cpuReadings (spec : ContainerSpec) (s : ContainerStats) (ts : Option Int) : List Reading :=
  [ ⟨"container_cpu_user_seconds_total", [], s.cpu.usage.user.toFloat / 1e9, ts⟩,
    ⟨"container_cpu_system_seconds_total", [], s.cpu.usage.system.toFloat / 1e9, ts⟩ ] ++
  (if s.cpu.usage.perCpu.isEmpty then
      if s.cpu.usage.total > 0 then
        [ ⟨"container_cpu_usage_seconds_total", [("cpu", "total")],
            s.cpu.usage.total.toFloat / 1e9, ts⟩ ]
      else []
    else s.cpu.usage.perCpu.zipIdx.filterMap fun cpu =>
      if cpu.1 > 0 then
        some ⟨"container_cpu_usage_seconds_total", [("cpu", cpuName cpu.2)],
          cpu.1.toFloat / 1e9, ts⟩
      else none) ++
  (if spec.cpu.quota ≠ 0 then
      [ ⟨"container_cpu_cfs_periods_total", [], s.cpu.cfs.periods.toFloat, ts⟩,
        ⟨"container_cpu_cfs_throttled_periods_total", [], s.cpu.cfs.throttledPeriods.toFloat,
          ts⟩,
        ⟨"container_cpu_cfs_throttled_seconds_total", [],
          s.cpu.cfs.throttledTime.toFloat / 1e9, ts⟩ ]
    else [])

def cpuLoadReadings (s : ContainerStats) (ts : Option Int) : List Reading :=
  ⟨"container_cpu_load_average_10s", [], Float.ofInt s.cpu.loadAverage / 1000.0, ts⟩ ::
  [ ("sleeping", s.taskStats.nrSleeping), ("running", s.taskStats.nrRunning),
    ("stopped", s.taskStats.nrStopped), ("uninterruptible", s.taskStats.nrUninterruptible),
    ("iowaiting", s.taskStats.nrIoWait) ].map fun state =>
      ⟨"container_tasks_state", [("state", state.1)], state.2.toFloat, ts⟩

def memoryReadings (s : ContainerStats) (ts : Option Int) : List Reading :=
  let m := s.memory
  [ ⟨"container_memory_cache", [], m.cache.toFloat, ts⟩,
    ⟨"container_memory_rss", [], m.rss.toFloat, ts⟩,
    ⟨"container_memory_kernel_usage", [], m.kernelUsage.toFloat, ts⟩,
    ⟨"container_memory_mapped_file", [], m.mappedFile.toFloat, ts⟩,
    ⟨"container_memory_swap", [], m.swap.toFloat, ts⟩,
    ⟨"container_memory_failcnt", [], m.failcnt.toFloat, ts⟩,
    ⟨"container_memory_usage_bytes", [], m.usage.toFloat, ts⟩,
    ⟨"container_memory_max_usage_bytes", [], m.maxUsage.toFloat, ts⟩,
    ⟨"container_memory_working_set_bytes", [], m.workingSet.toFloat, ts⟩ ] ++
  [ ("pgfault", "container", m.containerData.pgfault),
    ("pgmajfault", "container", m.containerData.pgmajfault),
    ("pgfault", "hierarchy", m.hierarchicalData.pgfault),
    ("pgmajfault", "hierarchy", m.hierarchicalData.pgmajfault) ].map fun failure =>
      ⟨"container_memory_failures_total",
        [("failure_type", failure.1), ("scope", failure.2.1)], failure.2.2.toFloat, ts⟩

def diskReadings (s : ContainerStats) (ts : Option Int) : List Reading :=
  s.filesystem.flatMap fun fs =>
    let dev := [("device", fs.device)]
    [ ⟨"container_fs_inodes_free", dev, fs.inodesFree.toFloat, ts⟩,
      ⟨"container_fs_inodes_total", dev, fs.inodes.toFloat, ts⟩,
      ⟨"container_fs_limit_bytes", dev, fs.limit.toFloat, ts⟩,
      ⟨"container_fs_usage_bytes", dev, fs.usage.toFloat, ts⟩ ]

/-- `/dev/` and the name that the disk map has for the device's numbers. -/
def resolveDisk (diskMap : SortedMap String DiskInfo) (entry : PerDiskStats) : String :=
  match diskMap.get? (diskKey entry) with
  | some disk => "/dev/" ++ disk.name
  | none => ""

def deviceOf (diskMap : SortedMap String DiskInfo) (entry : PerDiskStats) : String :=
  if entry.device = "" then resolveDisk diskMap entry else entry.device

def operationReading (family device op : String) (entry : PerDiskStats) (ts : Option Int) :
    List Reading :=
  match entry.stats.get? op with
  | some v => [ ⟨family, [("device", device)], v.toFloat, ts⟩ ]
  | none => []

def diskIoReadings (diskMap : SortedMap String DiskInfo) (s : ContainerStats)
    (ts : Option Int) : List Reading :=
  (s.diskIo.ioServiceBytes.flatMap fun entry =>
    let device := deviceOf diskMap entry
    (entry.stats.toList.map fun op =>
      ⟨"container_blkio_device_usage_total",
        [("device", device), ("major", toString entry.major.toNat),
          ("minor", toString entry.minor.toNat), ("operation", op.1)], op.2.toFloat, ts⟩) ++
    operationReading "container_fs_reads_bytes_total" device "Read" entry ts ++
    operationReading "container_fs_writes_bytes_total" device "Write" entry ts) ++
  (s.diskIo.ioServiced.flatMap fun entry =>
    let device := deviceOf diskMap entry
    operationReading "container_fs_reads_total" device "Read" entry ts ++
    operationReading "container_fs_writes_total" device "Write" entry ts) ++
  s.filesystem.flatMap fun fs =>
    let dev := [("device", fs.device)]
    [ ⟨"container_fs_reads_total", dev, fs.readsCompleted.toFloat, ts⟩,
      ⟨"container_fs_reads_merged_total", dev, fs.readsMerged.toFloat, ts⟩,
      ⟨"container_fs_sector_reads_total", dev, fs.sectorsRead.toFloat, ts⟩,
      ⟨"container_fs_read_seconds_total", dev, fs.readTime.toFloat / 1000.0, ts⟩,
      ⟨"container_fs_writes_total", dev, fs.writesCompleted.toFloat, ts⟩,
      ⟨"container_fs_writes_merged_total", dev, fs.writesMerged.toFloat, ts⟩,
      ⟨"container_fs_sector_writes_total", dev, fs.sectorsWritten.toFloat, ts⟩,
      ⟨"container_fs_write_seconds_total", dev, fs.writeTime.toFloat / 1000.0, ts⟩,
      ⟨"container_fs_io_current", dev, fs.ioInProgress.toFloat, ts⟩,
      ⟨"container_fs_io_time_seconds_total", dev, fs.ioTime.toFloat / 1000.0, ts⟩,
      ⟨"container_fs_io_time_weighted_seconds_total", dev, fs.weightedIoTime.toFloat / 1000.0,
        ts⟩ ]

def networkReadings (s : ContainerStats) (ts : Option Int) : List Reading :=
  s.network.interfaces.flatMap fun iface =>
    [ ("container_network_receive_bytes_total", iface.rxBytes),
      ("container_network_receive_packets_total", iface.rxPackets),
      ("container_network_receive_packets_dropped_total", iface.rxDropped),
      ("container_network_receive_errors_total", iface.rxErrors),
      ("container_network_transmit_bytes_total", iface.txBytes),
      ("container_network_transmit_packets_total", iface.txPackets),
      ("container_network_transmit_packets_dropped_total", iface.txDropped),
      ("container_network_transmit_errors_total", iface.txErrors) ].map fun net =>
        ⟨net.1, [("interface", iface.name)], net.2.toFloat, ts⟩

def oomReadings (s : ContainerStats) (ts : Option Int) : List Reading :=
  [ ⟨"container_oom_events_total", [], s.oomEvents.toFloat, ts⟩ ]

def MetricsOpts.gate (opts : MetricsOpts) (group : String) (readings : List Reading) :
    List Reading :=
  if opts.enabled group then readings else []

def latestReadings (opts : MetricsOpts) (diskMap : SortedMap String DiskInfo)
    (spec : ContainerSpec) (s : ContainerStats) : List Reading :=
  let ts := some s.timestamp.timestampMillis
  opts.gate "cpu" (cpuReadings spec s ts) ++ opts.gate "cpuLoad" (cpuLoadReadings s ts) ++
    opts.gate "memory" (memoryReadings s ts) ++ opts.gate "disk" (diskReadings s ts) ++
    opts.gate "diskIO" (diskIoReadings diskMap s ts) ++
    opts.gate "network" (networkReadings s ts) ++ opts.gate "oom_event" (oomReadings s ts)

/-- What `render` reads of the manager, and the clock. -/
structure Snapshot where
  versionInfo : VersionInfo
  containers : Registry
  machineInfo : MachineInfo
  now : GoTime

namespace Snapshot

def handles (snap : Snapshot) : List ContainerHandle := snap.containers.handles

def ownLabels (opts : MetricsOpts) (h : ContainerHandle) : SortedMap String String :=
  ContainerLabels.ownFrom h.name h.spec h.reference opts

def union (snap : Snapshot) (opts : MetricsOpts) : SortedSet String :=
  SortedSet.ofKeys (snap.handles.flatMap fun h => (ownLabels opts h).keys)

def labels (snap : Snapshot) (opts : MetricsOpts) (h : ContainerHandle) : ContainerLabels :=
  ContainerLabels.unioned (ownLabels opts h) (snap.union opts)

def readings (snap : Snapshot) (opts : MetricsOpts) (h : ContainerHandle) : List Reading :=
  specReadings opts h.spec snap.now ++
    match h.store.latest with
    | none => []
    | some s => latestReadings opts snap.machineInfo.diskMap h.spec s

def containerPushes (snap : Snapshot) (opts : MetricsOpts) (h : ContainerHandle) : List Push :=
  (snap.readings opts h).map fun r =>
    ⟨r.family, (snap.labels opts h).withExtra r.extra, r.value, r.ts⟩

def versionPush (snap : Snapshot) : Push :=
  let vi := snap.versionInfo
  ⟨"cadvisor_version_info",
    [ ("cadvisorRevision", vi.cadvisorRevision), ("cadvisorVersion", vi.cadvisorVersion),
      ("dockerVersion", vi.dockerVersion), ("kernelVersion", vi.kernelVersion),
      ("osVersion", vi.containerOsVersion) ], 1.0, none⟩

def machinePushes (snap : Snapshot) : List Push :=
  let mi := snap.machineInfo
  let mts := some mi.timestamp.timestampMillis
  let mlabels :=
    [("boot_id", mi.bootId), ("machine_id", mi.machineId), ("system_uuid", mi.systemUuid)]
  [ ⟨"machine_cpu_physical_cores", mlabels, Float.ofInt mi.numPhysicalCores, mts⟩,
    ⟨"machine_cpu_cores", mlabels, Float.ofInt mi.numCores, mts⟩,
    ⟨"machine_cpu_sockets", mlabels, Float.ofInt mi.numSockets, mts⟩,
    ⟨"machine_memory_bytes", mlabels, mi.memoryCapacity.toFloat, mts⟩,
    ⟨"machine_swap_bytes", mlabels, mi.swapCapacity.toFloat, mts⟩ ] ++
  ([ ("app_direct_mode", mi.nvmInfo.appDirectModeCapacity),
    ("memory_mode", mi.nvmInfo.memoryModeCapacity) ].map fun mode =>
      ⟨"machine_nvm_capacity", stableSort Prod.fst (mlabels ++ [("mode", mode.1)]),
        mode.2.toFloat, mts⟩) ++
  [ ⟨"machine_nvm_avg_power_budget_watts", mlabels, mi.nvmInfo.avgPowerBudget.toFloat, mts⟩,
    ⟨"machine_scrape_error", [], 0.0, none⟩ ]

/-- Every push of one `render`, in order. -/
def pushes (snap : Snapshot) (opts : MetricsOpts) : List Push :=
  snap.versionPush :: snap.handles.flatMap (snap.containerPushes opts) ++
    ⟨"container_scrape_error", [], 0.0, none⟩ :: snap.machinePushes

def render (ryu : Ryu) (snap : Snapshot) (opts : MetricsOpts) (buf : String) : String :=
  Output.render ryu ((snap.pushes opts).foldl Output.push Output.empty) buf

end Snapshot

end Cadvisor
