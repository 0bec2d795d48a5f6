import Cadvisor.Api.Endpoints
import Cadvisor.Model.RoundTrip

/-!
# The payloads of the API on the wire

Every type an answer is written from, with the keys of its fields and with what of it is
skipped, down to the types that a sample is made of.
-/

set_option autoImplicit false

namespace Cadvisor

open Serde

/-- What `serde_json` reads of the digits it wrote of an `f32` is a double, which is rounded
to an `f32` again. -/
structure PayloadText extends WireText where
  rereadSingle : Float32 → Option Float
  round : Float → Float32

namespace PayloadText

def single (w : PayloadText) : Codec SerdeStr Float Float32 where
  enc x :=
    match w.rereadSingle x with
    | some y => .float y
    | none => .null
  dec
    | .float y => some (w.round y)
    | .int n => some (w.round (Float.ofInt n))
    | _ => none

/-- An `f32` whose digits are read as it. -/
def ExactSingle (w : PayloadText) (x : Float32) : Prop :=
  ∃ y, w.rereadSingle x = some y ∧ w.round y = x

theorem single_reads {w : PayloadText} {x : Float32} (exact' : w.ExactSingle x) :
    w.single.Reads x x := by
  obtain ⟨y, read, same⟩ := exact'
  unfold Codec.Reads single
  simp only [read, same]

end PayloadText

/-! ## v1 -/

def CpuSpec.wire : Record SerdeStr Float CpuSpec where
  make := CpuSpec.mk
  dflt := {}
  fields :=
    .cons "limit" u64 (·.limit) never <|
    .cons "max_limit" u64 (·.maxLimit) never <|
    .cons "mask" str (·.mask) String.isEmpty <|
    .cons "quota" u64 (·.quota) isZero <|
    .cons "period" u64 (·.period) isZero <|
    .nil
  nodup := by decide
  complete _ := rfl

def MemorySpec.wire : Record SerdeStr Float MemorySpec where
  make := MemorySpec.mk
  dflt := {}
  fields :=
    .cons "limit" u64 (·.limit) isZero <|
    .cons "reservation" u64 (·.reservation) isZero <|
    .cons "swap_limit" u64 (·.swapLimit) isZero <|
    .nil
  nodup := by decide
  complete _ := rfl

def ProcessSpec.wire : Record SerdeStr Float ProcessSpec where
  make := ProcessSpec.mk
  dflt := {}
  fields :=
    .cons "limit" u64 (·.limit) isZero <|
    .nil
  nodup := by decide
  complete _ := rfl

def MetricSpec.wire : Record SerdeStr Float MetricSpec where
  make := MetricSpec.mk
  dflt := {}
  fields :=
    .cons "name" str (·.name) never <|
    .cons "type" str (·.metricType) never <|
    .cons "format" str (·.format) never <|
    .cons "units" str (·.units) never <|
    .nil
  nodup := by decide
  complete _ := rfl

def ContainerSpec.wire (w : WireText) : Record SerdeStr Float ContainerSpec where
  make := ContainerSpec.mk
  dflt := {}
  fields :=
    .cons "creation_time" w.time (·.creationTime) never <|
    .cons "labels" (named str) (·.labels) SortedMap.isEmpty <|
    .cons "envs" (named str) (·.envs) SortedMap.isEmpty <|
    .cons "has_cpu" boolean (·.hasCpu) never <|
    .cons "cpu" CpuSpec.wire.codec (·.cpu) never <|
    .cons "has_memory" boolean (·.hasMemory) never <|
    .cons "memory" MemorySpec.wire.codec (·.memory) never <|
    .cons "has_hugetlb" boolean (·.hasHugetlb) never <|
    .cons "has_network" boolean (·.hasNetwork) never <|
    .cons "has_processes" boolean (·.hasProcesses) never <|
    .cons "processes" ProcessSpec.wire.codec (·.processes) never <|
    .cons "has_filesystem" boolean (·.hasFilesystem) never <|
    .cons "has_diskio" boolean (·.hasDiskIo) never <|
    .cons "has_custom_metrics" boolean (·.hasCustomMetrics) never <|
    .cons "custom_metrics" (list MetricSpec.wire.codec) (·.customMetrics) List.isEmpty <|
    .cons "image" str (·.image) String.isEmpty <|
    .nil
  nodup := by simp [Fields.keys]
  complete _ := rfl

def ContainerReference.wire : Record SerdeStr Float ContainerReference where
  make := ContainerReference.mk
  dflt := {}
  fields :=
    .cons "id" str (·.id) String.isEmpty <|
    .cons "name" str (·.name) never <|
    .cons "aliases" (list str) (·.aliases) List.isEmpty <|
    .cons "namespace" str (·.namespace) String.isEmpty <|
    .nil
  nodup := by decide
  complete _ := rfl

def ContainerInfo.wire (w : WireText) :
    Flattened SerdeStr Float ContainerReference ContainerInfo where
  make := ContainerInfo.mk
  dflt := {}
  part := ContainerReference.wire
  get := ContainerInfo.reference
  fields :=
    .cons "subcontainers" (list ContainerReference.wire.codec) (·.subcontainers) List.isEmpty <|
    .cons "spec" (ContainerSpec.wire w).codec (·.spec) never <|
    .cons "stats" (list (ContainerStats.wire w).codec) (·.stats) List.isEmpty <|
    .nil
  nodup := by simp [ContainerReference.wire, Fields.keys]
  complete _ := rfl

def CpuInstUsage.wire : Record SerdeStr Float CpuInstUsage where
  make := CpuInstUsage.mk
  dflt := {}
  fields :=
    .cons "total" u64 (·.total) never <|
    .cons "per_cpu_usage" (list u64) (·.perCpu) List.isEmpty <|
    .cons "user" u64 (·.user) never <|
    .cons "system" u64 (·.system) never <|
    .nil
  nodup := by decide
  complete _ := rfl

def CpuInstStats.wire : Record SerdeStr Float CpuInstStats where
  make := CpuInstStats.mk
  dflt := {}
  fields :=
    .cons "usage" CpuInstUsage.wire.codec (·.usage) never <|
    .nil
  nodup := by decide
  complete _ := rfl

/-! ## Events -/

namespace EventType

/-- The names of `serde(rename)`. -/
def name : EventType → String
  | .oom => "oom"
  | .oomKill => "oomKill"
  | .containerCreation => "containerCreation"
  | .containerDeletion => "containerDeletion"

def ofName (s : String) : Option EventType :=
  if s = "oom" then some .oom
  else if s = "oomKill" then some .oomKill
  else if s = "containerCreation" then some .containerCreation
  else if s = "containerDeletion" then some .containerDeletion
  else none

/-- A variant without a value is its name, or an object that has null under it. -/
def wire : Codec SerdeStr Float EventType where
  enc e := .str (SerdeStr.written e.name)
  dec
    | .str s => ofName s.text
    | .obj [(key, .null)] => ofName key
    | _ => none

end EventType

/-- An `i64`. -/
def int64 : Codec SerdeStr Float Int := integer (-2 ^ 63) (2 ^ 63) id id

def OomKillEventData.wire : Record SerdeStr Float OomKillEventData where
  make := OomKillEventData.mk
  dflt := {}
  fields :=
    .cons "pid" int64 (·.pid) never <|
    .cons "process_name" str (·.processName) never <|
    .cons "constraint" str (·.constraint) never <|
    .nil
  nodup := by decide
  complete _ := rfl

def EventData.wire : Record SerdeStr Float EventData where
  make := EventData.mk
  dflt := {}
  fields :=
    .cons "oom" (optional OomKillEventData.wire.codec) (·.oomKill) Option.isNone <|
    .nil
  nodup := by decide
  complete _ := rfl

def Event.wire (w : WireText) : Record SerdeStr Float Event where
  make := Event.mk
  dflt := {}
  fields :=
    .cons "container_name" str (·.containerName) never <|
    .cons "timestamp" w.time (·.timestamp) never <|
    .cons "event_type" EventType.wire (·.eventType) never <|
    .cons "event_data" EventData.wire.codec (·.eventData) never <|
    .nil
  nodup := by simp [Fields.keys]
  complete _ := rfl

/-! ## v2 -/

namespace V2

def NetworkStats.wire : Record SerdeStr Float NetworkStats where
  make := NetworkStats.mk
  dflt := {}
  fields :=
    .cons "interfaces" (list InterfaceStats.wire.codec) (·.interfaces) List.isEmpty <|
    .cons "tcp" TcpStat.wire.codec (·.tcp) never <|
    .cons "tcp6" TcpStat.wire.codec (·.tcp6) never <|
    .cons "udp" UdpStat.wire.codec (·.udp) never <|
    .cons "udp6" UdpStat.wire.codec (·.udp6) never <|
    .cons "tcp_advanced" TcpAdvancedStat.wire.codec (·.tcpAdvanced) never <|
    .nil
  nodup := by decide
  complete _ := rfl

/-- The last key has upstream's spelling. -/
def FilesystemStats.wire : Record SerdeStr Float FilesystemStats where
  make := FilesystemStats.mk
  dflt := {}
  fields :=
    .cons "totalUsageBytes" (optional u64) (·.totalUsageBytes) Option.isNone <|
    .cons "baseUsageBytes" (optional u64) (·.baseUsageBytes) Option.isNone <|
    .cons "containter_inode_usage" (optional u64) (·.inodeUsage) Option.isNone <|
    .nil
  nodup := by decide
  complete _ := rfl

def ContainerSpec.wire (w : WireText) : Record SerdeStr Float ContainerSpec where
  make := ContainerSpec.mk
  dflt := {}
  fields :=
    .cons "creation_time" w.time (·.creationTime) never <|
    .cons "aliases" (list str) (·.aliases) List.isEmpty <|
    .cons "namespace" str (·.namespace) String.isEmpty <|
    .cons "labels" (named str) (·.labels) SortedMap.isEmpty <|
    .cons "envs" (named str) (·.envs) SortedMap.isEmpty <|
    .cons "has_cpu" boolean (·.hasCpu) never <|
    .cons "cpu" CpuSpec.wire.codec (·.cpu) never <|
    .cons "has_memory" boolean (·.hasMemory) never <|
    .cons "memory" MemorySpec.wire.codec (·.memory) never <|
    .cons "has_hugetlb" boolean (·.hasHugetlb) never <|
    .cons "has_custom_metrics" boolean (·.hasCustomMetrics) never <|
    .cons "custom_metrics" (list MetricSpec.wire.codec) (·.customMetrics) List.isEmpty <|
    .cons "has_processes" boolean (·.hasProcesses) never <|
    .cons "processes" ProcessSpec.wire.codec (·.processes) never <|
    .cons "has_network" boolean (·.hasNetwork) never <|
    .cons "has_filesystem" boolean (·.hasFilesystem) never <|
    .cons "has_diskio" boolean (·.hasDiskIo) never <|
    .cons "image" str (·.image) String.isEmpty <|
    .nil
  nodup := by simp [Fields.keys]
  complete _ := rfl

def DeprecatedContainerStats.wire (w : WireText) :
    Record SerdeStr Float DeprecatedContainerStats where
  make := DeprecatedContainerStats.mk
  dflt := {}
  fields :=
    .cons "timestamp" w.time (·.timestamp) never <|
    .cons "has_cpu" boolean (·.hasCpu) never <|
    .cons "cpu" CpuStats.wire.codec (·.cpu) never <|
    .cons "cpu_inst" (optional CpuInstStats.wire.codec) (·.cpuInst) Option.isNone <|
    .cons "has_diskio" boolean (·.hasDiskIo) never <|
    .cons "diskio" DiskIoStats.wire.codec (·.diskIo) never <|
    .cons "has_memory" boolean (·.hasMemory) never <|
    .cons "memory" MemoryStats.wire.codec (·.memory) never <|
    .cons "has_hugetlb" boolean (·.hasHugetlb) never <|
    .cons "hugetlb" (named HugetlbStats.wire.codec) (·.hugetlb) SortedMap.isEmpty <|
    .cons "has_network" boolean (·.hasNetwork) never <|
    .cons "network" NetworkStats.wire.codec (·.network) never <|
    .cons "has_processes" boolean (·.hasProcesses) never <|
    .cons "processes" ProcessStats.wire.codec (·.processes) never <|
    .cons "has_filesystem" boolean (·.hasFilesystem) never <|
    .cons "filesystem" (list FsStats.wire.codec) (·.filesystem) List.isEmpty <|
    .cons "has_load" boolean (·.hasLoad) never <|
    .cons "load_stats" LoadStats.wire.codec (·.load) never <|
    .cons "has_custom_metrics" boolean (·.hasCustomMetrics) never <|
    .cons "custom_metrics" (named (list (MetricVal.wire w).codec)) (·.customMetrics)
      SortedMap.isEmpty <|
    .cons "perf_stats" (list (PerfStat.wire w).codec) (·.perfStats) List.isEmpty <|
    .cons "perf_uncore_stats" (list (PerfUncoreStat.wire w).codec) (·.perfUncoreStats)
      List.isEmpty <|
    .cons "referenced_memory" u64 (·.referencedMemory) isZero <|
    .cons "resctrl" ResctrlStats.wire.codec (·.resctrl) never <|
    .nil
  nodup := by simp [Fields.keys]
  complete _ := rfl

def ContainerStats.wire (w : WireText) : Record SerdeStr Float ContainerStats where
  make := ContainerStats.mk
  dflt := {}
  fields :=
    .cons "timestamp" w.time (·.timestamp) never <|
    .cons "cpu" (optional CpuStats.wire.codec) (·.cpu) Option.isNone <|
    .cons "cpu_inst" (optional CpuInstStats.wire.codec) (·.cpuInst) Option.isNone <|
    .cons "diskio" (optional DiskIoStats.wire.codec) (·.diskIo) Option.isNone <|
    .cons "memory" (optional MemoryStats.wire.codec) (·.memory) Option.isNone <|
    .cons "hugetlb" (optional (named HugetlbStats.wire.codec)) (·.hugetlb) Option.isNone <|
    .cons "network" (optional NetworkStats.wire.codec) (·.network) Option.isNone <|
    .cons "processes" (optional ProcessStats.wire.codec) (·.processes) Option.isNone <|
    .cons "filesystem" (optional FilesystemStats.wire.codec) (·.filesystem) Option.isNone <|
    .cons "load_stats" (optional LoadStats.wire.codec) (·.load) Option.isNone <|
    .cons "accelerators" (list AcceleratorStats.wire.codec) (·.accelerators) List.isEmpty <|
    .cons "custom_metrics" (named (list (MetricVal.wire w).codec)) (·.customMetrics)
      SortedMap.isEmpty <|
    .cons "perf_stats" (list (PerfStat.wire w).codec) (·.perfStats) List.isEmpty <|
    .cons "perf_uncore_stats" (list (PerfUncoreStat.wire w).codec) (·.perfUncoreStats)
      List.isEmpty <|
    .cons "referenced_memory" u64 (·.referencedMemory) isZero <|
    .cons "resctrl" ResctrlStats.wire.codec (·.resctrl) never <|
    .nil
  nodup := by simp [Fields.keys]
  complete _ := rfl

def ContainerInfo.wire (w : WireText) : Record SerdeStr Float ContainerInfo where
  make := ContainerInfo.mk
  dflt := {}
  fields :=
    .cons "spec" (ContainerSpec.wire w).codec (·.spec) never <|
    .cons "stats" (list (ContainerStats.wire w).codec) (·.stats) List.isEmpty <|
    .nil
  nodup := by simp [Fields.keys]
  complete _ := rfl

def DiskStats.wire : Record SerdeStr Float DiskStats where
  make := DiskStats.mk
  dflt := {}
  fields :=
    .cons "reads_completed" (optional u64) (·.readsCompleted) Option.isNone <|
    .cons "reads_merged" (optional u64) (·.readsMerged) Option.isNone <|
    .cons "sectors_read" (optional u64) (·.sectorsRead) Option.isNone <|
    .cons "read_duration" (optional i64) (·.readDuration) Option.isNone <|
    .cons "writes_completed" (optional u64) (·.writesCompleted) Option.isNone <|
    .cons "writes_merged" (optional u64) (·.writesMerged) Option.isNone <|
    .cons "sectors_written" (optional u64) (·.sectorsWritten) Option.isNone <|
    .cons "write_duration" (optional i64) (·.writeDuration) Option.isNone <|
    .cons "io_in_progress" (optional u64) (·.ioInProgress) Option.isNone <|
    .cons "io_duration" (optional i64) (·.ioDuration) Option.isNone <|
    .cons "weighted_io_duration" (optional i64) (·.weightedIoDuration) Option.isNone <|
    .nil
  nodup := by decide
  complete _ := rfl

/-- The disk stats are not flattened: upstream's key for them is `inline`. -/
def MachineFsStats.wire : Record SerdeStr Float MachineFsStats where
  make := MachineFsStats.mk
  dflt := {}
  fields :=
    .cons "device" str (·.device) never <|
    .cons "type" str (·.fsType) never <|
    .cons "capacity" (optional u64) (·.capacity) Option.isNone <|
    .cons "usage" (optional u64) (·.usage) Option.isNone <|
    .cons "available" (optional u64) (·.available) Option.isNone <|
    .cons "inodes_free" (optional u64) (·.inodesFree) Option.isNone <|
    .cons "inline" DiskStats.wire.codec (·.diskStats) never <|
    .nil
  nodup := by decide
  complete _ := rfl

def MachineStats.wire (w : WireText) : Record SerdeStr Float MachineStats where
  make := MachineStats.mk
  dflt := {}
  fields :=
    .cons "timestamp" w.time (·.timestamp) never <|
    .cons "cpu" (optional CpuStats.wire.codec) (·.cpu) Option.isNone <|
    .cons "cpu_inst" (optional CpuInstStats.wire.codec) (·.cpuInst) Option.isNone <|
    .cons "memory" (optional MemoryStats.wire.codec) (·.memory) Option.isNone <|
    .cons "network" (optional NetworkStats.wire.codec) (·.network) Option.isNone <|
    .cons "filesystem" (list MachineFsStats.wire.codec) (·.filesystem) List.isEmpty <|
    .cons "load_stats" (optional LoadStats.wire.codec) (·.load) Option.isNone <|
    .nil
  nodup := by simp [Fields.keys]
  complete _ := rfl

def ProcessInfo.wire (w : PayloadText) : Record SerdeStr Float ProcessInfo where
  make := ProcessInfo.mk
  dflt := {}
  fields :=
    .cons "user" str (·.user) never <|
    .cons "pid" int64 (·.pid) never <|
    .cons "parent_pid" int64 (·.ppid) never <|
    .cons "start_time" str (·.startTime) never <|
    .cons "percent_cpu" w.single (·.percentCpu) never <|
    .cons "percent_mem" w.single (·.percentMemory) never <|
    .cons "rss" u64 (·.rss) never <|
    .cons "virtual_size" u64 (·.virtualSize) never <|
    .cons "status" str (·.status) never <|
    .cons "running_time" str (·.runningTime) never <|
    .cons "cgroup_path" str (·.cgroupPath) never <|
    .cons "cmd" str (·.cmd) never <|
    .cons "fd_count" int64 (·.fdCount) never <|
    .cons "psr" int64 (·.psr) never <|
    .nil
  nodup := by simp [Fields.keys]
  complete _ := rfl

def Percentiles.wire : Record SerdeStr Float Percentiles where
  make := Percentiles.mk
  dflt := {}
  fields :=
    .cons "present" boolean (·.present) never <|
    .cons "mean" u64 (·.mean) never <|
    .cons "max" u64 (·.max) never <|
    .cons "fifty" u64 (·.fifty) never <|
    .cons "ninety" u64 (·.ninety) never <|
    .cons "ninetyfive" u64 (·.ninetyFive) never <|
    .nil
  nodup := by decide
  complete _ := rfl

def Usage.wire : Record SerdeStr Float Usage where
  make := Usage.mk
  dflt := {}
  fields :=
    .cons "percent_complete" i32 (·.percentComplete) never <|
    .cons "cpu" Percentiles.wire.codec (·.cpu) never <|
    .cons "memory" Percentiles.wire.codec (·.memory) never <|
    .nil
  nodup := by decide
  complete _ := rfl

def InstantUsage.wire : Record SerdeStr Float InstantUsage where
  make := InstantUsage.mk
  dflt := {}
  fields :=
    .cons "cpu" u64 (·.cpu) never <|
    .cons "memory" u64 (·.memory) never <|
    .nil
  nodup := by decide
  complete _ := rfl

def DerivedStats.wire (w : WireText) : Record SerdeStr Float DerivedStats where
  make := DerivedStats.mk
  dflt := {}
  fields :=
    .cons "timestamp" w.time (·.timestamp) never <|
    .cons "latest_usage" InstantUsage.wire.codec (·.latestUsage) never <|
    .cons "minute_usage" Usage.wire.codec (·.minuteUsage) never <|
    .cons "hour_usage" Usage.wire.codec (·.hourUsage) never <|
    .cons "day_usage" Usage.wire.codec (·.dayUsage) never <|
    .nil
  nodup := by simp [Fields.keys]
  complete _ := rfl

def FsInfo.wire (w : WireText) : Record SerdeStr Float FsInfo where
  make := FsInfo.mk
  dflt := {}
  fields :=
    .cons "timestamp" w.time (·.timestamp) never <|
    .cons "device" str (·.device) never <|
    .cons "mountpoint" str (·.mountpoint) never <|
    .cons "capacity" u64 (·.capacity) never <|
    .cons "available" u64 (·.available) never <|
    .cons "usage" u64 (·.usage) never <|
    .cons "labels" (optional (list str)) (·.labels) never <|
    .cons "inodes" (optional u64) (·.inodes) Option.isNone <|
    .cons "inodes_free" (optional u64) (·.inodesFree) Option.isNone <|
    .nil
  nodup := by simp [Fields.keys]
  complete _ := rfl

end V2

/-! ## Payloads -/

/-- What is written of a payload.  The records of the machine are left out. -/
def Payload.enc (w : PayloadText) : Payload → Option (Json SerdeStr Float)
  | .machine _ => none
  | .container info => some ((ContainerInfo.wire w.toWireText).codec.enc info)
  | .containers infos => some ((list (ContainerInfo.wire w.toWireText).codec).enc infos)
  | .docker infos =>
      some (.obj (infos.map fun e => (e.1, (ContainerInfo.wire w.toWireText).codec.enc e.2)))
  | .events found => some ((list (Event.wire w.toWireText).codec).enc found)
  | .version text => some (str.enc text)
  | .attributes _ => none
  | .stats infos => some ((named (V2.ContainerInfo.wire w.toWireText).codec).enc infos)
  | .deprecatedStats samples =>
      some ((named (list (V2.DeprecatedContainerStats.wire w.toWireText).codec)).enc samples)
  | .machineStats samples => some ((list (V2.MachineStats.wire w.toWireText).codec).enc samples)
  | .spec specs => some ((named (V2.ContainerSpec.wire w.toWireText).codec).enc specs)
  | .summary summaries => some ((named (V2.DerivedStats.wire w.toWireText).codec).enc summaries)
  | .processes rows => some ((list (V2.ProcessInfo.wire w).codec).enc rows)
  | .storage rows => some ((list (V2.FsInfo.wire w.toWireText).codec).enc rows)
  | .appmetrics => some (.obj [])

end Cadvisor
