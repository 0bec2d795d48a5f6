import Cadvisor.Lib.SortedMap
import Cadvisor.Model.GoTime
import Cadvisor.Model.Netstat
import Mathlib.Data.String.Basic

/-!
# Container spec and stats

The v1 wire types that the reader fills, the store keeps and the exporter
walks.  Every field's default is the one of the derived `Default`.
-/

set_option autoImplicit false

namespace Cadvisor

structure CpuSpec where
  limit : UInt64 := 0
  maxLimit : UInt64 := 0
  mask : String := ""
  quota : UInt64 := 0
  period : UInt64 := 0

structure MemorySpec where
  limit : UInt64 := 0
  reservation : UInt64 := 0
  swapLimit : UInt64 := 0

structure ProcessSpec where
  limit : UInt64 := 0

structure MetricSpec where
  name : String := ""
  metricType : String := ""
  format : String := ""
  units : String := ""

structure ContainerSpec where
  creationTime : GoTime := GoTime.zero
  labels : SortedMap String String := SortedMap.empty
  envs : SortedMap String String := SortedMap.empty
  hasCpu : Bool := false
  cpu : CpuSpec := {}
  hasMemory : Bool := false
  memory : MemorySpec := {}
  hasHugetlb : Bool := false
  hasNetwork : Bool := false
  hasProcesses : Bool := false
  processes : ProcessSpec := {}
  hasFilesystem : Bool := false
  hasDiskIo : Bool := false
  hasCustomMetrics : Bool := false
  customMetrics : List MetricSpec := []
  image : String := ""

structure ContainerReference where
  id : String := ""
  name : String := ""
  aliases : List String := []
  «namespace» : String := ""

structure LoadStats where
  nrSleeping : UInt64 := 0
  nrRunning : UInt64 := 0
  nrStopped : UInt64 := 0
  nrUninterruptible : UInt64 := 0
  nrIoWait : UInt64 := 0

structure CpuUsage where
  total : UInt64 := 0
  perCpu : List UInt64 := []
  user : UInt64 := 0
  system : UInt64 := 0

structure CpuCFS where
  periods : UInt64 := 0
  throttledPeriods : UInt64 := 0
  throttledTime : UInt64 := 0

structure CpuSchedstat where
  runTime : UInt64 := 0
  runqueueTime : UInt64 := 0
  runPeriods : UInt64 := 0

structure CpuStats where
  usage : CpuUsage := {}
  cfs : CpuCFS := {}
  schedstat : CpuSchedstat := {}
  /-- An `i32`. -/
  loadAverage : Int := 0

structure PerDiskStats where
  device : String := ""
  major : UInt64 := 0
  minor : UInt64 := 0
  stats : SortedMap String UInt64 := SortedMap.empty

structure DiskIoStats where
  ioServiceBytes : List PerDiskStats := []
  ioServiced : List PerDiskStats := []
  ioQueued : List PerDiskStats := []
  sectors : List PerDiskStats := []
  ioServiceTime : List PerDiskStats := []
  ioWaitTime : List PerDiskStats := []
  ioMerged : List PerDiskStats := []
  ioTime : List PerDiskStats := []
  ioCostUsage : List PerDiskStats := []
  ioCostWait : List PerDiskStats := []
  ioCostIndebt : List PerDiskStats := []
  ioCostIndelay : List PerDiskStats := []

structure HugetlbStats where
  usage : UInt64 := 0
  maxUsage : UInt64 := 0
  failcnt : UInt64 := 0

structure MemoryNumaStats where
  /-- By node, a `u8`. -/
  file : SortedMap (Fin 256) UInt64 := SortedMap.empty
  anon : SortedMap (Fin 256) UInt64 := SortedMap.empty
  unevictable : SortedMap (Fin 256) UInt64 := SortedMap.empty

structure MemoryStatsMemoryData where
  pgfault : UInt64 := 0
  pgmajfault : UInt64 := 0
  numaStats : MemoryNumaStats := {}

structure MemoryStats where
  usage : UInt64 := 0
  maxUsage : UInt64 := 0
  cache : UInt64 := 0
  rss : UInt64 := 0
  swap : UInt64 := 0
  mappedFile : UInt64 := 0
  workingSet : UInt64 := 0
  failcnt : UInt64 := 0
  kernelUsage : UInt64 := 0
  containerData : MemoryStatsMemoryData := {}
  hierarchicalData : MemoryStatsMemoryData := {}

structure InterfaceStats where
  name : String := ""
  rxBytes : UInt64 := 0
  rxPackets : UInt64 := 0
  rxErrors : UInt64 := 0
  rxDropped : UInt64 := 0
  txBytes : UInt64 := 0
  txPackets : UInt64 := 0
  txErrors : UInt64 := 0
  txDropped : UInt64 := 0

structure NetworkStats where
  interface : InterfaceStats := {}
  interfaces : List InterfaceStats := []
  tcp : TcpStat := {}
  tcp6 : TcpStat := {}
  udp : UdpStat := {}
  udp6 : UdpStat := {}
  tcpAdvanced : TcpAdvancedStat := {}

structure FsStats where
  device : String := ""
  fsType : String := ""
  limit : UInt64 := 0
  usage : UInt64 := 0
  baseUsage : UInt64 := 0
  available : UInt64 := 0
  hasInodes : Bool := false
  inodes : UInt64 := 0
  inodesFree : UInt64 := 0
  readsCompleted : UInt64 := 0
  readsMerged : UInt64 := 0
  sectorsRead : UInt64 := 0
  readTime : UInt64 := 0
  writesCompleted : UInt64 := 0
  writesMerged : UInt64 := 0
  sectorsWritten : UInt64 := 0
  writeTime : UInt64 := 0
  ioInProgress : UInt64 := 0
  ioTime : UInt64 := 0
  weightedIoTime : UInt64 := 0

structure AcceleratorStats where
  make : String := ""
  model : String := ""
  id : String := ""
  memoryTotal : UInt64 := 0
  memoryUsed : UInt64 := 0
  dutyCycle : UInt64 := 0

structure UlimitSpec where
  name : String := ""
  softLimit : Int64 := 0
  hardLimit : Int64 := 0

structure ProcessStats where
  processCount : UInt64 := 0
  fdCount : UInt64 := 0
  socketCount : UInt64 := 0
  threadsCurrent : UInt64 := 0
  threadsMax : UInt64 := 0
  ulimits : List UlimitSpec := []

structure MetricVal where
  label : String := ""
  labels : SortedMap String String := SortedMap.empty
  timestamp : GoTime := GoTime.zero
  intValue : Int64 := 0
  floatValue : Float := 0

structure PerfValue where
  scalingRatio : Float := 0
  value : UInt64 := 0
  name : String := ""

structure PerfStat where
  perfValue : PerfValue := {}
  cpu : Int64 := 0

structure PerfUncoreStat where
  perfValue : PerfValue := {}
  socket : Int64 := 0
  pmu : String := ""

structure MemoryBandwidthStats where
  totalBytes : UInt64 := 0
  localBytes : UInt64 := 0

structure CacheStats where
  llcOccupancy : UInt64 := 0

structure ResctrlStats where
  memoryBandwidth : List MemoryBandwidthStats := []
  cache : List CacheStats := []

structure CpuSetStats where
  memoryMigrate : UInt64 := 0

structure ContainerStats where
  timestamp : GoTime := GoTime.zero
  cpu : CpuStats := {}
  diskIo : DiskIoStats := {}
  memory : MemoryStats := {}
  hugetlb : SortedMap String HugetlbStats := SortedMap.empty
  network : NetworkStats := {}
  filesystem : List FsStats := []
  taskStats : LoadStats := {}
  accelerators : List AcceleratorStats := []
  processes : ProcessStats := {}
  customMetrics : SortedMap String (List MetricVal) := SortedMap.empty
  perfStats : List PerfStat := []
  perfUncoreStats : List PerfUncoreStat := []
  referencedMemory : UInt64 := 0
  resctrl : ResctrlStats := {}
  cpuSet : CpuSetStats := {}
  oomEvents : UInt64 := 0

structure CpuInstUsage where
  total : UInt64 := 0
  perCpu : List UInt64 := []
  user : UInt64 := 0
  system : UInt64 := 0

/-- Rates in nanocores per second. -/
structure CpuInstStats where
  usage : CpuInstUsage := {}

/-! ## Events -/

inductive EventType where
  | oom
  | oomKill
  | containerCreation
  | containerDeletion
  deriving DecidableEq

structure OomKillEventData where
  pid : Int := 0
  processName : String := ""
  constraint : String := ""
  deriving DecidableEq

structure EventData where
  oomKill : Option OomKillEventData := none
  deriving DecidableEq

structure Event where
  containerName : String := ""
  timestamp : GoTime := GoTime.zero
  eventType : EventType := .oom
  eventData : EventData := {}
  deriving DecidableEq

end Cadvisor
