import Cadvisor.Model.Container

/-!
# The v2 sample shapes

The v2.0 sample has a flag and a value for each group of statistics, the v2.1 sample
an optional value.
-/

set_option autoImplicit false

namespace Cadvisor.V2

def typeName : String := "name"

/-- No inlined default interface, unlike v1. -/
structure NetworkStats where
  interfaces : List InterfaceStats := []
  tcp : TcpStat := {}
  tcp6 : TcpStat := {}
  udp : UdpStat := {}
  udp6 : UdpStat := {}
  tcpAdvanced : TcpAdvancedStat := {}

structure FilesystemStats where
  totalUsageBytes : Option UInt64 := none
  baseUsageBytes : Option UInt64 := none
  inodeUsage : Option UInt64 := none

/-- The v2.1 sample. -/
structure ContainerStats where
  timestamp : GoTime := GoTime.zero
  cpu : Option CpuStats := none
  cpuInst : Option CpuInstStats := none
  diskIo : Option DiskIoStats := none
  memory : Option MemoryStats := none
  hugetlb : Option (SortedMap String HugetlbStats) := none
  network : Option NetworkStats := none
  processes : Option ProcessStats := none
  filesystem : Option FilesystemStats := none
  load : Option LoadStats := none
  accelerators : List AcceleratorStats := []
  customMetrics : SortedMap String (List MetricVal) := SortedMap.empty
  perfStats : List PerfStat := []
  perfUncoreStats : List PerfUncoreStat := []
  referencedMemory : UInt64 := 0
  resctrl : ResctrlStats := {}

/-- The v2.0 sample. -/
structure DeprecatedContainerStats where
  timestamp : GoTime := GoTime.zero
  hasCpu : Bool := false
  cpu : CpuStats := {}
  cpuInst : Option CpuInstStats := none
  hasDiskIo : Bool := false
  diskIo : DiskIoStats := {}
  hasMemory : Bool := false
  memory : MemoryStats := {}
  hasHugetlb : Bool := false
  hugetlb : SortedMap String HugetlbStats := SortedMap.empty
  hasNetwork : Bool := false
  network : NetworkStats := {}
  hasProcesses : Bool := false
  processes : ProcessStats := {}
  hasFilesystem : Bool := false
  filesystem : List FsStats := []
  hasLoad : Bool := false
  load : LoadStats := {}
  hasCustomMetrics : Bool := false
  customMetrics : SortedMap String (List MetricVal) := SortedMap.empty
  perfStats : List PerfStat := []
  perfUncoreStats : List PerfUncoreStat := []
  referencedMemory : UInt64 := 0
  resctrl : ResctrlStats := {}

/-! ## The summary -/

structure ProcessInfo where
  user : String := ""
  pid : Int := 0
  ppid : Int := 0
  startTime : String := ""
  percentCpu : Float32 := 0
  percentMemory : Float32 := 0
  rss : UInt64 := 0
  virtualSize : UInt64 := 0
  status : String := ""
  runningTime : String := ""
  cgroupPath : String := ""
  cmd : String := ""
  fdCount : Int := 0
  psr : Int := 0

structure Percentiles where
  present : Bool := false
  mean : UInt64 := 0
  max : UInt64 := 0
  fifty : UInt64 := 0
  ninety : UInt64 := 0
  ninetyFive : UInt64 := 0
  deriving DecidableEq

structure Usage where
  /-- An `i32`. -/
  percentComplete : Int := 0
  cpu : Percentiles := {}
  memory : Percentiles := {}

structure InstantUsage where
  cpu : UInt64 := 0
  memory : UInt64 := 0

structure DerivedStats where
  timestamp : GoTime := GoTime.zero
  latestUsage : InstantUsage := {}
  minuteUsage : Usage := {}
  hourUsage : Usage := {}
  dayUsage : Usage := {}

end Cadvisor.V2
