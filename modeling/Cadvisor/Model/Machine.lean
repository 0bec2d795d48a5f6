import Cadvisor.Lib.SortedMap
import Cadvisor.Model.GoTime
import Mathlib.Data.String.Basic

/-! # Machine and version types -/

set_option autoImplicit false

namespace Cadvisor

namespace V1

/-- The page size is in kB. -/
structure HugePagesInfo where
  pageSize : UInt64 := 0
  numPages : UInt64 := 0
  deriving DecidableEq

/-- The type is data, instruction or unified. -/
structure Cache where
  id : Int := 0
  size : UInt64 := 0
  cacheType : String := ""
  level : Int := 0
  deriving DecidableEq

structure Core where
  id : Int := 0
  threads : List Int := []
  caches : List Cache := []
  uncoreCaches : Option (List Cache) := none
  socketId : Int := 0
  deriving DecidableEq

structure Node where
  id : Int := 0
  memory : UInt64 := 0
  hugepages : List HugePagesInfo := []
  cores : List Core := []
  caches : List Cache := []
  distances : List UInt64 := []
  deriving DecidableEq

end V1

structure DiskInfo where
  name : String := ""
  major : UInt64 := 0
  minor : UInt64 := 0
  size : UInt64 := 0
  scheduler : String := ""
  deriving DecidableEq

structure NVMInfo where
  memoryModeCapacity : UInt64 := 0
  appDirectModeCapacity : UInt64 := 0
  avgPowerBudget : UInt64 := 0

structure NetInfo where
  name : String := ""
  macAddress : String := ""
  speed : Int := 0
  mtu : Int := 0

structure FilesystemInfo where
  device : String := ""
  deviceMajor : UInt64 := 0
  deviceMinor : UInt64 := 0
  capacity : UInt64 := 0
  fsType : String := ""
  inodes : UInt64 := 0
  hasInodes : Bool := false

/-- The core and socket counts are `i64`. -/
structure MachineInfo where
  timestamp : GoTime := GoTime.zero
  numCores : Int := 0
  numPhysicalCores : Int := 0
  numSockets : Int := 0
  memoryCapacity : UInt64 := 0
  swapCapacity : UInt64 := 0
  nvmInfo : NVMInfo := {}
  machineId : String := ""
  systemUuid : String := ""
  bootId : String := ""
  filesystems : List FilesystemInfo := []
  diskMap : SortedMap String DiskInfo := SortedMap.empty
  networkDevices : List NetInfo := []

structure VersionInfo where
  kernelVersion : String := ""
  containerOsVersion : String := ""
  dockerVersion : String := ""
  cadvisorVersion : String := ""
  cadvisorRevision : String := ""

end Cadvisor
