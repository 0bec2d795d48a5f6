import Cadvisor.Lib.Str
import Cadvisor.Model.Container
import Mathlib.Data.Prod.Lex

/-!
# Parsers for cgroup files

A number that does not parse is 0: a malformed kernel file degrades a sample,
it does not fail it.
-/

set_option autoImplicit false

namespace Cadvisor.Parse

def u64Field (s : String) : UInt64 := (Str.parseU64 s).getD 0

def flatKeyed (content : String) : List (String × String) :=
  (Str.lines content).filterMap fun line => Str.splitOnce line ' '

structure CpuStatFile where
  usageUsec : UInt64 := 0
  userUsec : UInt64 := 0
  systemUsec : UInt64 := 0
  nrPeriods : UInt64 := 0
  nrThrottled : UInt64 := 0
  throttledUsec : UInt64 := 0

def cpuStatLine (out : CpuStatFile) (entry : String × String) : CpuStatFile :=
  let v := u64Field entry.2
  if entry.1 = "usage_usec" then { out with usageUsec := v }
  else if entry.1 = "user_usec" then { out with userUsec := v }
  else if entry.1 = "system_usec" then { out with systemUsec := v }
  else if entry.1 = "nr_periods" then { out with nrPeriods := v }
  else if entry.1 = "nr_throttled" then { out with nrThrottled := v }
  else if entry.1 = "throttled_usec" then { out with throttledUsec := v }
  else out

def cpuStat (content : String) : CpuStatFile := (flatKeyed content).foldl cpuStatLine {}

structure MemoryStatFile where
  anon : UInt64 := 0
  file : UInt64 := 0
  fileMapped : UInt64 := 0
  inactiveFile : UInt64 := 0
  pgfault : UInt64 := 0
  pgmajfault : UInt64 := 0

def memoryStatLine (out : MemoryStatFile) (entry : String × String) : MemoryStatFile :=
  let v := u64Field entry.2
  if entry.1 = "anon" then { out with anon := v }
  else if entry.1 = "file" then { out with file := v }
  else if entry.1 = "file_mapped" then { out with fileMapped := v }
  else if entry.1 = "inactive_file" then { out with inactiveFile := v }
  else if entry.1 = "pgfault" then { out with pgfault := v }
  else if entry.1 = "pgmajfault" then { out with pgmajfault := v }
  else out

def memoryStat (content : String) : MemoryStatFile :=
  (flatKeyed content).foldl memoryStatLine {}

def u64OrMax (content : String) : UInt64 :=
  let t := Str.trim content
  if t = "max" then UInt64.ofNat (2 ^ 64 - 1) else (Str.parseU64 t).getD 0

/-- Quota and period; no number in the first place is no quota. -/
def cpuMax (content : String) : Option UInt64 × UInt64 :=
  let fields := Str.splitWhitespace content
  let quota := match fields with
    | [] => none
    | v :: _ => if v = "max" then none else Str.parseU64 v
  let period := match fields.drop 1 with
    | [] => 100000
    | v :: _ => u64Field v
  (quota, period)

def cpuWeightToShares (weight : UInt64) : UInt64 :=
  if weight = 0 then 0 else 2 + ((weight - 1) * 262142) / 9999

structure IoDevStat where
  major : UInt64 := 0
  minor : UInt64 := 0
  rbytes : UInt64 := 0
  wbytes : UInt64 := 0
  rios : UInt64 := 0
  wios : UInt64 := 0

def ioStatField (row : IoDevStat) (kv : String) : IoDevStat :=
  match Str.splitOnce kv '=' with
  | none => row
  | some (k, v) =>
      let v := u64Field v
      if k = "rbytes" then { row with rbytes := v }
      else if k = "wbytes" then { row with wbytes := v }
      else if k = "rios" then { row with rios := v }
      else if k = "wios" then { row with wios := v }
      else row

def ioStatRow (line : String) : Option IoDevStat :=
  match Str.splitWhitespace line with
  | [] => none
  | dev :: fields =>
      match Str.splitOnce dev ':' with
      | none => none
      | some (major, minor) =>
          some (fields.foldl ioStatField { major := u64Field major, minor := u64Field minor })

def ioStat (content : String) : List IoDevStat := (Str.lines content).filterMap ioStatRow

/-- `memory.events`: the last `oom_kill` line counts. -/
def oomKill (content : String) : UInt64 :=
  (flatKeyed content).foldl (fun out entry =>
    if entry.1 = "oom_kill" then (Str.parseU64 (Str.trim entry.2)).getD 0 else out) 0

def perDisk (dev : IoDevStat) (opRead opWrite : UInt64) : PerDiskStats :=
  { device := ""
    major := dev.major
    minor := dev.minor
    stats := SortedMap.ofList [("Read", opRead), ("Write", opWrite)] }

/-- What `read_stats` makes of `io.stat`. -/
def diskIo (content : String) : DiskIoStats :=
  { ioServiceBytes := (ioStat content).map fun dev => perDisk dev dev.rbytes dev.wbytes
    ioServiced := (ioStat content).map fun dev => perDisk dev dev.rios dev.wios }

theorem diskIo_unnamed (content : String) :
    ∀ entry ∈ (diskIo content).ioServiceBytes, entry.device = "" := by
  intro entry member
  obtain ⟨dev, _, rfl⟩ := List.mem_map.mp member
  rfl

/-! ## Files outside the cgroup tree -/

/-- Interfaces left out of a container's network. -/
def ignoredInterface (name : String) : Bool :=
  ["lo", "veth", "docker", "nerdctl"].any fun p => Str.startsWith (Str.asciiLowercase name) p

/-- One line of `/proc/<pid>/net/dev`, which must have exactly 17 fields. -/
def netDevLine (line : String) : Option InterfaceStats :=
  match Str.splitWhitespace (Str.replaceFirst line ':' " ") with
  | [name, rxBytes, rxPackets, rxErrors, rxDropped, _, _, _, _, txBytes, txPackets, txErrors,
      txDropped, _, _, _, _] =>
      if ignoredInterface name then none
      else
        some
          { name
            rxBytes := u64Field rxBytes
            rxPackets := u64Field rxPackets
            rxErrors := u64Field rxErrors
            rxDropped := u64Field rxDropped
            txBytes := u64Field txBytes
            txPackets := u64Field txPackets
            txErrors := u64Field txErrors
            txDropped := u64Field txDropped }
  | _ => none

def procNetDev (content : String) : List InterfaceStats :=
  ((Str.lines content).drop 2).filterMap netDevLine

/-- Total and free memory in kilobytes, as `fill_root_stats` reads them. -/
def memTotalFree (content : String) : UInt64 × UInt64 :=
  (Str.lines content).foldl (fun out line =>
    match Str.splitWhitespace line with
    | key :: rest =>
        let v := (rest.head?.bind Str.parseU64).getD 0
        if key = "MemTotal:" then (v, out.2)
        else if key = "MemFree:" then (out.1, v)
        else out
    | [] => out) (0, 0)

/-- `/proc/meminfo` totals, in bytes. -/
structure MemInfo where
  totalBytes : UInt64 := 0
  swapBytes : UInt64 := 0

def meminfoLine (out : MemInfo) (line : String) : MemInfo :=
  match Str.splitWhitespace line with
  | key :: rest =>
      let v := (rest.head?.map u64Field).getD 0
      if key = "MemTotal:" then { out with totalBytes := v * 1024 }
      else if key = "SwapTotal:" then { out with swapBytes := v * 1024 }
      else out
  | [] => out

def meminfo (content : String) : MemInfo := (Str.lines content).foldl meminfoLine {}

structure CpuInfoSummary where
  vendorId : String := ""
  physicalCores : Int := 0
  sockets : Int := 0
  khzFallback : UInt64 := 0

structure CpuInfoScan where
  out : CpuInfoSummary := {}
  socketIds : SortedSet Int := SortedMap.empty
  cores : SortedSet (Int ×ₗ Int) := SortedMap.empty
  curPhysicalId : Int := 0

/-- `khz` is the float arithmetic of the `cpu MHz` entry. -/
def cpuinfoLine (khz : String → UInt64) (scan : CpuInfoScan) (line : String) : CpuInfoScan :=
  match Str.splitOnce line ':' with
  | none => scan
  | some (k, v) =>
      let k := Str.trim k
      let v := Str.trim v
      if k = "vendor_id" ∧ scan.out.vendorId = "" then
        { scan with out := { scan.out with vendorId := v } }
      else if k = "physical id" then
        let id := (Str.parseSigned (2 ^ 63) v).getD 0
        { scan with curPhysicalId := id, socketIds := SortedMap.insert scan.socketIds id () }
      else if k = "core id" then
        let id := (Str.parseSigned (2 ^ 63) v).getD 0
        { scan with cores := SortedMap.insert scan.cores (toLex (scan.curPhysicalId, id)) () }
      else if k = "cpu MHz" ∧ scan.out.khzFallback = 0 then
        { scan with out := { scan.out with khzFallback := khz v } }
      else scan

def cpuinfo (khz : String → UInt64) (content : String) : CpuInfoSummary :=
  let scan := (Str.lines content).foldl (cpuinfoLine khz) {}
  { scan.out with
    physicalCores := scan.cores.keys.length
    sockets := scan.socketIds.keys.length }

def isAsciiDigit (c : Char) : Bool := '0' ≤ c ∧ c ≤ '9'

def isAsciiLower (c : Char) : Bool := 'a' ≤ c ∧ c ≤ 'z'

/-- `^(s|v|xv)d[a-z]+\d*$` or `^dm-\d+$`. -/
def diskstatsDeviceMatches (name : String) : Bool :=
  match Str.stripPrefix name "dm-" with
  | some rest => rest ≠ "" ∧ rest.toList.all isAsciiDigit
  | none =>
      match (Str.stripPrefix name "sd").or
          ((Str.stripPrefix name "vd").or (Str.stripPrefix name "xvd")) with
      | none => false
      | some rest =>
          rest.toList.takeWhile isAsciiLower ≠ [] ∧
            (rest.toList.dropWhile isAsciiLower).all isAsciiDigit

structure DiskStatsLine where
  major : UInt64 := 0
  minor : UInt64 := 0
  name : String := ""
  readsCompleted : UInt64 := 0
  readsMerged : UInt64 := 0
  sectorsRead : UInt64 := 0
  readTime : UInt64 := 0
  writesCompleted : UInt64 := 0
  writesMerged : UInt64 := 0
  sectorsWritten : UInt64 := 0
  writeTime : UInt64 := 0
  ioInProgress : UInt64 := 0
  ioTime : UInt64 := 0
  weightedIoTime : UInt64 := 0

def diskstatsLine (line : String) : Option DiskStatsLine :=
  match Str.splitWhitespace line with
  | major :: minor :: name :: readsCompleted :: readsMerged :: sectorsRead :: readTime ::
      writesCompleted :: writesMerged :: sectorsWritten :: writeTime :: ioInProgress ::
      ioTime :: weightedIoTime :: _ =>
      if ¬ diskstatsDeviceMatches name then none
      else
        some
          { major := u64Field major
            minor := u64Field minor
            name
            readsCompleted := u64Field readsCompleted
            readsMerged := u64Field readsMerged
            sectorsRead := u64Field sectorsRead
            readTime := u64Field readTime
            writesCompleted := u64Field writesCompleted
            writesMerged := u64Field writesMerged
            sectorsWritten := u64Field sectorsWritten
            writeTime := u64Field writeTime
            ioInProgress := u64Field ioInProgress
            ioTime := u64Field ioTime
            weightedIoTime := u64Field weightedIoTime }
  | _ => none

def diskstats (content : String) : List DiskStatsLine :=
  (Str.lines content).filterMap diskstatsLine

structure MountInfoLine where
  major : UInt64 := 0
  minor : UInt64 := 0
  mountpoint : String := ""
  fsType : String := ""
  source : String := ""
  deriving DecidableEq

/-- `<id> <parent> <maj:min> <root> <mountpoint> <opts> [optional...] - <fstype> <source>`. -/
def mountinfoLine (line : String) : Option MountInfoLine := do
  let (pre, post) ← Str.splitOnceAt line " - "
  match Str.splitWhitespace pre, Str.splitWhitespace post with
  | _ :: _ :: number :: _ :: mountpoint :: _, fsType :: source :: _ =>
      let (major, minor) ← Str.splitOnce number ':'
      some
        { major := u64Field major
          minor := u64Field minor
          mountpoint
          fsType
          source }
  | _, _ => none

def mountinfo (content : String) : List MountInfoLine :=
  (Str.lines content).filterMap mountinfoLine

end Cadvisor.Parse
