import Cadvisor.Host.Proc
import Cadvisor.Manager.Housekeeping

/-!
# What a sample has of the machine

A sample is read from the files of a cgroup, the network of its first process, and for the
root from the machine's memory and disks.  Whatever a machine shows in these files is what
the sample has.
-/

set_option autoImplicit false

namespace Cadvisor

open Parse

namespace Kernel

/-- What a machine shows beside its cgroups; `none` where a file cannot be read. -/
structure Machine where
  interfaces : Option (List Interface)
  memory : Option (List MemRow)
  disks : Option (List DiskRow)
  statvfs : String → Option FsUsage

namespace Machine

variable (m : Machine)

/-- The round reads this machine's files, and this cgroup's. -/
structure Shown (k : Cgroup) (r : Round) : Prop where
  cgroup : k.Shows r.files
  netDev : r.netDev = m.interfaces.map netDevFile
  meminfo : r.meminfo = m.memory.map memFile
  diskstats : r.diskstats = m.disks.map diskFile
  statvfs : r.statvfs = m.statvfs

def counted : List InterfaceStats :=
  ((m.interfaces.getD []).filter fun i => ¬ ignoredInterface i.name).map Interface.stats

def network (h : ContainerHandle) : NetworkStats :=
  if h.reportsNetwork ∧ h.initPid.isSome then
    { interface := m.counted.head?.getD {}, interfaces := m.counted }
  else {}

/-- The counters of a partition's disk; the last row counts. -/
def diskOf (p : Partition) : DiskStatsLine :=
  ((((m.disks.getD []).map DiskRow.stats).filter fun d =>
    diskstatsDeviceMatches d.name &&
      decide (d.major = p.major ∧ d.minor = p.minor)).getLast?).getD {}

def partitionStats (p : Partition) (u : FsUsage) : FsStats where
  device := p.device
  fsType := "vfs"
  limit := u.capacity
  usage := u.capacity - u.free
  available := u.available
  hasInodes := true
  inodes := u.inodes
  inodesFree := u.inodesFree
  readsCompleted := (m.diskOf p).readsCompleted
  readsMerged := (m.diskOf p).readsMerged
  sectorsRead := (m.diskOf p).sectorsRead
  readTime := (m.diskOf p).readTime
  writesCompleted := (m.diskOf p).writesCompleted
  writesMerged := (m.diskOf p).writesMerged
  sectorsWritten := (m.diskOf p).sectorsWritten
  writeTime := (m.diskOf p).writeTime
  ioInProgress := (m.diskOf p).ioInProgress
  ioTime := (m.diskOf p).ioTime
  weightedIoTime := (m.diskOf p).weightedIoTime

def layerStats (h : ContainerHandle) (p : Partition) (u : FsUsage) : FsStats where
  device := p.device
  fsType := "vfs"
  limit := u.capacity
  usage := h.fsUsage.1
  baseUsage := h.fsUsage.1
  available := u.available
  hasInodes := true
  inodes := u.inodes
  inodesFree := u.inodesFree

/-- The memory in use is the machine's, where the cgroup has no figure of its own. -/
def UsesMachine (h : ContainerHandle) (own : ContainerStats) (rows : List MemRow) : Prop :=
  h.name = "/" ∧ m.memory = some rows ∧ own.memory.usage = 0 ∧
    figure rows "MemFree" ≤ figure rows "MemTotal"

/-- A sample of a container: the cgroup's own, with what the machine shows. -/
structure Completes (partitions : List Partition) (h : ContainerHandle)
    (own stats : ContainerStats) : Prop where
  network : stats.network = m.network h
  usage : ∀ rows, m.UsesMachine h own rows →
    stats.memory.usage.toNat =
        1024 * ((figure rows "MemTotal").toNat - (figure rows "MemFree").toNat) ∧
      stats.memory = { own.memory with usage := stats.memory.usage
                                       workingSet := stats.memory.usage }
  ownMemory : (∀ rows, ¬ m.UsesMachine h own rows) → stats.memory = own.memory
  root : h.name = "/" → stats.filesystem = partitions.filterMap fun p =>
    (m.statvfs p.mountpoint).map (m.partitionStats p)
  layer : h.name ≠ "/" → stats.filesystem =
    ((h.rootfsDiff.bind (partitionForPath partitions)).bind fun p =>
      (m.statvfs p.mountpoint).map (layerStats h p)).toList
  elsewhere : stats = { own with network := stats.network
                                 memory := stats.memory
                                 filesystem := stats.filesystem }

/-- The machine's memory is below 16 EiB. -/
def Fits : Prop := ∀ rows ∈ m.memory, 1024 * (figure rows "MemTotal").toNat < 2 ^ 64

variable {m}

theorem find_reverse_filter {α : Type} (p q : α → Bool) (xs : List α) :
    (xs.filter p).reverse.find? q = (xs.filter fun x => p x && q x).getLast? := by
  rw [← List.head?_filter, List.filter_reverse, List.head?_reverse, List.filter_filter]
  simp only [Bool.and_comm]

theorem rootFilesystem_shown {k : Cgroup} {r : Round} (shown : m.Shown k r) (p : Partition) :
    Housekeeping.rootFilesystem r p = (m.statvfs p.mountpoint).map (m.partitionStats p) := by
  have rows : ((r.diskstats.map diskstats).getD []) =
      ((m.disks.getD []).map DiskRow.stats).filter fun d => diskstatsDeviceMatches d.name := by
    rw [shown.diskstats, List.filter_map]
    cases m.disks with
    | none => rfl
    | some rows => exact diskstats_diskFile rows
  have disk : ((((r.diskstats.map diskstats).getD []).reverse.find? fun d =>
      d.major = p.major ∧ d.minor = p.minor).getD {}) = m.diskOf p := by
    rw [rows, find_reverse_filter, diskOf]
  unfold Housekeeping.rootFilesystem
  rw [shown.statvfs]
  cases m.statvfs p.mountpoint with
  | none => rfl
  | some u =>
      dsimp only
      rw [disk]
      rfl

theorem fillNetwork_shown {k : Cgroup} {r : Round} (shown : m.Shown k r) (h : ContainerHandle)
    {own : ContainerStats} (bare : own.network = {}) :
    Housekeeping.fillNetwork h r own =
      { own with network := m.network h } := by
  unfold Housekeeping.fillNetwork network
  split_ifs
  · rw [shown.netDev, counted]
    cases m.interfaces with
    | none =>
        change own = { own with network := {} }
        rw [← bare]
    | some interfaces =>
        simp only [Option.map_some, Option.getD_some, procNetDev_netDevFile, bare]
  · rw [← bare]

theorem fillRootMemory_used {k : Cgroup} {r : Round} (shown : m.Shown k r)
    {own : ContainerStats} {rows : List MemRow} (isMemory : m.memory = some rows)
    (none : own.memory.usage = 0) (le : figure rows "MemFree" ≤ figure rows "MemTotal") :
    (Housekeeping.fillRootMemory r own).memory =
      { own.memory with
        usage := (figure rows "MemTotal" - figure rows "MemFree") * 1024
        workingSet := (figure rows "MemTotal" - figure rows "MemFree") * 1024 } := by
  unfold Housekeeping.fillRootMemory
  rw [shown.meminfo, isMemory, Option.map_some]
  dsimp only
  rw [memTotalFree_memFile, if_pos ⟨none, le⟩]

theorem fillRootMemory_own {k : Cgroup} {r : Round} (shown : m.Shown k r) {own : ContainerStats}
    (unused : ∀ rows, m.memory = some rows →
      ¬ (own.memory.usage = 0 ∧ figure rows "MemFree" ≤ figure rows "MemTotal")) :
    Housekeeping.fillRootMemory r own = own := by
  unfold Housekeeping.fillRootMemory
  rw [shown.meminfo]
  cases isMemory : m.memory with
  | none => rfl
  | some rows =>
      dsimp only [Option.map_some]
      rw [memTotalFree_memFile, if_neg (unused rows isMemory)]

theorem fillRootMemory_frame (r : Round) (own : ContainerStats) :
    Housekeeping.fillRootMemory r own =
      { own with memory := (Housekeeping.fillRootMemory r own).memory } := by
  unfold Housekeeping.fillRootMemory
  split
  · rfl
  · dsimp only
    split_ifs <;> rfl

theorem toNat_used {total free : UInt64} (le : free ≤ total) (fits : 1024 * total.toNat < 2 ^ 64) :
    ((total - free) * 1024).toNat = 1024 * (total.toNat - free.toNat) := by
  rw [UInt64.toNat_mul, UInt64.toNat_sub_of_le _ _ le]
  have small : (total.toNat - free.toNat) * 1024 < 2 ^ 64 := by omega
  have unit : (1024 : UInt64).toNat = 1024 := rfl
  rw [unit, Nat.mod_eq_of_lt small, Nat.mul_comm]

theorem fill_root {k : Cgroup} {r : Round} (shown : m.Shown k r) (partitions : List Partition)
    {h : ContainerHandle} (isRoot : h.name = "/") {own : ContainerStats}
    (bare : own.network = {} ∧ own.filesystem = []) :
    Housekeeping.fill partitions h r own =
      { own with
        network := m.network h
        memory := (Housekeeping.fillRootMemory r { own with network := m.network h }).memory
        filesystem := partitions.filterMap fun p =>
          (m.statvfs p.mountpoint).map (m.partitionStats p) } := by
  have rows : partitions.filterMap (Housekeeping.rootFilesystem r) =
      partitions.filterMap fun p => (m.statvfs p.mountpoint).map (m.partitionStats p) :=
    List.filterMap_congr fun p _ => rootFilesystem_shown shown p
  have network := fillNetwork_shown shown h bare.1
  rw [Housekeeping.fill, network, if_pos isRoot, Housekeeping.fillRootStats,
    fillRootMemory_frame, rows]
  dsimp only
  rw [bare.2, List.nil_append]

theorem fill_layer {k : Cgroup} {r : Round} (shown : m.Shown k r) (partitions : List Partition)
    {h : ContainerHandle} (notRoot : h.name ≠ "/") {own : ContainerStats}
    (bare : own.network = {} ∧ own.filesystem = []) :
    Housekeeping.fill partitions h r own =
      { own with
        network := m.network h
        filesystem := ((h.rootfsDiff.bind (partitionForPath partitions)).bind fun p =>
          (m.statvfs p.mountpoint).map (layerStats h p)).toList } := by
  have network := fillNetwork_shown shown h bare.1
  rw [Housekeeping.fill, network, if_neg notRoot, Housekeeping.fillOverlay]
  cases h.rootfsDiff.bind (partitionForPath partitions) with
  | none =>
      rw [Option.bind_none, Option.toList_none, ← bare.2]
  | some p =>
      dsimp only
      rw [shown.statvfs, Option.bind_some]
      cases m.statvfs p.mountpoint with
      | none =>
          rw [Option.map_none, Option.toList_none, ← bare.2]
      | some u =>
          dsimp only
          rw [bare.2, List.nil_append, Option.map_some]
          rfl

theorem fill_completes {k : Cgroup} {r : Round} (shown : m.Shown k r) (fits : m.Fits)
    (partitions : List Partition) (h : ContainerHandle) {own : ContainerStats}
    (bare : own.network = {} ∧ own.filesystem = []) :
    m.Completes partitions h own (Housekeeping.fill partitions h r own) := by
  by_cases isRoot : h.name = "/"
  · rw [fill_root shown partitions isRoot bare]
    constructor
    case network => rfl
    case usage =>
      rintro rows ⟨_, isMemory, none, le⟩
      dsimp only
      rw [@fillRootMemory_used m k r shown { own with network := m.network h } rows isMemory
        none le]
      exact ⟨toNat_used le (fits rows isMemory), rfl⟩
    case ownMemory =>
      intro unused
      dsimp only
      rw [@fillRootMemory_own m k r shown { own with network := m.network h }
        fun rows isMemory used => unused rows ⟨isRoot, isMemory, used⟩]
    case root => exact fun _ => rfl
    case layer => exact fun notRoot => absurd isRoot notRoot
    case elsewhere => rfl
  · rw [fill_layer shown partitions isRoot bare]
    constructor
    case network => rfl
    case usage => exact fun _ used => absurd used.1 isRoot
    case ownMemory => exact fun _ => rfl
    case root => exact fun isName => absurd isName isRoot
    case layer => exact fun _ => rfl
    case elsewhere => rfl

/-- Whatever the machine and the cgroup show, in whatever order and widths, sampling succeeds
and the sample has it. -/
theorem sample_files {k : Cgroup} (named : k.Named) (fit : TimesFit k) {r : Round}
    (shown : m.Shown k r) (fits : m.Fits) (cfg : HousekeepingConfig) (s : Housekeeping) :
    ∃ own stats, Sampled k r.now own ∧
      s.sample cfg r = .ok (stats,
        { s.disks with sysBlock := r.sysBlock }.noteDisks own.diskIo.ioServiceBytes) ∧
      m.Completes cfg.partitions s.handle own stats := by
  obtain ⟨own, read, sampled⟩ := readStats_files shown.cgroup named fit r.now
  refine ⟨own, _, sampled, ?_, fill_completes shown fits cfg.partitions s.handle
    ⟨sampled.elsewhere.1, sampled.elsewhere.2.1⟩⟩
  rw [Housekeeping.sample, read]

/-- The root of the hierarchy, with figures of its memory but none of what it has in use. -/
def rootCgroup : Cgroup where
  cpu := some [("usage_usec", 1500), ("user_usec", 1000), ("system_usec", 500)]
  current := none
  peak := none
  swap := none
  stat := some [("anon", 4096), ("inactive_file", 10000)]
  events := none
  io := some [⟨8, 0, [("rbytes", 512), ("wbytes", 0), ("rios", 1), ("wios", 0)]⟩]

def rootFiles : CgroupReader.Files := fun name =>
  if name = "cpu.stat" then .content "usage_usec 1500\nuser_usec 1000\nsystem_usec 500\n"
  else if name = "memory.stat" then .content "anon 4096\ninactive_file 10000\n"
  else if name = "io.stat" then .content "8:0 rbytes=512 wbytes=0 rios=1 wios=0\n"
  else if name = "cgroup.procs" then .content "1\n"
  else .notFound

theorem rootCgroup_shows : rootCgroup.Shows rootFiles where
  cpu := by decide +kernel
  current := by decide +kernel
  peak := by decide +kernel
  swap := by decide +kernel
  stat := by decide +kernel
  events := by decide +kernel
  io := by decide +kernel

theorem rootCgroup_named : rootCgroup.Named := by
  refine ⟨?_, ?_, nofun, ?_⟩
  · simp only [rootCgroup, Option.mem_def, Option.some.injEq, forall_eq']
    decide +kernel
  · simp only [rootCgroup, Option.mem_def, Option.some.injEq, forall_eq']
    decide +kernel
  · simp only [rootCgroup, Option.mem_def, Option.some.injEq, forall_eq']
    decide +kernel

theorem rootCgroup_fit : TimesFit rootCgroup := by
  unfold TimesFit
  decide +kernel

/-- Two interfaces, one of them ignored, a disk with a partition, and one mount that answers. -/
def sampleMachine : Machine where
  interfaces := some
    [{ name := "lo", rxBytes := 84, rxPackets := 1, rxErrors := 0, rxDropped := 0
       rxOthers := [0, 0, 0, 0], txBytes := 84, txPackets := 1, txErrors := 0, txDropped := 0
       txOthers := [0, 0, 0, 0], lead := 4, pads := fun _ => 6
       named := ⟨⟨by decide, Str.black_of_all rfl⟩, by decide⟩, rxFour := rfl, txFour := rfl },
     { name := "eth0", rxBytes := 1296, rxPackets := 16, rxErrors := 0, rxDropped := 2
       rxOthers := [0, 0, 0, 3], txBytes := 816, txPackets := 10, txErrors := 0, txDropped := 0
       txOthers := [0, 0, 0, 0], lead := 2, pads := fun _ => 4
       named := ⟨⟨by decide, Str.black_of_all rfl⟩, by decide⟩, rxFour := rfl, txFour := rfl }]
  memory := some
    [{ key := "MemTotal", value := 16342752, unit := some "kB", pads := fun _ => 6
       named := ⟨by decide, Str.black_of_all rfl⟩
       unitNamed := by
        rintro _ ⟨⟩
        exact ⟨by decide, Str.black_of_all rfl⟩ },
     { key := "MemFree", value := 1024, unit := none, pads := fun _ => 12
       named := ⟨by decide, Str.black_of_all rfl⟩
       unitNamed := fun _ isUnit => absurd isUnit (Option.not_mem_none _) }]
  disks := some
    [{ stats := { major := 8, name := "sda", readsCompleted := 5, writesCompleted := 7 }
       others := [0, 0, 0, 0], lead := 3, pads := fun _ => 0
       named := ⟨by decide, Str.black_of_all rfl⟩ },
     { stats := { major := 8, minor := 1, name := "sda1", readsCompleted := 4, writesCompleted := 7 }
       others := [0, 0, 0, 0], lead := 3, pads := fun _ => 0
       named := ⟨by decide, Str.black_of_all rfl⟩ }]
  statvfs mountpoint := if mountpoint = "/" then some ⟨4096000, 1024000, 819200, 1000, 900⟩ else none

def sampleConfig : HousekeepingConfig where
  housekeepingInterval := 1000000000
  maxHousekeepingInterval := 1000000000
  allowDynamicHousekeeping := false
  partitions := [⟨"/dev/sda1", "/", "ext4", 8, 1⟩, ⟨"/dev/sdb1", "/gone", "ext4", 8, 17⟩]

def shownRound : Round where
  slowDue := false
  dirUsage := (0, 0)
  spec := ⟨.ok none, false, fun _ => .notFound⟩
  now := GoTime.zero
  cgroupAt _ := some ⟨none, rootFiles⟩
  sysBlock := none
  netDev := sampleMachine.interfaces.map netDevFile
  meminfo := sampleMachine.memory.map memFile
  diskstats := sampleMachine.disks.map diskFile
  statvfs := sampleMachine.statvfs
  oomAt := GoTime.zero
  oomKillAt := GoTime.zero
  existsAfter := true

def rootLoop : Housekeeping :=
  .start sampleConfig
    { name := "/", reference := { name := "/" }, spec := {}, store := TimedStore.new .zero,
      initPid := some 1, reportsNetwork := true, rootfsDiff := none, fsUsage := (0, 0) }
    (.new none {}) EventStore.new

theorem sample_files_shown : ∃ own stats, Sampled rootCgroup GoTime.zero own ∧
    rootLoop.sample sampleConfig shownRound = .ok (stats,
      { rootLoop.disks with sysBlock := none }.noteDisks own.diskIo.ioServiceBytes) ∧
    sampleMachine.Completes sampleConfig.partitions rootLoop.handle own stats := by
  have shown : sampleMachine.Shown rootCgroup shownRound :=
    ⟨rootCgroup_shows, rfl, rfl, rfl, rfl⟩
  have fits : sampleMachine.Fits := by
    rintro _ ⟨⟩
    decide +kernel
  exact sample_files rootCgroup_named rootCgroup_fit shown fits sampleConfig rootLoop

end Machine

end Kernel

end Cadvisor
