import Cadvisor.Host.CgroupFs
import Cadvisor.Host.Parse

/-!
# Reading spec and stats of a cgroup

A file that is not found is an absent controller, never an error; any other
failure ends the read.  The directory may change between two accesses, so each
reader takes what every single access gives.
-/

set_option autoImplicit false

namespace Cadvisor

/-- `is_not_found` tells the two apart; the path and the cause are only logged. -/
inductive HostError where
  | notFound
  | other
  deriving DecidableEq

def HostError.isNotFound : HostError → Bool
  | .notFound => true
  | .other => false

structure CgroupSpec where
  creationTime : Option GoTime := none
  hasCpu : Bool := false
  cpuShares : UInt64 := 0
  cpuQuota : Option UInt64 := none
  cpuPeriod : UInt64 := 0
  cpuMask : String := ""
  hasMemory : Bool := false
  memoryLimit : UInt64 := 0
  swapLimit : UInt64 := 0
  memoryReservation : UInt64 := 0
  hasProcesses : Bool := false
  pidsLimit : UInt64 := 0
  hasDiskIo : Bool := false

namespace CgroupReader

/-- What opening each file gives, at the moment it is opened. -/
abbrev Files := String → FileRead

def read (files : Files) (file : String) : Except HostError String :=
  match files file with
  | .content text => .ok text
  | .notFound => .error .notFound
  | .failed => .error .other

def readOpt (files : Files) (file : String) : Except HostError (Option String) :=
  match read files file with
  | .ok text => .ok (some text)
  | .error e => if e.isNotFound then .ok none else .error e

def readU64OrMax (files : Files) (file : String) : Except HostError (Option UInt64) :=
  match readOpt files file with
  | .ok text => .ok (text.map Parse.u64OrMax)
  | .error e => .error e

/-- The processes in the cgroup, its descendants' left out. -/
def procs (files : Files) : Except HostError (List UInt32) :=
  match read files "cgroup.procs" with
  | .ok content =>
      .ok ((Str.lines content).filterMap fun l =>
        (Str.parseUnsigned (2 ^ 32) (Str.trim l)).map UInt32.ofNat)
  | .error e => .error e

/-- What the accesses of one `read_spec` give. -/
structure SpecAccess where
  metadata : Except HostError (Option GoTime)
  memoryMaxExists : Bool
  files : Files

def readSpec (access : SpecAccess) (cgroup : String) : Except HostError CgroupSpec := do
  let creationTime ← access.metadata
  let weight ← readU64OrMax access.files "cpu.weight"
  let max ← readOpt access.files "cpu.max"
  let mask ← readOpt access.files "cpuset.cpus.effective"
  let memoryLimit ← readU64OrMax access.files "memory.max"
  let swapLimit ← readU64OrMax access.files "memory.swap.max"
  let memoryReservation ← readU64OrMax access.files "memory.low"
  let pidsLimit ← readU64OrMax access.files "pids.max"
  .ok
    { creationTime
      hasCpu := true
      hasMemory := access.memoryMaxExists || cgroup = "/"
      hasProcesses := true
      hasDiskIo := true
      cpuShares := (weight.map Parse.cpuWeightToShares).getD 0
      cpuQuota := (max.map fun content => (Parse.cpuMax content).1).getD none
      cpuPeriod := (max.map fun content => (Parse.cpuMax content).2).getD 0
      cpuMask := (mask.map Str.trim).getD ""
      memoryLimit := memoryLimit.getD 0
      swapLimit := swapLimit.getD 0
      memoryReservation := memoryReservation.getD 0
      pidsLimit := pidsLimit.getD 0 }

/-- The cpu part of a sample; the kernel counts microseconds. -/
def readCpu (files : Files) : Except HostError CpuStats := do
  let content ← readOpt files "cpu.stat"
  match content with
  | none => .ok {}
  | some content =>
      let c := Parse.cpuStat content
      .ok
        { usage :=
            { total := c.usageUsec * 1000
              user := c.userUsec * 1000
              system := c.systemUsec * 1000 }
          cfs :=
            { periods := c.nrPeriods
              throttledPeriods := c.nrThrottled
              throttledTime := c.throttledUsec * 1000 } }

def readMemory (files : Files) : Except HostError MemoryStats := do
  let current ← readU64OrMax files "memory.current"
  match current with
  | none => .ok {}
  | some current =>
      let peak ← readU64OrMax files "memory.peak"
      let swap ← readU64OrMax files "memory.swap.current"
      let stat ← readOpt files "memory.stat"
      match stat with
      | none =>
          .ok
            { usage := current
              maxUsage := peak.getD 0
              swap := swap.getD 0
              workingSet := current }
      | some stat =>
          let m := Parse.memoryStat stat
          let faults : MemoryStatsMemoryData := { pgfault := m.pgfault, pgmajfault := m.pgmajfault }
          .ok
            { usage := current
              maxUsage := peak.getD 0
              swap := swap.getD 0
              cache := m.file
              rss := m.anon
              mappedFile := m.fileMapped
              workingSet := if m.inactiveFile ≤ current then current - m.inactiveFile else 0
              containerData := faults
              hierarchicalData := faults }

def readStats (files : Files) (timestamp : GoTime) : Except HostError ContainerStats := do
  let cpu ← readCpu files
  let memory ← readMemory files
  let events ← readOpt files "memory.events"
  let io ← readOpt files "io.stat"
  .ok
    { timestamp
      cpu
      memory
      oomEvents := (events.map Parse.oomKill).getD 0
      diskIo := (io.map Parse.diskIo).getD {} }

/-! ## What the readers make of missing and failing files -/

theorem readOpt_eq (files : Files) (file : String) :
    readOpt files file = match files file with
      | .content text => .ok (some text)
      | .notFound => .ok none
      | .failed => .error .other := by
  unfold readOpt read
  cases files file <;> rfl

/-- Whether the memory part meets a file that is there but cannot be read. -/
def memoryReadFails (files : Files) : Bool :=
  match files "memory.current" with
  | .failed => true
  | .notFound => false
  | .content _ =>
      files "memory.peak" = .failed ∨ files "memory.swap.current" = .failed ∨
        files "memory.stat" = .failed

/-- The same for everything a sample reads after `cpu.stat`. -/
def laterReadFails (files : Files) : Bool :=
  memoryReadFails files ∨ files "memory.events" = .failed ∨ files "io.stat" = .failed

theorem readCpu_notFound {files : Files} (missing : files "cpu.stat" = .notFound) :
    readCpu files = .ok {} := by
  have absent : readOpt files "cpu.stat" = .ok none := by rw [readOpt_eq, missing]
  simp only [readCpu, absent, bind, Except.bind]

theorem readMemory_outcome (files : Files) :
    if memoryReadFails files then ∃ e, readMemory files = .error e
    else ∃ memory, readMemory files = .ok memory := by
  unfold memoryReadFails readMemory readU64OrMax
  simp only [readOpt_eq]
  cases files "memory.current" with
  | failed => simp [bind, Except.bind]
  | notFound => simp [bind, Except.bind]
  | content current =>
      cases files "memory.peak" <;> cases files "memory.swap.current" <;>
        cases files "memory.stat" <;> simp [bind, Except.bind]

/-- A sample without `cpu.stat` is read, with no cpu usage, unless a later read fails. -/
theorem readStats_notFound {files : Files} (missing : files "cpu.stat" = .notFound)
    (now : GoTime) :
    if laterReadFails files then ∃ e, readStats files now = .error e
    else ∃ stats, readStats files now = .ok stats ∧ stats.cpu = {} := by
  have memory := readMemory_outcome files
  unfold laterReadFails readStats
  simp only [readCpu_notFound missing, readOpt_eq, bind, Except.bind]
  by_cases fails : memoryReadFails files = true
  · rw [if_pos fails] at memory
    obtain ⟨e, memoryIs⟩ := memory
    simp [fails, memoryIs]
  · rw [if_neg fails] at memory
    obtain ⟨stats, memoryIs⟩ := memory
    cases files "memory.events" <;> cases files "io.stat" <;> simp [fails, memoryIs]

theorem readStats_content {files : Files} {text : String}
    (present : files "cpu.stat" = .content text) {now : GoTime} {stats : ContainerStats}
    (read : readStats files now = .ok stats) :
    stats.cpu.usage.total = (Parse.cpuStat text).usageUsec * 1000 := by
  have cpuIs : ∃ cpu, readCpu files = .ok cpu ∧
      cpu.usage.total = (Parse.cpuStat text).usageUsec * 1000 := by
    refine ⟨_, by simp only [readCpu, readOpt_eq, present, bind, Except.bind]; rfl, rfl⟩
  obtain ⟨cpu, cpuRead, usage⟩ := cpuIs
  simp only [readStats, cpuRead, readOpt_eq, bind, Except.bind] at read
  cases memory : readMemory files with
  | error e => simp [memory] at read
  | ok memory' =>
      cases events : files "memory.events" <;> cases io : files "io.stat" <;>
        simp only [memory, events, io, Except.ok.injEq, reduceCtorEq] at read <;>
        rw [← read] <;> exact usage

theorem readStats_failed {files : Files} (failed : files "cpu.stat" = .failed) (now : GoTime) :
    ∃ e, readStats files now = .error e := by
  refine ⟨.other, ?_⟩
  simp only [readStats, readCpu, readOpt_eq, failed, bind, Except.bind]

theorem readSpec_ok (access : SpecAccess) (cgroup : String) {modified : Option GoTime}
    (found : access.metadata = .ok modified) (readable : ∀ file, access.files file ≠ .failed) :
    ∃ spec, readSpec access cgroup = .ok spec ∧ spec.creationTime = modified := by
  have opt : ∀ file, ∃ text, readOpt access.files file = .ok text := by
    intro file
    rw [readOpt_eq]
    cases outcome : access.files file with
    | content text => exact ⟨some text, rfl⟩
    | notFound => exact ⟨none, rfl⟩
    | failed => exact absurd outcome (readable file)
  have number : ∀ file, ∃ value, readU64OrMax access.files file = .ok value := by
    intro file
    obtain ⟨text, read⟩ := opt file
    exact ⟨text.map Parse.u64OrMax, by rw [readU64OrMax, read]⟩
  obtain ⟨_, weight⟩ := number "cpu.weight"
  obtain ⟨_, max⟩ := opt "cpu.max"
  obtain ⟨_, mask⟩ := opt "cpuset.cpus.effective"
  obtain ⟨_, limit⟩ := number "memory.max"
  obtain ⟨_, swap⟩ := number "memory.swap.max"
  obtain ⟨_, reservation⟩ := number "memory.low"
  obtain ⟨_, pids⟩ := number "pids.max"
  refine ⟨_, by simp only [readSpec, found, weight, max, mask, limit, swap, reservation, pids,
    bind, Except.bind]; rfl, rfl⟩

end CgroupReader

namespace CgroupFs

def specAccess (fs : CgroupFs) (cgroup : String) : CgroupReader.SpecAccess :=
  match resolve cgroup with
  | none => ⟨.error .notFound, false, fun _ => .notFound⟩
  | some path =>
      if path ∈ fs.dirs then
        ⟨.ok (fs.dir path).modified, (fs.dir path).file "memory.max" ≠ .notFound,
          (fs.dir path).file⟩
      else ⟨.error .notFound, false, fun _ => .notFound⟩

end CgroupFs

end Cadvisor
