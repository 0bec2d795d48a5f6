import Cadvisor.Host.Fs
import Cadvisor.Manager.Containers
import Cadvisor.Manager.Disks

/-!
# Housekeeping of one container

The loop samples a container until its cgroup is gone.  It looks for the
directory only after a failed sample, and a sample fails only on a file that is
there and cannot be read: a directory that is not there gives a sample of zeros.
-/

set_option autoImplicit false

namespace Cadvisor

structure HousekeepingConfig where
  /-- Nanoseconds, as all intervals here. -/
  housekeepingInterval : Nat
  maxHousekeepingInterval : Nat
  allowDynamicHousekeeping : Bool
  partitions : List Partition

/-- What the environment answers to one round of the loop.  The directory of the
cgroup may come and go between two reads: `cgroupAt` is its state when the file
of that name is opened. -/
structure Round where
  slowDue : Bool
  dirUsage : UInt64 × UInt64
  spec : CgroupReader.SpecAccess
  now : GoTime
  cgroupAt : String → Option CgroupDir
  sysBlock : SysBlock
  netDev : Option String
  meminfo : Option String
  diskstats : Option String
  statvfs : String → Option FsUsage
  oomAt : GoTime
  oomKillAt : GoTime
  existsAfter : Bool

def Round.files (r : Round) : CgroupReader.Files := fun file =>
  match r.cgroupAt file with
  | none => .notFound
  | some dir => dir.file file

inductive TaskStatus where
  | running
  | returned
  | panicked
  deriving DecidableEq

/-- The loop's variables, the handle it works for and what it changes elsewhere;
`samples` lists everything handed to the store. -/
structure Housekeeping where
  handle : ContainerHandle
  interval : Nat
  prev : Option ContainerStats
  firstIteration : Bool
  status : TaskStatus
  disks : DiskState
  events : EventStore
  samples : List ContainerStats

namespace Housekeeping

def start (cfg : HousekeepingConfig) (handle : ContainerHandle) (disks : DiskState)
    (events : EventStore) : Housekeeping :=
  { handle, interval := cfg.housekeepingInterval, prev := none, firstIteration := true,
    status := .running, disks, events, samples := [] }

def slowPath (s : Housekeeping) (r : Round) : Housekeeping :=
  if r.slowDue ∨ s.firstIteration then
    let handle :=
      if s.handle.rootfsDiff.isSome then { s.handle with fsUsage := r.dirUsage } else s.handle
    let handle :=
      if handle.name ≠ "/" then
        match CgroupReader.readSpec r.spec handle.name with
        | .error _ => handle
        | .ok cg =>
            { handle with
              spec :=
                { handle.spec with
                  hasMemory := cg.hasMemory
                  memory :=
                    { limit := cg.memoryLimit
                      swapLimit := cg.swapLimit
                      reservation := cg.memoryReservation }
                  cpu :=
                    { handle.spec.cpu with
                      limit := cg.cpuShares
                      mask := cg.cpuMask
                      period := cg.cpuPeriod
                      quota := cg.cpuQuota.getD 0 }
                  processes := { limit := cg.pidsLimit } } }
      else handle
    { s with handle, firstIteration := false }
  else s

def fillNetwork (handle : ContainerHandle) (r : Round) (stats : ContainerStats) : ContainerStats :=
  if handle.reportsNetwork ∧ handle.initPid.isSome then
    match r.netDev with
    | none => stats
    | some content =>
        let interfaces := Parse.procNetDev content
        { stats with
          network :=
            { interface := (interfaces.head?).getD stats.network.interface
              interfaces } }
  else stats

/-- The root has no `memory.current`; its usage comes from the machine. -/
def fillRootMemory (r : Round) (stats : ContainerStats) : ContainerStats :=
  match r.meminfo with
  | none => stats
  | some content =>
      let (total, free) := Parse.memTotalFree content
      if stats.memory.usage = 0 ∧ free ≤ total then
        let usage := (total - free) * 1024
        { stats with memory := { stats.memory with usage, workingSet := usage } }
      else stats

def rootFilesystem (r : Round) (p : Partition) : Option FsStats :=
  match r.statvfs p.mountpoint with
  | none => none
  | some u =>
      let lines := ((r.diskstats.map Parse.diskstats).getD []).reverse
      let d := ((lines.find? fun d => d.major = p.major ∧ d.minor = p.minor).getD {})
      some
        { device := p.device
          fsType := "vfs"
          limit := u.capacity
          usage := u.capacity - u.free
          baseUsage := 0
          available := u.available
          hasInodes := true
          inodes := u.inodes
          inodesFree := u.inodesFree
          readsCompleted := d.readsCompleted
          readsMerged := d.readsMerged
          sectorsRead := d.sectorsRead
          readTime := d.readTime
          writesCompleted := d.writesCompleted
          writesMerged := d.writesMerged
          sectorsWritten := d.sectorsWritten
          writeTime := d.writeTime
          ioInProgress := d.ioInProgress
          ioTime := d.ioTime
          weightedIoTime := d.weightedIoTime }

def fillRootStats (partitions : List Partition) (r : Round) (stats : ContainerStats) :
    ContainerStats :=
  let stats := fillRootMemory r stats
  { stats with filesystem := stats.filesystem ++ partitions.filterMap (rootFilesystem r) }

/-- The writable layer: capacity from its filesystem, usage from the cached walk. -/
def fillOverlay (partitions : List Partition) (handle : ContainerHandle) (r : Round)
    (stats : ContainerStats) : ContainerStats :=
  match handle.rootfsDiff.bind (partitionForPath partitions) with
  | none => stats
  | some p =>
      match r.statvfs p.mountpoint with
      | none => stats
      | some u =>
          { stats with
            filesystem := stats.filesystem ++
              [{ device := p.device
                 fsType := "vfs"
                 limit := u.capacity
                 usage := handle.fsUsage.1
                 baseUsage := handle.fsUsage.1
                 available := u.available
                 hasInodes := true
                 inodes := u.inodes
                 inodesFree := u.inodesFree }] }

def fill (partitions : List Partition) (handle : ContainerHandle) (r : Round)
    (stats : ContainerStats) : ContainerStats :=
  let stats := fillNetwork handle r stats
  if handle.name = "/" then fillRootStats partitions r stats
  else fillOverlay partitions handle r stats

def sample (cfg : HousekeepingConfig) (s : Housekeeping) (r : Round) :
    Except HostError (ContainerStats × DiskState) :=
  match CgroupReader.readStats r.files r.now with
  | .error e => .error e
  | .ok stats =>
      let disks := { s.disks with sysBlock := r.sysBlock }.noteDisks stats.diskIo.ioServiceBytes
      .ok (fill cfg.partitions s.handle r stats, disks)

/-- Both events of an out-of-memory kill; `none` is the panic of `record_event`. -/
def recordOom (s : Housekeeping) (r : Round) (stats : ContainerStats) : Option EventStore :=
  match s.prev with
  | none => some s.events
  | some p =>
      if p.oomEvents < stats.oomEvents then
        (s.events.recordEvent s.handle.name .oom r.oomAt).bind fun events =>
          events.recordEvent s.handle.name .oomKill r.oomKillAt
      else some s.events

/-- `Duration * 2`; the panic on overflow is `none`. -/
def doubled (interval : Nat) : Option Nat :=
  if interval * 2 < 2 ^ 64 * 1000000000 then some (interval * 2) else none

def unchanged (prev : Option ContainerStats) (stats : ContainerStats) : Bool :=
  prev.any fun p => p.cpu.usage.total = stats.cpu.usage.total ∧ p.memory.usage = stats.memory.usage

def nextInterval (cfg : HousekeepingConfig) (s : Housekeeping) (stats : ContainerStats) :
    Option Nat :=
  if cfg.allowDynamicHousekeeping then
    if unchanged s.prev stats then
      (doubled s.interval).map fun twice => min twice cfg.maxHousekeepingInterval
    else some cfg.housekeepingInterval
  else some s.interval

def keepSample (cfg : HousekeepingConfig) (s : Housekeeping) (r : Round) (stats : ContainerStats) :
    Housekeeping :=
  match recordOom s r stats with
  | none => { s with status := .panicked }
  | some events =>
      match nextInterval cfg s stats with
      | none => { s with events, status := .panicked }
      | some interval =>
          let s :=
            { s with
              events
              interval
              prev := some stats
              samples := s.samples ++ [stats] }
          match s.handle.store.push stats with
          | none => { s with status := .panicked }
          | some store => { s with handle := { s.handle with store } }

/-- One round, up to the sleep at its end. -/
def step (cfg : HousekeepingConfig) (s : Housekeeping) (r : Round) : Housekeeping :=
  if s.status ≠ .running then s
  else
    let s := s.slowPath r
    match s.sample cfg r with
    | .ok (stats, disks) => keepSample cfg { s with disks } r stats
    | .error _ => if r.existsAfter then s else { s with status := .returned }

def run (cfg : HousekeepingConfig) (s : Housekeeping) (rounds : List Round) : Housekeeping :=
  rounds.foldl (step cfg) s

@[simp] theorem run_concat (cfg : HousekeepingConfig) (s : Housekeeping) (rounds : List Round)
    (r : Round) : run cfg s (rounds ++ [r]) = step cfg (run cfg s rounds) r := by
  simp [run]

/-! ## What one round does -/

theorem slowPath_samples (s : Housekeeping) (r : Round) : (s.slowPath r).samples = s.samples := by
  unfold slowPath
  split_ifs <;> rfl

theorem slowPath_status (s : Housekeeping) (r : Round) : (s.slowPath r).status = s.status := by
  unfold slowPath
  split_ifs <;> rfl

theorem fill_cpu (partitions : List Partition) (handle : ContainerHandle) (r : Round)
    (stats : ContainerStats) : (fill partitions handle r stats).cpu = stats.cpu := by
  have network : (fillNetwork handle r stats).cpu = stats.cpu := by
    unfold fillNetwork
    split
    · split <;> rfl
    · rfl
  have rootMemory : ∀ other, (fillRootMemory r other).cpu = other.cpu := by
    intro other
    unfold fillRootMemory
    split
    · rfl
    · dsimp only
      split <;> rfl
  have overlay : ∀ other, (fillOverlay partitions handle r other).cpu = other.cpu := by
    intro other
    unfold fillOverlay
    split
    · rfl
    · split <;> rfl
  unfold fill
  dsimp only
  split
  · unfold fillRootStats
    dsimp only
    rw [rootMemory, network]
  · rw [overlay, network]

/-- A good sample is the only one added, and never makes the loop return. -/
theorem keepSample_cases (cfg : HousekeepingConfig) (s : Housekeeping) (r : Round)
    (stats : ContainerStats) :
    ((keepSample cfg s r stats).samples = s.samples ∨
        (keepSample cfg s r stats).samples = s.samples ++ [stats]) ∧
      ((keepSample cfg s r stats).status = s.status ∨
        (keepSample cfg s r stats).status = .panicked) := by
  unfold keepSample
  cases recordOom s r stats with
  | none => exact ⟨Or.inl rfl, Or.inr rfl⟩
  | some events =>
      dsimp only
      cases nextInterval cfg s stats with
      | none => exact ⟨Or.inl rfl, Or.inr rfl⟩
      | some interval =>
          dsimp only
          cases s.handle.store.push stats with
          | none => exact ⟨Or.inr rfl, Or.inr rfl⟩
          | some store => exact ⟨Or.inr rfl, Or.inl rfl⟩

theorem step_stopped (cfg : HousekeepingConfig) {s : Housekeeping} (r : Round)
    (stopped : s.status ≠ .running) : step cfg s r = s := by
  simp [step, stopped]

theorem step_error (cfg : HousekeepingConfig) {s : Housekeeping} {r : Round}
    (runs : s.status = .running) {e : HostError}
    (failed : CgroupReader.readStats r.files r.now = .error e) :
    (step cfg s r).samples = s.samples ∧
      (step cfg s r).status = if r.existsAfter then .running else .returned := by
  have sampled : (s.slowPath r).sample cfg r = .error e := by
    simp only [sample, failed]
  unfold step
  simp only [runs, ne_eq, not_true_eq_false, if_false, sampled]
  split
  · exact ⟨slowPath_samples s r, (slowPath_status s r).trans runs⟩
  · exact ⟨slowPath_samples s r, rfl⟩

theorem step_ok (cfg : HousekeepingConfig) {s : Housekeeping} {r : Round}
    (runs : s.status = .running) {stats : ContainerStats}
    (read : CgroupReader.readStats r.files r.now = .ok stats) :
    ((step cfg s r).samples = s.samples ∨
        ∃ kept, (step cfg s r).samples = s.samples ++ [kept] ∧ kept.cpu = stats.cpu) ∧
      (step cfg s r).status ≠ .returned := by
  obtain ⟨disks, sampled⟩ : ∃ disks, (s.slowPath r).sample cfg r =
      .ok (fill cfg.partitions (s.slowPath r).handle r stats, disks) := by
    simp only [sample, read]
    exact ⟨_, rfl⟩
  have unfolded : step cfg s r = keepSample cfg { s.slowPath r with disks } r
      (fill cfg.partitions (s.slowPath r).handle r stats) := by
    unfold step
    simp only [runs, ne_eq, not_true_eq_false, if_false, sampled]
  have kept := keepSample_cases cfg { s.slowPath r with disks } r
    (fill cfg.partitions (s.slowPath r).handle r stats)
  rw [← unfolded] at kept
  simp only [slowPath_samples, slowPath_status, runs] at kept
  refine ⟨kept.1.imp id fun added => ⟨_, added, fill_cpu ..⟩, ?_⟩
  rcases kept.2 with still | panicked
  · simp [still]
  · simp [panicked]

/-! ## Runs -/

/-- The directory of the cgroup is not there when the sample opens its first file. -/
def MissingAtSample (r : Round) : Prop := r.cgroupAt "cpu.stat" = none

theorem files_missing {r : Round} (missing : MissingAtSample r) :
    r.files "cpu.stat" = .notFound := by
  unfold MissingAtSample at missing
  simp only [Round.files, missing]

/-- What the kernel's usage counter shows in a round in which the cgroup exists. -/
def cpuReading (r : Round) : Option UInt64 :=
  match r.cgroupAt "cpu.stat" with
  | none => none
  | some dir =>
      match dir.file "cpu.stat" with
      | .content text => some (Parse.cpuStat text).usageUsec
      | .notFound => none
      | .failed => none

/-- The kernel's counters while the cgroup exists: they are there, never
decrease, and fit 64 bits in nanoseconds. -/
structure MonotoneCounters (rounds : List Round) : Prop where
  present : ∀ r ∈ rounds, ∀ dir, r.cgroupAt "cpu.stat" = some dir →
    dir.file "cpu.stat" ≠ .notFound
  monotone : (rounds.filterMap cpuReading).Pairwise (· ≤ ·)
  fits : ∀ usec ∈ rounds.filterMap cpuReading, usec.toNat * 1000 < 2 ^ 64

/-- Every round of the run that finds its cgroup missing adds no sample and ends the loop. -/
def EndsWhenMissing (cfg : HousekeepingConfig) (s : Housekeeping) (rounds : List Round) : Prop :=
  ∀ before r after, rounds = before ++ r :: after → (run cfg s before).status = .running →
    MissingAtSample r →
      (run cfg s (before ++ [r])).samples = (run cfg s before).samples ∧
        (run cfg s (before ++ [r])).status = .returned

/-- In every round of the run that finds its cgroup missing, the directory comes
back with a file that cannot be read, and is gone again at the check. -/
def MissesOnlyWithFailure (cfg : HousekeepingConfig) (s : Housekeeping) (rounds : List Round) :
    Prop :=
  ∀ before r after, rounds = before ++ r :: after → (run cfg s before).status = .running →
    MissingAtSample r →
      CgroupReader.laterReadFails r.files = true ∧ r.existsAfter = false

theorem step_missing_iff (cfg : HousekeepingConfig) {s : Housekeeping} {r : Round}
    (runs : s.status = .running) (missing : MissingAtSample r) :
    ((step cfg s r).samples = s.samples ∧ (step cfg s r).status = .returned) ↔
      CgroupReader.laterReadFails r.files = true ∧ r.existsAfter = false := by
  have outcome := CgroupReader.readStats_notFound (files_missing missing) r.now
  by_cases fails : CgroupReader.laterReadFails r.files = true
  · rw [if_pos fails] at outcome
    obtain ⟨e, failed⟩ := outcome
    obtain ⟨samplesKept, statusIs⟩ := step_error cfg runs failed
    cases there : r.existsAfter <;> simp [samplesKept, statusIs, fails, there]
  · rw [if_neg fails] at outcome
    obtain ⟨stats, read, _⟩ := outcome
    have notReturned := (step_ok cfg runs read).2
    simp [fails, notReturned]

theorem cpuReading_of_read {r : Round} {stats : ContainerStats}
    (missed : MissingAtSample r → CgroupReader.laterReadFails r.files = true)
    (present : ∀ dir, r.cgroupAt "cpu.stat" = some dir → dir.file "cpu.stat" ≠ .notFound)
    (read : CgroupReader.readStats r.files r.now = .ok stats) :
    ∃ usec, cpuReading r = some usec ∧ stats.cpu.usage.total = usec * 1000 := by
  cases dirIs : r.cgroupAt "cpu.stat" with
  | none =>
      have outcome := CgroupReader.readStats_notFound (files_missing dirIs) r.now
      rw [if_pos (missed dirIs), read] at outcome
      obtain ⟨e, impossible⟩ := outcome
      cases impossible
  | some dir =>
      have fileIs : r.files "cpu.stat" = dir.file "cpu.stat" := by
        simp only [Round.files, dirIs]
      cases content : dir.file "cpu.stat" with
      | content text =>
          refine ⟨(Parse.cpuStat text).usageUsec, ?_, ?_⟩
          · simp only [cpuReading, dirIs, content]
          · exact CgroupReader.readStats_content (fileIs.trans content) read
      | notFound => exact absurd content (present dir dirIs)
      | failed =>
          obtain ⟨e, impossible⟩ := CgroupReader.readStats_failed (fileIs.trans content) r.now
          rw [read] at impossible
          cases impossible

theorem samples_sublist (cfg : HousekeepingConfig) (s : Housekeeping) (fresh : s.samples = [])
    (rounds : List Round) (condition : MissesOnlyWithFailure cfg s rounds)
    (present : ∀ r ∈ rounds, ∀ dir, r.cgroupAt "cpu.stat" = some dir →
      dir.file "cpu.stat" ≠ .notFound) :
    List.Sublist ((run cfg s rounds).samples.map fun stats => stats.cpu.usage.total)
      ((rounds.filterMap cpuReading).map (· * 1000)) := by
  induction rounds using List.reverseRecOn with
  | nil => simp [run, fresh]
  | append_singleton rounds r ih =>
      have earlier := ih
        (fun before x after split => condition before x (after ++ [r]) (by simp [split]))
        (fun x member => present x (List.mem_append_left _ member))
      rw [run_concat, List.filterMap_append, List.map_append]
      have skip : (step cfg (run cfg s rounds) r).samples = (run cfg s rounds).samples →
          List.Sublist ((step cfg (run cfg s rounds) r).samples.map
            fun stats => stats.cpu.usage.total)
            ((rounds.filterMap cpuReading).map (· * 1000) ++
              ([r].filterMap cpuReading).map (· * 1000)) := by
        intro same
        rw [same]
        exact earlier.trans (List.sublist_append_left _ _)
      by_cases runs : (run cfg s rounds).status = .running
      · cases outcome : CgroupReader.readStats r.files r.now with
        | error e => exact skip (step_error cfg runs outcome).1
        | ok stats =>
            rcases (step_ok cfg runs outcome).1 with same | ⟨kept, added, cpuIs⟩
            · exact skip same
            · obtain ⟨usec, readingIs, total⟩ := cpuReading_of_read
                (fun missing => (condition rounds r [] rfl runs missing).1)
                (present r (by simp)) outcome
              have one : [r].filterMap cpuReading = [usec] := by
                simp [readingIs]
              rw [added, List.map_append, one, List.map_singleton, List.map_singleton, cpuIs, total]
              exact earlier.append_right _
      · exact skip (congrArg samples (step_stopped cfg r runs))

theorem mul_thousand_le {a b : UInt64} (le : a ≤ b) (fits : b.toNat * 1000 < 2 ^ 64) :
    a * 1000 ≤ b * 1000 := by
  have order : a.toNat * 1000 ≤ b.toNat * 1000 := Nat.mul_le_mul_right 1000 le
  have aFits : a.toNat * 1000 < 2 ^ 64 := order.trans_lt fits
  have product : ∀ u : UInt64, u.toNat * 1000 < 2 ^ 64 → (u * 1000).toNat = u.toNat * 1000 := by
    intro u small
    rw [UInt64.toNat_mul]
    exact Nat.mod_eq_of_lt small
  rw [UInt64.le_iff_toNat_le, product a aFits, product b fits]
  exact order

/-- A run ends at the first round without its cgroup, and so its cpu usage never
decreases, exactly when no round finds the cgroup missing except one in which
the directory comes back unreadable and goes again. -/
theorem housekeeping_run_iff (cfg : HousekeepingConfig) (handle : ContainerHandle)
    (disks : DiskState) (events : EventStore) (rounds : List Round) :
    (EndsWhenMissing cfg (start cfg handle disks events) rounds ∧
        (MonotoneCounters rounds →
          (run cfg (start cfg handle disks events) rounds).samples.Pairwise
            fun a b => a.cpu.usage.total ≤ b.cpu.usage.total)) ↔
      MissesOnlyWithFailure cfg (start cfg handle disks events) rounds := by
  have same : EndsWhenMissing cfg (start cfg handle disks events) rounds ↔
      MissesOnlyWithFailure cfg (start cfg handle disks events) rounds := by
    constructor
    · intro ends before r after split runs missing
      have ended := ends before r after split runs missing
      rw [run_concat] at ended
      exact (step_missing_iff cfg runs missing).mp ended
    · intro condition before r after split runs missing
      rw [run_concat]
      exact (step_missing_iff cfg runs missing).mpr (condition before r after split runs missing)
  constructor
  · intro both
    exact same.mp both.1
  · intro condition
    refine ⟨same.mpr condition, fun counters => ?_⟩
    have shown := samples_sublist cfg (start cfg handle disks events) rfl rounds condition
      counters.present
    have rising : ((rounds.filterMap cpuReading).map (· * 1000)).Pairwise (· ≤ ·) := by
      rw [List.pairwise_map]
      apply counters.monotone.imp_of_mem
      intro a b _ bIn le
      exact mul_thousand_le le (counters.fits b bIn)
    exact List.pairwise_map.mp (rising.sublist shown)

def plainRound (dir : Option CgroupDir) : Round where
  slowDue := false
  dirUsage := (0, 0)
  spec := ⟨.error .notFound, false, fun _ => .notFound⟩
  now := .sinceEpoch 0
  cgroupAt := fun _ => dir
  sysBlock := none
  netDev := none
  meminfo := none
  diskstats := none
  statvfs := fun _ => none
  oomAt := .sinceEpoch 0
  oomKillAt := .sinceEpoch 0
  existsAfter := dir.isSome

def usedDir : CgroupDir where
  modified := none
  file := fun file => if file = "cpu.stat" then .content "usage_usec 5\n" else .notFound

def plainStart : Housekeeping :=
  start ⟨1000000000, 60000000000, true, []⟩
    { name := "/a", reference := {}, spec := {}, store := TimedStore.new .zero,
      initPid := none, reportsNetwork := false, rootfsDiff := none, fsUsage := (0, 0) }
    ⟨none, {}, SortedMap.empty⟩ EventStore.new

/-- The cgroup is removed after its first sample: the loop samples it again,
with no usage at all, and goes on. -/
theorem removed_cgroup_sampled :
    ¬ ∀ (cfg : HousekeepingConfig) (handle : ContainerHandle) (disks : DiskState)
      (events : EventStore) (rounds : List Round),
      EndsWhenMissing cfg (start cfg handle disks events) rounds ∧
        (MonotoneCounters rounds →
          (run cfg (start cfg handle disks events) rounds).samples.Pairwise
            fun a b => a.cpu.usage.total ≤ b.cpu.usage.total) := by
  intro claimed
  have usage : (run ⟨1000000000, 60000000000, true, []⟩ plainStart
      [plainRound (some usedDir), plainRound none]).samples.map
        (fun stats => stats.cpu.usage.total) = [5000, 0] := by
    decide +kernel
  obtain ⟨_, rising⟩ := claimed ⟨1000000000, 60000000000, true, []⟩ plainStart.handle
    plainStart.disks plainStart.events [plainRound (some usedDir), plainRound none]
  have counters : MonotoneCounters [plainRound (some usedDir), plainRound none] := by
    have readings : [plainRound (some usedDir), plainRound none].filterMap cpuReading = [5] := by
      decide +kernel
    refine ⟨?_, ?_, ?_⟩
    · intro r member dir there
      rcases List.mem_cons.mp member with rfl | second
      · cases there
        exact nofun
      · rw [List.mem_singleton.mp second] at there
        cases there
    · rw [readings]
      exact List.pairwise_singleton _ _
    · rw [readings]
      exact List.forall_mem_singleton.mpr (by decide)
  have falling := List.pairwise_map.mpr (rising counters)
  have same : start ⟨1000000000, 60000000000, true, []⟩ plainStart.handle plainStart.disks
      plainStart.events = plainStart := rfl
  rw [same, usage] at falling
  exact absurd falling (by decide)

end Housekeeping

end Cadvisor
