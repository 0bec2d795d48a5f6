import Cadvisor.Manager.Housekeeping
import Mathlib.Data.List.Induction

/-!
# The spec while a container is kept

`add_container` builds the spec whole; the slow path of housekeeping patches it
field by field.  Both come to the same spec of the same cgroup, but for what the
creation alone knows.
-/

set_option autoImplicit false

namespace Cadvisor

/-- `fresh` with what is set at creation only taken from `created`. -/
def ContainerSpec.keepingCreation (created fresh : ContainerSpec) : ContainerSpec :=
  { fresh with
    creationTime := created.creationTime
    image := created.image
    labels := created.labels
    envs := created.envs
    hasNetwork := created.hasNetwork
    hasFilesystem := created.hasFilesystem }

/-- The unified hierarchy's flags, the same for every cgroup. -/
def CgroupSpec.Unified (cg : CgroupSpec) : Prop :=
  cg.hasCpu = true ∧ cg.hasProcesses = true ∧ cg.hasDiskIo = true

theorem CgroupReader.readSpec_unified {access : SpecAccess} {cgroup : String} {cg : CgroupSpec}
    (read : readSpec access cgroup = .ok cg) : cg.Unified := by
  unfold readSpec at read
  simp only [bind, Except.bind] at read
  repeat' split at read
  all_goals cases read
  exact ⟨rfl, rfl, rfl⟩

namespace Manager

def childSpec (cg : CgroupSpec) : ContainerSpec where
  creationTime := cg.creationTime.getD GoTime.zero
  hasCpu := cg.hasCpu
  hasMemory := cg.hasMemory
  hasProcesses := cg.hasProcesses
  hasDiskIo := cg.hasDiskIo
  cpu :=
    { limit := cg.cpuShares
      mask := cg.cpuMask
      period := cg.cpuPeriod
      quota := cg.cpuQuota.getD 0 }
  memory :=
    { limit := cg.memoryLimit
      swapLimit := cg.swapLimit
      reservation := cg.memoryReservation }
  processes := { limit := cg.pidsLimit }

theorem buildSpec_child (m : Manager) (access : CgroupReader.SpecAccess) {name : String}
    (child : name ≠ "/") {spec : ContainerSpec} :
    m.buildSpec access name = .ok spec ↔
      ∃ cg, CgroupReader.readSpec access name = .ok cg ∧ spec = childSpec cg := by
  unfold buildSpec
  cases CgroupReader.readSpec access name with
  | error e => simp
  | ok cg =>
      simp only [if_neg child, Except.ok.injEq, exists_eq_left']
      exact eq_comm

theorem newHandle_spec (m : Manager) (name : String) (built : ContainerSpec)
    (known : Option ContainerMeta) :
    (m.newHandle name built known).spec =
      (m.newHandle name built known).spec.keepingCreation built := by
  cases known <;> rfl

theorem recordEvent_containers {m next : Manager} {name : String} {eventType : EventType}
    {timestamp : GoTime} (recorded : m.recordEvent name eventType timestamp = some next) :
    next.containers = m.containers := by
  unfold recordEvent at recorded
  cases event : m.events.recordEvent name eventType timestamp with
  | none =>
      rw [event] at recorded
      cases recorded
  | some events =>
      rw [event] at recorded
      cases recorded
      rfl

/-- `add_container` changes nothing or puts one new handle, made of the spec
that is built then, in front. -/
theorem addContainer_cases {runtimeMeta : String → String → Option ContainerMeta}
    {access : CgroupReader.SpecAccess} {m next : Manager} {name : String} {recordCreation : Bool}
    (added : m.addContainer runtimeMeta access name recordCreation = some next) :
    next = m ∨ ∃ built known, m.buildSpec access name = .ok built ∧
      next.containers.handles = m.newHandle name built known :: m.containers.handles := by
  unfold addContainer at added
  dsimp only at added
  by_cases mount : Str.endsWith name ".mount" = true
  · rw [if_pos mount] at added
    exact Or.inl (Option.some.inj added).symm
  rw [if_neg mount] at added
  by_cases registered : name ∈ m.containers.names
  · rw [if_pos registered] at added
    exact Or.inl (Option.some.inj added).symm
  rw [if_neg registered] at added
  cases built : m.buildSpec access name with
  | error e =>
      rw [built] at added
      exact Or.inl (Option.some.inj added).symm
  | ok spec =>
      rw [built] at added
      generalize runtimeMeta name (((Str.split name '/').getLast?).getD name) = known at added
      obtain ⟨containers, inserted, handlesAre⟩ :=
        m.containers.insertNew_fresh (h := m.newHandle name spec known)
          ((m.newHandle_name name spec known).symm ▸ registered)
      simp only [inserted] at added
      refine Or.inr ⟨spec, known, rfl, ?_⟩
      rw [← handlesAre]
      cases recordCreation with
      | true => rw [recordEvent_containers added]
      | false =>
          cases added
          rfl

theorem addContainer_handle {runtimeMeta : String → String → Option ContainerMeta}
    {access : CgroupReader.SpecAccess} {m next : Manager} {name : String} {recordCreation : Bool}
    {handle : ContainerHandle} (absent : m.containers.get? name = none)
    (added : m.addContainer runtimeMeta access name recordCreation = some next)
    (found : next.containers.get? name = some handle) :
    ∃ built known, m.buildSpec access name = .ok built ∧
      handle = m.newHandle name built known := by
  rcases addContainer_cases added with same | ⟨built, known, isBuilt, handlesAre⟩
  · rw [same, absent] at found
    cases found
  · refine ⟨built, known, isBuilt, ?_⟩
    have named := m.newHandle_name name built known
    rw [Registry.get?, handlesAre, List.find?_cons_of_pos (by simp [named])] at found
    exact (Option.some.inj found).symm

end Manager

namespace Housekeeping

open Manager (childSpec)

/-- The spec is that of some unified cgroup, but for what `created` has kept. -/
def SpecKept (created : ContainerSpec) (s : Housekeeping) : Prop :=
  ∃ cg : CgroupSpec, cg.Unified ∧ s.handle.spec = created.keepingCreation (childSpec cg)

theorem slowPath_name (s : Housekeeping) (r : Round) :
    (s.slowPath r).handle.name = s.handle.name := by
  unfold slowPath
  dsimp only
  split_ifs <;> first | rfl | (split <;> rfl)

theorem slowPath_spec_error {s : Housekeeping} {r : Round} {e : HostError}
    (failed : CgroupReader.readSpec r.spec s.handle.name = .error e) :
    (s.slowPath r).handle.spec = s.handle.spec := by
  unfold slowPath
  dsimp only
  split_ifs <;> simp only [failed]

theorem slowPath_spec_ok {created : ContainerSpec} {s : Housekeeping} {r : Round}
    {cg : CgroupSpec} (child : s.handle.name ≠ "/") (kept : SpecKept created s)
    (due : r.slowDue = true ∨ s.firstIteration = true)
    (read : CgroupReader.readSpec r.spec s.handle.name = .ok cg) :
    (s.slowPath r).handle.spec = created.keepingCreation (childSpec cg) := by
  obtain ⟨old, ⟨oldCpu, oldProcesses, oldDiskIo⟩, specIs⟩ := kept
  obtain ⟨newCpu, newProcesses, newDiskIo⟩ := CgroupReader.readSpec_unified read
  unfold slowPath
  rw [if_pos due]
  split_ifs <;>
    simp only [child, ne_eq, not_false_eq_true, if_true, read, specIs,
      ContainerSpec.keepingCreation, childSpec, oldCpu, oldProcesses, oldDiskIo, newCpu,
      newProcesses, newDiskIo]

theorem keepSample_handle (cfg : HousekeepingConfig) (s : Housekeeping) (r : Round)
    (stats : ContainerStats) :
    (keepSample cfg s r stats).handle.name = s.handle.name ∧
      (keepSample cfg s r stats).handle.spec = s.handle.spec := by
  unfold keepSample
  cases recordOom s r stats with
  | none => exact ⟨rfl, rfl⟩
  | some events =>
      dsimp only
      cases nextInterval cfg s stats with
      | none => exact ⟨rfl, rfl⟩
      | some interval =>
          dsimp only
          cases s.handle.store.push stats <;> exact ⟨rfl, rfl⟩

theorem step_handle (cfg : HousekeepingConfig) {s : Housekeeping} (runs : s.status = .running)
    (r : Round) :
    (step cfg s r).handle.name = s.handle.name ∧
      (step cfg s r).handle.spec = (s.slowPath r).handle.spec := by
  unfold step
  simp only [runs, ne_eq, not_true_eq_false, if_false]
  cases (s.slowPath r).sample cfg r with
  | ok sampled =>
      obtain ⟨stats, disks⟩ := sampled
      have kept := keepSample_handle cfg { s.slowPath r with disks } r stats
      exact ⟨kept.1.trans (slowPath_name s r), kept.2⟩
  | error e =>
      dsimp only
      split <;> exact ⟨slowPath_name s r, rfl⟩

theorem slowPath_kept {created : ContainerSpec} {s : Housekeeping} (r : Round)
    (child : s.handle.name ≠ "/") (kept : SpecKept created s) :
    SpecKept created (s.slowPath r) := by
  by_cases due : r.slowDue = true ∨ s.firstIteration = true
  · cases read : CgroupReader.readSpec r.spec s.handle.name with
    | error e =>
        unfold SpecKept
        rw [slowPath_spec_error read]
        exact kept
    | ok cg => exact ⟨cg, CgroupReader.readSpec_unified read, slowPath_spec_ok child kept due read⟩
  · unfold slowPath
    rw [if_neg due]
    exact kept

theorem run_kept (cfg : HousekeepingConfig) {created : ContainerSpec} {s : Housekeeping}
    (child : s.handle.name ≠ "/") (kept : SpecKept created s) (rounds : List Round) :
    (run cfg s rounds).handle.name = s.handle.name ∧ SpecKept created (run cfg s rounds) := by
  induction rounds using List.reverseRecOn with
  | nil => exact ⟨rfl, kept⟩
  | append_singleton rounds r ih =>
      obtain ⟨named, ih⟩ := ih
      rw [run_concat]
      by_cases runs : (run cfg s rounds).status = .running
      · obtain ⟨sameName, sameSpec⟩ := step_handle cfg runs r
        refine ⟨sameName.trans named, ?_⟩
        unfold SpecKept
        rw [sameSpec]
        exact slowPath_kept r (named ▸ child) ih
      · rw [step_stopped cfg r runs]
        exact ⟨named, ih⟩

/-- A round whose slow path re-reads the spec leaves the handle with the spec
that `build_spec` gives for the cgroup as it is then, but for what is set at
creation; one whose re-read fails leaves it with the spec it had. -/
theorem refreshed_as_rebuilt (cfg : HousekeepingConfig)
    (runtimeMeta : String → String → Option ContainerMeta) (atCreation : CgroupReader.SpecAccess)
    (m added : Manager) (name : String) (child : name ≠ "/")
    (absent : m.containers.get? name = none) (recordCreation : Bool)
    (adds : m.addContainer runtimeMeta atCreation name recordCreation = some added)
    (handle : ContainerHandle) (found : added.containers.get? name = some handle)
    (disks : DiskState) (events : EventStore) (rounds : List Round) (r : Round)
    (runs : (run cfg (start cfg handle disks events) rounds).status = .running)
    (due : r.slowDue = true ∨
      (run cfg (start cfg handle disks events) rounds).firstIteration = true) :
    (∀ cg, CgroupReader.readSpec r.spec name = .ok cg →
      ∀ later : Manager, ∃ fresh, later.buildSpec r.spec name = .ok fresh ∧
        (step cfg (run cfg (start cfg handle disks events) rounds) r).handle.spec =
          handle.spec.keepingCreation fresh) ∧
      ∀ e, CgroupReader.readSpec r.spec name = .error e →
        (step cfg (run cfg (start cfg handle disks events) rounds) r).handle.spec =
          (run cfg (start cfg handle disks events) rounds).handle.spec := by
  obtain ⟨built, known, isBuilt, handleIs⟩ := Manager.addContainer_handle absent adds found
  obtain ⟨cg, read, builtIs⟩ := (m.buildSpec_child atCreation child).mp isBuilt
  have startName : (start cfg handle disks events).handle.name = name := by
    rw [handleIs]
    exact m.newHandle_name name built known
  have startKept : SpecKept handle.spec (start cfg handle disks events) := by
    refine ⟨cg, CgroupReader.readSpec_unified read, ?_⟩
    rw [← builtIs, handleIs]
    exact m.newHandle_spec name built known
  obtain ⟨sameName, kept⟩ := run_kept cfg (startName.symm ▸ child) startKept rounds
  have named := sameName.trans startName
  have stepped := (step_handle cfg runs r).2
  constructor
  · intro now readNow later
    refine ⟨childSpec now, (later.buildSpec_child r.spec child).mpr ⟨now, readNow, rfl⟩, ?_⟩
    rw [stepped]
    exact slowPath_spec_ok (named.symm ▸ child) kept due (named.symm ▸ readNow)
  · intro e failed
    rw [stepped]
    exact slowPath_spec_error (named.symm ▸ failed)

/-- The cgroup `/a` before its controllers are there. -/
def bareAccess : CgroupReader.SpecAccess := ⟨.ok none, false, fun _ => .notFound⟩

def limitedAccess : CgroupReader.SpecAccess :=
  ⟨.ok none, true, fun file => if file = "memory.max" then .content "4096\n" else .notFound⟩

def emptyManager : Manager := ⟨⟨.zero, []⟩, ⟨[], List.nodup_nil⟩, {}, EventStore.new⟩

theorem late_limit_refreshed :
    ∃ (added : Manager) (handle : ContainerHandle),
      added.containers.get? "/a" = some handle ∧ handle.spec.memory.limit = 0 ∧
        (step ⟨1000000000, 60000000000, true, []⟩
          (start ⟨1000000000, 60000000000, true, []⟩ handle plainStart.disks plainStart.events)
          { plainRound none with spec := limitedAccess }).handle.spec.memory.limit = 4096 := by
  obtain ⟨added, handle, adds, present, unlimited⟩ :
      ∃ (added : Manager) (handle : ContainerHandle),
        emptyManager.addContainer (fun _ _ => none) bareAccess "/a" false = some added ∧
          added.containers.get? "/a" = some handle ∧ handle.spec.memory.limit = 0 :=
    ⟨_, _, rfl, rfl, rfl⟩
  refine ⟨added, handle, present, unlimited, ?_⟩
  obtain ⟨fresh, built, specIs⟩ := (refreshed_as_rebuilt ⟨1000000000, 60000000000, true, []⟩
    (fun _ _ => none) bareAccess emptyManager added "/a" (by decide) rfl false adds handle present
    plainStart.disks plainStart.events [] { plainRound none with spec := limitedAccess } rfl
    (Or.inr rfl)).1 _ rfl emptyManager
  rw [run, List.foldl_nil] at specIs
  rw [specIs]
  cases built
  have limit : Parse.u64OrMax "4096\n" = 4096 := by decide +kernel
  exact limit

end Housekeeping

end Cadvisor
