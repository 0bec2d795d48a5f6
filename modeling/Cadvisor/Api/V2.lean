import Cadvisor.Manager.Info
import Cadvisor.Model.V2

/-!
# The v2 API

A v2.0 sample is made from the v2.1 sample of the same stored sample, group by
group.  The v2.1 sample has only the sums of the file systems, so that their list
is not there to be copied.
-/

set_option autoImplicit false

namespace Cadvisor

/-! ## The rate of two samples -/

/-- `num_nanoseconds() as u64` of a positive difference; an `i64` holds 292 years. -/
def numNanoseconds (delta : Int) : Option UInt64 :=
  if delta < 2 ^ 63 then some (UInt64.ofNat delta.toNat) else none

/-- Nanocores per second; `none` for a counter that decreased. -/
def rate (deltaNs last cur : UInt64) : Option UInt64 :=
  if last ≤ cur then some ((cur - last).toFloat / deltaNs.toFloat * 1e9).toUInt64 else none

def instCpu (last cur : ContainerStats) : Option CpuInstStats :=
  if cur.timestamp ≤ last.timestamp then none
  else if last.cpu.usage.perCpu.length ≠ cur.cpu.usage.perCpu.length then none
  else do
    let deltaNs ← numNanoseconds (cur.timestamp.nanos - last.timestamp.nanos)
    if deltaNs = 0 then none
    else do
      let perCpu ← (last.cpu.usage.perCpu.zip cur.cpu.usage.perCpu).mapM fun lc =>
        rate deltaNs lc.1 lc.2
      let total ← rate deltaNs last.cpu.usage.total cur.cpu.usage.total
      let user ← rate deltaNs last.cpu.usage.user cur.cpu.usage.user
      let system ← rate deltaNs last.cpu.usage.system cur.cpu.usage.system
      some { usage := { total, perCpu, user, system } }

namespace V2

structure RequestOptions where
  idType : String := typeName
  /-- An `i64`. -/
  count : Int := 64
  recursive : Bool := false

/-- The texts show the name as its debug format. -/
inductive ResolveError where
  | unableToFindContainer (name : String)
  | unknownContainer (name : String)

def resolve (manager : Manager) (name : String) (opts : RequestOptions) :
    Except ResolveError (List ContainerHandle) :=
  if opts.idType ≠ typeName then
    let id := Str.trimStartMatches name '/'
    let found := manager.handles.filter fun h =>
      h.reference.namespace ≠ "" &&
        (id = "" || Str.startsWith h.reference.id id || h.reference.aliases.any (· == id))
    if found = [] ∧ id ≠ "" then .error (.unableToFindContainer name) else .ok found
  else
    match manager.handle name with
    | none => .error (.unknownContainer name)
    | some handle =>
        if ¬ opts.recursive then .ok [handle]
        else
          let pre := childPrefix name
          .ok (sortByName ContainerHandle.name
            (manager.handles.filter fun h => h.name = name || Str.startsWith h.name pre))

def v2Network (n : Cadvisor.NetworkStats) : NetworkStats :=
  { interfaces := n.interfaces
    tcp := n.tcp
    tcp6 := n.tcp6
    udp := n.udp
    udp6 := n.udp6
    tcpAdvanced := n.tcpAdvanced }

/-- `bool::then`. -/
def presentIf {α : Type} (has : Bool) (value : α) : Option α := if has then some value else none

def storedSamples (handle : ContainerHandle) (count : Int) : List Cadvisor.ContainerStats :=
  handle.store.inRange GoTime.zero GoTime.zero count

def v2Filesystem (handle : ContainerHandle) (s : Cadvisor.ContainerStats) : FilesystemStats :=
  match s.filesystem with
  | [fs] =>
      { totalUsageBytes := some fs.usage
        baseUsageBytes := some fs.baseUsage
        inodeUsage := some handle.fsUsage.2 }
  | _ => {}

/-- One v2.1 sample; `previous` is the sample in front of it. -/
def v2Sample (handle : ContainerHandle) (spec : ContainerSpec)
    (previous : Option Cadvisor.ContainerStats) (s : Cadvisor.ContainerStats) : ContainerStats :=
  { timestamp := s.timestamp
    cpu := presentIf spec.hasCpu s.cpu
    cpuInst := previous.bind fun last => instCpu last s
    diskIo := presentIf spec.hasDiskIo s.diskIo
    memory := presentIf spec.hasMemory s.memory
    hugetlb := presentIf spec.hasHugetlb s.hugetlb
    network := presentIf spec.hasNetwork (v2Network s.network)
    processes := presentIf spec.hasProcesses s.processes
    filesystem := presentIf spec.hasFilesystem (v2Filesystem handle s)
    load := none
    accelerators := s.accelerators
    customMetrics := s.customMetrics
    perfStats := s.perfStats
    perfUncoreStats := s.perfUncoreStats
    referencedMemory := s.referencedMemory
    resctrl := s.resctrl }

def v2Stats (handle : ContainerHandle) (spec : ContainerSpec) (count : Int) :
    List ContainerStats :=
  let samples := storedSamples handle count
  samples.mapIdx fun i s =>
    v2Sample handle spec (if 0 < i then samples[i - 1]? else none) s

def deprecatedSample (spec : ContainerSpec) (s : ContainerStats) : DeprecatedContainerStats :=
  { timestamp := s.timestamp
    hasCpu := spec.hasCpu
    cpu := s.cpu.getD {}
    cpuInst := s.cpuInst
    hasDiskIo := spec.hasDiskIo
    diskIo := s.diskIo.getD {}
    hasMemory := spec.hasMemory
    memory := s.memory.getD {}
    hasHugetlb := spec.hasHugetlb
    hugetlb := s.hugetlb.getD SortedMap.empty
    hasNetwork := spec.hasNetwork
    network := s.network.getD {}
    hasProcesses := spec.hasProcesses
    processes := s.processes.getD {}
    hasFilesystem := spec.hasFilesystem
    filesystem := []
    hasLoad := false
    load := {}
    hasCustomMetrics := spec.hasCustomMetrics
    customMetrics := s.customMetrics
    perfStats := s.perfStats
    perfUncoreStats := s.perfUncoreStats
    referencedMemory := s.referencedMemory
    resctrl := s.resctrl }

def deprecatedStats (handle : ContainerHandle) (spec : ContainerSpec) (count : Int) :
    List DeprecatedContainerStats :=
  (v2Stats handle spec count).map (deprecatedSample spec)

/-! ## The two generations of a sample -/

/-- The flag tells whether the optional value is there, and a flagged value is the
stored one. -/
def GroupAgrees {α β : Type} (has : Bool) (value : α) (optional : Option β) (stored : α) :
    Prop :=
  (has = true ↔ optional.isSome = true) ∧ (has = true → value = stored)

structure SampleAgrees (stored : Cadvisor.ContainerStats) (old : DeprecatedContainerStats)
    (new : ContainerStats) : Prop where
  timestamp : old.timestamp = stored.timestamp ∧ new.timestamp = stored.timestamp
  cpu : GroupAgrees old.hasCpu old.cpu new.cpu stored.cpu
  diskIo : GroupAgrees old.hasDiskIo old.diskIo new.diskIo stored.diskIo
  memory : GroupAgrees old.hasMemory old.memory new.memory stored.memory
  hugetlb : GroupAgrees old.hasHugetlb old.hugetlb new.hugetlb stored.hugetlb
  network : GroupAgrees old.hasNetwork old.network new.network
    ⟨stored.network.interfaces, stored.network.tcp, stored.network.tcp6, stored.network.udp,
      stored.network.udp6, stored.network.tcpAdvanced⟩
  processes : GroupAgrees old.hasProcesses old.processes new.processes stored.processes
  filesystem : GroupAgrees old.hasFilesystem old.filesystem new.filesystem stored.filesystem

structure GenerationsAgree (handle : ContainerHandle) (spec : ContainerSpec) (count : Int) :
    Prop where
  oldLength : (deprecatedStats handle spec count).length = (storedSamples handle count).length
  newLength : (v2Stats handle spec count).length = (storedSamples handle count).length
  sample : ∀ (i : Nat) (stored : Cadvisor.ContainerStats) (old : DeprecatedContainerStats)
    (new : ContainerStats), (storedSamples handle count)[i]? = some stored →
      (deprecatedStats handle spec count)[i]? = some old →
        (v2Stats handle spec count)[i]? = some new → SampleAgrees stored old new

theorem groupAgrees_copied {α : Type} (has : Bool) (value default : α) :
    GroupAgrees has ((presentIf has value).getD default) (presentIf has value) value := by
  cases has with
  | false => exact ⟨by simp [presentIf], nofun⟩
  | true => exact ⟨by simp [presentIf], fun _ => rfl⟩

theorem groupAgrees_dropped_iff {α β : Type} (has : Bool) (stored : List α) (sums : β) :
    GroupAgrees has [] (presentIf has sums) stored ↔ (has = true → stored = []) := by
  have flag : has = true ↔ (presentIf has sums).isSome = true := by
    cases has <;> simp [presentIf]
  rw [GroupAgrees, and_iff_right flag]
  exact imp_congr_right fun _ => eq_comm

theorem sampleAgrees_iff (handle : ContainerHandle) (spec : ContainerSpec)
    (previous : Option Cadvisor.ContainerStats) (s : Cadvisor.ContainerStats) :
    SampleAgrees s (deprecatedSample spec (v2Sample handle spec previous s))
        (v2Sample handle spec previous s) ↔
      (spec.hasFilesystem = true → s.filesystem = []) := by
  constructor
  · intro agrees
    exact (groupAgrees_dropped_iff _ _ _).mp agrees.filesystem
  · intro noFilesystem
    exact
      { timestamp := ⟨rfl, rfl⟩
        cpu := groupAgrees_copied _ _ _
        diskIo := groupAgrees_copied _ _ _
        memory := groupAgrees_copied _ _ _
        hugetlb := groupAgrees_copied _ _ _
        network := groupAgrees_copied _ (v2Network s.network) _
        processes := groupAgrees_copied _ _ _
        filesystem := (groupAgrees_dropped_iff _ _ _).mpr noFilesystem }

theorem getElem?_v2Stats (handle : ContainerHandle) (spec : ContainerSpec) (count : Int)
    (i : Nat) : ∃ previous, (v2Stats handle spec count)[i]? =
      ((storedSamples handle count)[i]?).map (v2Sample handle spec previous) := by
  refine ⟨if 0 < i then (storedSamples handle count)[i - 1]? else none, ?_⟩
  rw [v2Stats, List.getElem?_mapIdx]

theorem getElem?_deprecatedStats {handle : ContainerHandle} {spec : ContainerSpec} {count : Int}
    {i : Nat} {new : ContainerStats} (newIs : (v2Stats handle spec count)[i]? = some new) :
    (deprecatedStats handle spec count)[i]? = some (deprecatedSample spec new) := by
  rw [deprecatedStats, List.getElem?_map, newIs, Option.map_some]

theorem no_filesystem_of_agree {handle : ContainerHandle} {spec : ContainerSpec} {count : Int}
    (agree : GenerationsAgree handle spec count) (has : spec.hasFilesystem = true) :
    ∀ s ∈ storedSamples handle count, s.filesystem = [] := by
  intro s member
  obtain ⟨i, here⟩ := List.getElem?_of_mem member
  obtain ⟨previous, newIs⟩ := getElem?_v2Stats handle spec count i
  rw [here, Option.map_some] at newIs
  have sampleOk := agree.sample i s _ _ here (getElem?_deprecatedStats newIs) newIs
  exact (sampleAgrees_iff handle spec previous s).mp sampleOk has

theorem generationsAgree_iff (handle : ContainerHandle) (spec : ContainerSpec) (count : Int) :
    GenerationsAgree handle spec count ↔
      (spec.hasFilesystem = true → ∀ s ∈ storedSamples handle count, s.filesystem = []) := by
  constructor
  · exact no_filesystem_of_agree
  · intro noFilesystem
    have newLength : (v2Stats handle spec count).length = (storedSamples handle count).length :=
      List.length_mapIdx
    refine ⟨by rw [deprecatedStats, List.length_map, newLength], newLength,
      fun i s old new here oldIs newIs => ?_⟩
    rw [getElem?_deprecatedStats newIs, Option.some.injEq] at oldIs
    obtain ⟨previous, sampled⟩ := getElem?_v2Stats handle spec count i
    rw [newIs, here, Option.map_some, Option.some.injEq] at sampled
    subst oldIs sampled
    exact (sampleAgrees_iff handle spec previous s).mpr fun has =>
      noFilesystem has s (List.mem_of_getElem? here)

def rootWithDisk : ContainerHandle :=
  { name := "/"
    reference := { name := "/" }
    spec := { hasFilesystem := true }
    store :=
      { buf := [{ timestamp := GoTime.sinceEpoch 1
                  filesystem := [{ device := "/dev/sda1", fsType := "vfs", limit := 4096 }] }]
        maxAge := ⟨120 * 1000000000, by decide⟩ }
    initPid := some 1
    reportsNetwork := true
    rootfsDiff := none
    fsUsage := (0, 0) }

theorem root_filesystem_lost : ¬ GenerationsAgree rootWithDisk rootWithDisk.spec 64 := by
  intro agree
  have empty := no_filesystem_of_agree agree rfl _ (List.mem_singleton_self _)
  cases empty

end V2

end Cadvisor
