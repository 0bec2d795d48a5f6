import Cadvisor.Host.Cgroup
import Cadvisor.Manager.Events
import Cadvisor.Manager.Store
import Cadvisor.Model.Machine

/-!
# The registered containers

A registry holds one handle per container name.  `add_container` and
`remove_container` change it and record what they did.
-/

set_option autoImplicit false

namespace Cadvisor

/-- What a container runtime knows about one of its containers. -/
structure ContainerMeta where
  id : String
  «namespace» : String
  aliases : List String
  image : String
  labels : SortedMap String String
  initPid : Option UInt32
  reportsNetwork : Bool
  rootfsDiff : Option String
  env : List String

/-- Keeps each `KEY=value` whose key starts with a non-empty whitelist entry. -/
def whitelistedEnv (env whitelist : List String) : SortedMap String String :=
  SortedMap.ofList ((whitelist.filter (· ≠ "")).flatMap fun pre =>
    env.filterMap fun var =>
      match Str.splitOnce var '=' with
      | none => none
      | some (k, v) => if Str.startsWith k pre then some (k, v) else none)

structure ContainerHandle where
  name : String
  reference : ContainerReference
  spec : ContainerSpec
  store : TimedStore
  initPid : Option UInt32
  reportsNetwork : Bool
  rootfsDiff : Option String
  fsUsage : UInt64 × UInt64

/-- The handles by name, in no particular order. -/
structure Registry where
  handles : List ContainerHandle
  nodup : (handles.map ContainerHandle.name).Nodup

namespace Registry

def names (r : Registry) : List String := r.handles.map ContainerHandle.name

def get? (r : Registry) (name : String) : Option ContainerHandle :=
  r.handles.find? fun h => h.name == name

def insertNew (r : Registry) (h : ContainerHandle) : Option Registry :=
  if absent : h.name ∉ r.names then
    some ⟨h :: r.handles, List.nodup_cons.mpr ⟨absent, r.nodup⟩⟩
  else none

def remove (r : Registry) (name : String) : Registry :=
  ⟨r.handles.filter fun h => h.name ≠ name, r.nodup.sublist (List.filter_sublist.map _)⟩

theorem insertNew_fresh (r : Registry) {h : ContainerHandle} (absent : h.name ∉ r.names) :
    ∃ next, r.insertNew h = some next ∧ next.handles = h :: r.handles := by
  unfold insertNew
  rw [dif_pos absent]
  exact ⟨_, rfl, rfl⟩

theorem insertNew_eq_some {r next : Registry} {h : ContainerHandle}
    (inserted : r.insertNew h = some next) :
    h.name ∉ r.names ∧ next.names = h.name :: r.names := by
  unfold insertNew at inserted
  split_ifs at inserted with absent
  cases inserted
  exact ⟨absent, rfl⟩

theorem get?_isSome (r : Registry) (name : String) :
    (r.get? name).isSome = true ↔ name ∈ r.names := by
  rw [get?, List.find?_isSome, names, List.mem_map]
  simp only [beq_iff_eq]

theorem mem_names_remove (r : Registry) (name other : String) :
    other ∈ (r.remove name).names ↔ other ∈ r.names ∧ other ≠ name := by
  simp only [names, remove, List.mem_map, List.mem_filter, decide_eq_true_eq]
  constructor
  · intro removed
    obtain ⟨h, ⟨member, kept⟩, same⟩ := removed
    exact ⟨⟨h, member, same⟩, same ▸ kept⟩
  · intro kept
    obtain ⟨⟨h, member, same⟩, different⟩ := kept
    exact ⟨h, ⟨member, same ▸ different⟩, same⟩

theorem get?_remove (r : Registry) {name other : String} (different : other ≠ name) :
    (r.remove name).get? other = r.get? other := by
  have kept : ∀ handles : List ContainerHandle,
      (handles.filter fun h => h.name ≠ name).find? (fun h => h.name == other) =
        handles.find? fun h => h.name == other := by
    intro handles
    induction handles with
    | nil => rfl
    | cons h rest ih =>
        by_cases here : h.name = name
        · have skipped : (h.name == other) = false := by simpa [here] using Ne.symm different
          rw [List.filter_cons_of_neg (by simpa using here), List.find?_cons, skipped]
          exact ih
        · rw [List.filter_cons_of_pos (by simpa using here), List.find?_cons, List.find?_cons, ih]
  exact kept r.handles

end Registry

structure ManagerConfig where
  storageDuration : StdDuration
  envMetadataWhitelist : List String

/-- The parts of the manager that discovery reads and writes. -/
structure Manager where
  cfg : ManagerConfig
  containers : Registry
  machineInfo : MachineInfo
  events : EventStore

namespace Manager

def recordEvent (m : Manager) (name : String) (eventType : EventType) (timestamp : GoTime) :
    Option Manager :=
  match m.events.recordEvent name eventType timestamp with
  | none => none
  | some events => some { m with events }

/-- The spec of a cgroup; the root takes its limits from the machine. -/
def buildSpec (m : Manager) (access : CgroupReader.SpecAccess) (name : String) :
    Except HostError ContainerSpec :=
  match CgroupReader.readSpec access name with
  | .error e => .error e
  | .ok cg =>
      let spec : ContainerSpec :=
        { creationTime := cg.creationTime.getD GoTime.zero
          hasCpu := cg.hasCpu
          hasMemory := cg.hasMemory
          hasProcesses := cg.hasProcesses
          hasDiskIo := cg.hasDiskIo
          cpu :=
            { limit := cg.cpuShares
              mask := cg.cpuMask
              period := cg.cpuPeriod
              quota := cg.cpuQuota.getD 0 }
          memory :=
            { limit := cg.memoryLimit
              swapLimit := cg.swapLimit
              reservation := cg.memoryReservation }
          processes := { limit := cg.pidsLimit } }
      if name = "/" then
        .ok
          { spec with
            hasCpu := true
            cpu := { spec.cpu with period := 0 }
            hasMemory := true
            memory :=
              { spec.memory with
                limit := m.machineInfo.memoryCapacity
                swapLimit := m.machineInfo.swapCapacity }
            hasProcesses := true
            hasDiskIo := true
            hasFilesystem := true
            hasNetwork := ¬ m.machineInfo.networkDevices.isEmpty }
      else .ok spec

/-- The handle of a new container, enriched by its runtime if it has one. -/
def newHandle (m : Manager) (name : String) (spec : ContainerSpec) (known : Option ContainerMeta) :
    ContainerHandle :=
  match known with
  | none =>
      { name
        reference := { name }
        spec
        store := TimedStore.new m.cfg.storageDuration
        initPid := if name = "/" then some 1 else none
        reportsNetwork := name = "/"
        rootfsDiff := none
        fsUsage := (0, 0) }
  | some found =>
      { name
        reference := { id := found.id, name, aliases := found.aliases, «namespace» := found.namespace }
        spec :=
          { spec with
            image := found.image
            labels := found.labels
            envs := whitelistedEnv found.env m.cfg.envMetadataWhitelist
            hasNetwork := found.reportsNetwork
            hasFilesystem := found.rootfsDiff.isSome }
        store := TimedStore.new m.cfg.storageDuration
        initPid := found.initPid
        reportsNetwork := found.reportsNetwork
        rootfsDiff := found.rootfsDiff
        fsUsage := (0, 0) }

/-- `runtimeMeta` is what the runtimes answer for the last component of the
name; `none` is the panic of `record_event`. -/
def addContainer (runtimeMeta : String → String → Option ContainerMeta)
    (access : CgroupReader.SpecAccess) (m : Manager) (name : String) (recordCreation : Bool) :
    Option Manager :=
  let basename := ((Str.split name '/').getLast?).getD name
  if Str.endsWith name ".mount" then some m
  else if name ∈ m.containers.names then some m
  else
    match m.buildSpec access name with
    | .error _ => some m
    | .ok spec =>
        let handle := m.newHandle name spec (runtimeMeta name basename)
        match m.containers.insertNew handle with
        | none => some m
        | some containers =>
            let m := { m with containers }
            if recordCreation then
              m.recordEvent name .containerCreation handle.spec.creationTime
            else some m

def removeContainer (m : Manager) (name : String) (now : GoTime) : Option Manager :=
  match m.containers.get? name with
  | none => some m
  | some _ =>
      let m := { m with containers := m.containers.remove name }
      m.recordEvent name .containerDeletion now

/-! ## What one call does -/

/-- The history is one that a run of `record_event` calls left. -/
def Recorded (m : Manager) : Prop := ∃ calls, EventStore.new.recordAll calls = some m.events

theorem recordEvent_recorded {m : Manager} (recorded : m.Recorded) (name : String)
    (eventType : EventType) (timestamp : GoTime) (fits : timestamp.Representable day) :
    ∃ next, m.recordEvent name eventType timestamp = some next ∧ next.Recorded ∧
      next.containers = m.containers ∧
      next.events.sent = m.events.sent ++ [⟨name, timestamp, eventType, {}⟩] := by
  obtain ⟨calls, run⟩ := recorded
  have inv := EventStore.retains_of_recordAll run
  have headFits : ∀ c ∈ (calls ++ [(⟨name, eventType, timestamp⟩ : RecordCall)]).head?,
      c.timestamp.Representable day := by
    intro c head
    cases calls with
    | nil =>
        cases head
        exact fits
    | cons first rest => exact EventStore.representable_of_recordAll run c head
  obtain ⟨events, stepIs, nextInv⟩ :=
    EventStore.retains_recordEvent inv ⟨name, eventType, timestamp⟩ headFits
  refine ⟨{ m with events }, ?_, ⟨calls ++ [⟨name, eventType, timestamp⟩], ?_⟩, rfl, ?_⟩
  · simp only [recordEvent, stepIs]
  · unfold EventStore.recordAll at run ⊢
    rw [List.foldlM_append, run]
    simp [stepIs]
  · have sentNext := nextInv.1
    have sentNow := inv.1
    rw [List.map_append, ← sentNow] at sentNext
    exact sentNext

theorem buildSpec_ok (m : Manager) (access : CgroupReader.SpecAccess) (name : String)
    {modified : Option GoTime} (found : access.metadata = .ok modified)
    (readable : ∀ file, access.files file ≠ .failed) :
    ∃ spec, m.buildSpec access name = .ok spec ∧ spec.creationTime = modified.getD GoTime.zero := by
  obtain ⟨cg, read, time⟩ := CgroupReader.readSpec_ok access name found readable
  simp only [buildSpec, read]
  split
  · exact ⟨_, rfl, by rw [← time]⟩
  · exact ⟨_, rfl, by rw [← time]⟩

theorem newHandle_name (m : Manager) (name : String) (spec : ContainerSpec)
    (known : Option ContainerMeta) : (m.newHandle name spec known).name = name := by
  cases known <;> rfl

theorem newHandle_creationTime (m : Manager) (name : String) (spec : ContainerSpec)
    (known : Option ContainerMeta) :
    (m.newHandle name spec known).spec.creationTime = spec.creationTime := by
  cases known <;> rfl

theorem addContainer_mount (runtimeMeta : String → String → Option ContainerMeta)
    (access : CgroupReader.SpecAccess) (m : Manager) {name : String} (recordCreation : Bool)
    (mount : Str.endsWith name ".mount" = true) :
    m.addContainer runtimeMeta access name recordCreation = some m := by
  simp [addContainer, mount]

theorem addContainer_new (runtimeMeta : String → String → Option ContainerMeta)
    (access : CgroupReader.SpecAccess) {m : Manager} (recorded : m.Recorded) {name : String}
    (notMount : Str.endsWith name ".mount" = false) (absent : name ∉ m.containers.names)
    {modified : Option GoTime} (found : access.metadata = .ok modified)
    (readable : ∀ file, access.files file ≠ .failed)
    (fits : (modified.getD GoTime.zero).Representable day) :
    ∃ next, m.addContainer runtimeMeta access name true = some next ∧ next.Recorded ∧
      next.containers.names = name :: m.containers.names ∧
      (∀ other ≠ name, next.containers.get? other = m.containers.get? other) ∧
      next.events.sent = m.events.sent ++
        [⟨name, modified.getD GoTime.zero, .containerCreation, {}⟩] := by
  obtain ⟨spec, read, time⟩ := m.buildSpec_ok access name found readable
  generalize handleIs : m.newHandle name spec
    (runtimeMeta name (((Str.split name '/').getLast?).getD name)) = handle
  have handleName : handle.name = name := by
    rw [← handleIs]
    exact m.newHandle_name ..
  have handleTime : handle.spec.creationTime = modified.getD GoTime.zero := by
    rw [← handleIs, newHandle_creationTime, time]
  obtain ⟨containers, inserted, handlesAre⟩ :=
    m.containers.insertNew_fresh (h := handle) (handleName ▸ absent)
  obtain ⟨next, event, nextRecorded, containersKept, sentAre⟩ :=
    recordEvent_recorded (m := { m with containers }) recorded name .containerCreation
      (modified.getD GoTime.zero) fits
  refine ⟨next, ?_, nextRecorded, ?_, ?_, sentAre⟩
  · simp only [addContainer, notMount, absent, read, handleIs, inserted, handleTime, event,
      if_true, if_false, Bool.false_eq_true]
  · rw [containersKept, Registry.names, handlesAre, List.map_cons, handleName]
    rfl
  · intro other different
    rw [containersKept]
    simp only [Registry.get?, handlesAre]
    rw [List.find?_cons_of_neg]
    simpa [handleName] using Ne.symm different

theorem removeContainer_known {m : Manager} (recorded : m.Recorded) {name : String}
    (known : name ∈ m.containers.names) (now : GoTime) (fits : now.Representable day) :
    ∃ next, m.removeContainer name now = some next ∧ next.Recorded ∧
      next.containers = m.containers.remove name ∧
      next.events.sent = m.events.sent ++ [⟨name, now, .containerDeletion, {}⟩] := by
  obtain ⟨next, event, nextRecorded, containersKept, sentAre⟩ :=
    recordEvent_recorded (m := { m with containers := m.containers.remove name }) recorded name
      .containerDeletion now fits
  have present := (m.containers.get?_isSome name).mpr known
  obtain ⟨handle, found⟩ := Option.isSome_iff_exists.mp present
  refine ⟨next, ?_, nextRecorded, containersKept, sentAre⟩
  simp only [removeContainer, found, event]

end Manager

end Cadvisor
