import Cadvisor.Manager.Containers

/-!
# The global sweep

One pass walks the tree, adds every cgroup that was not registered when the walk
ended, and removes every registered one that is neither in the walk nor in the
file system any more.  On a tree that stays as it is, one pass makes the registry
agree with the tree, whatever it held before.
-/

set_option autoImplicit false

namespace Cadvisor

namespace CgroupFs

/-- `walk_tree`; the fuel is one round for each directory. -/
def walkTree (fs : CgroupFs) : Option (List String) :=
  TreeWalk.run fs.listChildren fs.dirs.length (TreeWalk.start "/")

theorem walkTree_complete (fs : CgroupFs) :
    ∃ current, fs.walkTree = some current ∧ current.Nodup ∧
      ∀ name, name ∈ current ↔ name ∈ fs.names := by
  apply TreeWalk.run_start fs.isTree
  rw [names, List.length_map]

def creationTime (fs : CgroupFs) (name : String) : GoTime :=
  match resolve name with
  | none => GoTime.zero
  | some path => (fs.dir path).modified.getD GoTime.zero

/-- Every file is there to be read or absent, every directory has a time that
`record_event` can age. -/
structure Readable (fs : CgroupFs) : Prop where
  files : ∀ path ∈ fs.dirs, ∀ file, (fs.dir path).file file ≠ .failed
  times : ∀ path ∈ fs.dirs, ((fs.dir path).modified.getD GoTime.zero).Representable day

end CgroupFs

namespace Manager

def sweepAdd (runtimeMeta : String → String → Option ContainerMeta) (fs : CgroupFs)
    (known : List String) (m : Manager) (name : String) : Option Manager :=
  if name ∈ known then some m
  else m.addContainer runtimeMeta (fs.specAccess name) name true

def gone (fs : CgroupFs) (current : List String) (name : String) : Bool :=
  name ≠ "/" ∧ name ∉ current ∧ ¬ fs.exists name

def sweepRemove (fs : CgroupFs) (now : String → GoTime) (current : List String)
    (m : Manager) (name : String) : Option Manager :=
  if gone fs current name then m.removeContainer name (now name) else some m

/-- One pass while the tree stays as it is; `now` is the clock at each removal. -/
def sweep (runtimeMeta : String → String → Option ContainerMeta) (fs : CgroupFs)
    (now : String → GoTime) (m : Manager) : Option Manager :=
  match fs.walkTree with
  | none => some m
  | some current =>
      let known := m.containers.names
      match current.foldlM (sweepAdd runtimeMeta fs known) m with
      | none => none
      | some m => known.foldlM (sweepRemove fs now current) m

def fresh (known : List String) (name : String) : Bool :=
  name ∉ known ∧ ¬ Str.endsWith name ".mount"

theorem sweepAdd_fresh (runtimeMeta : String → String → Option ContainerMeta) {fs : CgroupFs}
    (readable : fs.Readable) {known : List String} {m : Manager} (recorded : m.Recorded)
    {name : String} (inTree : name ∈ fs.names) (isFresh : fresh known name = true)
    (absent : name ∉ m.containers.names) :
    ∃ next, sweepAdd runtimeMeta fs known m name = some next ∧ next.Recorded ∧
      next.containers.names = name :: m.containers.names ∧
      (∀ other ≠ name, next.containers.get? other = m.containers.get? other) ∧
      next.events.sent = m.events.sent ++
        [⟨name, fs.creationTime name, .containerCreation, {}⟩] := by
  obtain ⟨path, inDirs, rfl⟩ := List.mem_map.mp inTree
  have resolved := resolve_cgroupName path (fs.named path inDirs)
  have accesses : fs.specAccess (cgroupName path) =
      ⟨.ok (fs.dir path).modified, (fs.dir path).file "memory.max" ≠ .notFound,
        (fs.dir path).file⟩ := by
    simp only [CgroupFs.specAccess, resolved, inDirs, if_true]
  simp only [fresh, Bool.decide_and, Bool.and_eq_true, decide_eq_true_eq,
    Bool.not_eq_true] at isFresh
  have time : fs.creationTime (cgroupName path) = (fs.dir path).modified.getD GoTime.zero := by
    simp only [CgroupFs.creationTime, resolved]
  rw [sweepAdd, if_neg isFresh.1, accesses, time]
  exact addContainer_new runtimeMeta _ recorded isFresh.2 absent rfl
    (readable.files path inDirs) (readable.times path inDirs)

theorem sweepAdds (runtimeMeta : String → String → Option ContainerMeta) {fs : CgroupFs}
    (readable : fs.Readable) (known : List String) :
    ∀ (current : List String) (m : Manager), current.Nodup → (∀ name ∈ current, name ∈ fs.names) →
      m.Recorded → (∀ name ∈ current, name ∉ known → name ∉ m.containers.names) →
      ∃ next, current.foldlM (sweepAdd runtimeMeta fs known) m = some next ∧ next.Recorded ∧
        (∀ name, name ∈ next.containers.names ↔
          name ∈ m.containers.names ∨ name ∈ current.filter (fresh known)) ∧
        (∀ name ∉ current.filter (fresh known),
          next.containers.get? name = m.containers.get? name) ∧
        next.events.sent = m.events.sent ++ (current.filter (fresh known)).map
          fun name => ⟨name, fs.creationTime name, .containerCreation, {}⟩ := by
  intro current
  induction current with
  | nil =>
      intro m _ _ recorded _
      exact ⟨m, rfl, recorded, by simp, by simp, by simp⟩
  | cons name rest ih =>
      intro m nodup inTree recorded absent
      obtain ⟨notLater, restNodup⟩ := List.nodup_cons.mp nodup
      have restInTree : ∀ n ∈ rest, n ∈ fs.names := fun n member =>
        inTree n (List.mem_cons_of_mem _ member)
      by_cases isFresh : fresh known name = true
      · have notKnown : name ∉ known := by
          have both := of_decide_eq_true isFresh
          exact both.1
        obtain ⟨mid, added, midRecorded, midNames, midKept, midSent⟩ :=
          sweepAdd_fresh runtimeMeta readable recorded (inTree name (List.mem_cons_self ..)) isFresh
            (absent name (List.mem_cons_self ..) notKnown)
        have restAbsent : ∀ n ∈ rest, n ∉ known → n ∉ mid.containers.names := by
          intro n member unknown
          rw [midNames, List.mem_cons]
          intro present
          rcases present with isName | wasThere
          · exact notLater (isName ▸ member)
          · exact absent n (List.mem_cons_of_mem _ member) unknown wasThere
        obtain ⟨next, run, nextRecorded, nextNames, nextKept, nextSent⟩ :=
          ih mid restNodup restInTree midRecorded restAbsent
        refine ⟨next, ?_, nextRecorded, ?_, ?_, ?_⟩
        · rw [List.foldlM_cons, added]
          exact run
        · intro n
          rw [nextNames, midNames, List.filter_cons_of_pos isFresh, List.mem_cons, List.mem_cons]
          tauto
        · intro n notAdded
          rw [List.filter_cons_of_pos isFresh, List.mem_cons, not_or] at notAdded
          rw [nextKept n notAdded.2, midKept n notAdded.1]
        · rw [nextSent, midSent, List.filter_cons_of_pos isFresh, List.map_cons,
            List.append_assoc, List.singleton_append]
      · have skipped : sweepAdd runtimeMeta fs known m name = some m := by
          unfold sweepAdd
          by_cases isKnown : name ∈ known
          · rw [if_pos isKnown]
          · rw [if_neg isKnown]
            apply addContainer_mount
            simpa [fresh, isKnown] using isFresh
        obtain ⟨next, run, rest'⟩ := ih m restNodup restInTree recorded fun n member =>
          absent n (List.mem_cons_of_mem _ member)
        rw [List.filter_cons_of_neg isFresh]
        refine ⟨next, ?_, rest'⟩
        rw [List.foldlM_cons, skipped]
        exact run

theorem sweepRemoves (fs : CgroupFs) (now : String → GoTime)
    (clock : ∀ name, (now name).Representable day) (current : List String) :
    ∀ (known : List String) (m : Manager), known.Nodup → m.Recorded →
      (∀ name ∈ known, name ∈ m.containers.names) →
      ∃ next, known.foldlM (sweepRemove fs now current) m = some next ∧ next.Recorded ∧
        (∀ name, name ∈ next.containers.names ↔
          name ∈ m.containers.names ∧ name ∉ known.filter (gone fs current)) ∧
        (∀ name ∉ known.filter (gone fs current),
          next.containers.get? name = m.containers.get? name) ∧
        next.events.sent = m.events.sent ++ (known.filter (gone fs current)).map
          fun name => ⟨name, now name, .containerDeletion, {}⟩ := by
  intro known
  induction known with
  | nil =>
      intro m _ recorded _
      exact ⟨m, rfl, recorded, by simp, by simp, by simp⟩
  | cons name rest ih =>
      intro m nodup recorded registered
      obtain ⟨notLater, restNodup⟩ := List.nodup_cons.mp nodup
      by_cases isGone : gone fs current name = true
      · obtain ⟨mid, removed, midRecorded, midContainers, midSent⟩ :=
          removeContainer_known recorded (registered name (List.mem_cons_self ..)) (now name)
            (clock name)
        have restRegistered : ∀ n ∈ rest, n ∈ mid.containers.names := by
          intro n member
          rw [midContainers, Registry.mem_names_remove]
          exact ⟨registered n (List.mem_cons_of_mem _ member), fun same => notLater (same ▸ member)⟩
        obtain ⟨next, run, nextRecorded, nextNames, nextKept, nextSent⟩ :=
          ih mid restNodup midRecorded restRegistered
        refine ⟨next, ?_, nextRecorded, ?_, ?_, ?_⟩
        · rw [List.foldlM_cons, sweepRemove, if_pos isGone, removed]
          exact run
        · intro n
          rw [nextNames, midContainers, Registry.mem_names_remove, List.filter_cons_of_pos isGone,
            List.mem_cons, not_or, and_assoc]
        · intro n kept
          rw [List.filter_cons_of_pos isGone, List.mem_cons, not_or] at kept
          rw [nextKept n kept.2, midContainers, Registry.get?_remove _ kept.1]
        · rw [nextSent, midSent, List.filter_cons_of_pos isGone, List.map_cons, List.append_assoc,
            List.singleton_append]
      · obtain ⟨next, run, rest'⟩ := ih m restNodup recorded fun n member =>
          registered n (List.mem_cons_of_mem _ member)
        rw [List.filter_cons_of_neg isGone]
        refine ⟨next, ?_, rest'⟩
        rw [List.foldlM_cons, sweepRemove, if_neg isGone]
        exact run

/-- The names a tree asks for: the root and all that are no mount units. -/
def Wanted (fs : CgroupFs) (name : String) : Prop :=
  name = "/" ∨ (name ∈ fs.names ∧ Str.endsWith name ".mount" = false)

theorem Wanted.inTree {fs : CgroupFs} {name : String} (wanted : Wanted fs name) :
    name ∈ fs.names := by
  rcases wanted with rfl | both
  · exact List.mem_map.mpr ⟨[], fs.rootIn, rfl⟩
  · exact both.1

theorem foldlM_idle {α σ : Type} {f : σ → α → Option σ} {state : σ} {xs : List α}
    (each : ∀ x ∈ xs, f state x = some state) : xs.foldlM f state = some state := by
  induction xs with
  | nil => rfl
  | cons x rest ih =>
      rw [List.foldlM_cons, each x (List.mem_cons_self ..)]
      exact ih fun y member => each y (List.mem_cons_of_mem _ member)

theorem sweep_settled (runtimeMeta : String → String → Option ContainerMeta) (fs : CgroupFs)
    (now : String → GoTime) (m : Manager)
    (settled : ∀ name, name ∈ m.containers.names ↔ Wanted fs name) :
    m.sweep runtimeMeta fs now = some m := by
  obtain ⟨current, walked, _, inCurrent⟩ := fs.walkTree_complete
  have adds : current.foldlM (sweepAdd runtimeMeta fs m.containers.names) m = some m := by
    have each : ∀ name ∈ current, sweepAdd runtimeMeta fs m.containers.names m name = some m := by
      intro name member
      unfold sweepAdd
      by_cases isKnown : name ∈ m.containers.names
      · rw [if_pos isKnown]
      · rw [if_neg isKnown]
        apply addContainer_mount
        by_contra notMount
        exact isKnown ((settled name).mpr
            (Or.inr ⟨(inCurrent name).mp member, by simpa using notMount⟩))
    exact foldlM_idle each
  have removes : m.containers.names.foldlM (sweepRemove fs now current) m = some m := by
    have each : ∀ name ∈ m.containers.names, sweepRemove fs now current m name = some m := by
      intro name member
      have listed := (inCurrent name).mpr ((settled name).mp member).inTree
      simp [sweepRemove, gone, listed]
    exact foldlM_idle each
  simp only [sweep, walked, adds, removes]

theorem mem_filter_gone {fs : CgroupFs} {current known : List String}
    (inCurrent : ∀ name, name ∈ current ↔ name ∈ fs.names)
    (canonical : ∀ name ∈ known, Canonical name) (name : String) :
    name ∈ known.filter (gone fs current) ↔ name ∈ known ∧ name ∉ fs.names := by
  rw [List.mem_filter]
  refine and_congr_right fun member => ?_
  have existing := fs.mem_names_iff_exists (canonical name member)
  have rootThere : "/" ∈ fs.names := List.mem_map.mpr ⟨[], fs.rootIn, rfl⟩
  constructor
  · intro isGone inTree
    have parts : name ≠ "/" ∧ name ∉ current ∧ ¬ fs.exists name = true := of_decide_eq_true isGone
    exact parts.2.1 ((inCurrent name).mpr inTree)
  · intro missing
    apply decide_eq_true
    refine ⟨fun isRoot => missing (isRoot ▸ rootThere), ?_, ?_⟩
    · exact fun listed => missing ((inCurrent name).mp listed)
    · exact fun present => missing (existing.mpr present)

/-- Whatever events were lost before: one pass over a tree that stays as it is
leaves the registry with exactly the names the tree asks for, records one event
for each name it adds or removes, keeps every other handle, and leaves nothing
for a second pass. -/
theorem sweep_closed_form (runtimeMeta : String → String → Option ContainerMeta) (fs : CgroupFs)
    (readable : fs.Readable) (now : String → GoTime)
    (clock : ∀ name, (now name).Representable day) (m : Manager) (recorded : m.Recorded)
    (rootKnown : "/" ∈ m.containers.names)
    (canonical : ∀ name ∈ m.containers.names, Canonical name)
    (noMount : ∀ name ∈ m.containers.names, Str.endsWith name ".mount" = false) :
    ∃ (after : Manager) (added removed : List String), m.sweep runtimeMeta fs now = some after ∧
      (∀ name, name ∈ after.containers.names ↔ Wanted fs name) ∧
      after.events.sent = m.events.sent ++
        added.map (fun name => ⟨name, fs.creationTime name, .containerCreation, {}⟩) ++
        removed.map (fun name => ⟨name, now name, .containerDeletion, {}⟩) ∧
      added.Nodup ∧
      (∀ name, name ∈ added ↔ name ∈ after.containers.names ∧ name ∉ m.containers.names) ∧
      removed.Nodup ∧
      (∀ name, name ∈ removed ↔ name ∈ m.containers.names ∧ name ∉ after.containers.names) ∧
      (∀ name, name ∈ m.containers.names → name ∈ after.containers.names →
        after.containers.get? name = m.containers.get? name) ∧
      ∀ otherMeta otherNow, after.sweep otherMeta fs otherNow = some after := by
  obtain ⟨current, walked, currentNodup, inCurrent⟩ := fs.walkTree_complete
  generalize knownIs : m.containers.names = known
  have knownNodup : known.Nodup := knownIs ▸ m.containers.nodup
  obtain ⟨mid, adds, midRecorded, midNames, midKept, midSent⟩ :=
    sweepAdds runtimeMeta readable known current m currentNodup
      (fun name member => (inCurrent name).mp member) recorded
      (fun name _ unknown => knownIs ▸ unknown)
  obtain ⟨after, removes, _, afterNames, afterKept, afterSent⟩ :=
    sweepRemoves fs now clock current known mid knownNodup midRecorded
      (fun name member => (midNames name).mpr (Or.inl (knownIs ▸ member)))
  rw [knownIs] at midNames rootKnown canonical noMount
  have swept : m.sweep runtimeMeta fs now = some after := by
    simp only [sweep, walked, knownIs, adds, removes]
  have mem_fresh : ∀ name, name ∈ current.filter (fresh known) ↔
      name ∈ fs.names ∧ name ∉ known ∧ Str.endsWith name ".mount" = false := by
    intro name
    simp [fresh, inCurrent]
  have mem_gone := mem_filter_gone inCurrent canonical
  have settled : ∀ name, name ∈ after.containers.names ↔ Wanted fs name := by
    intro name
    rw [afterNames, midNames, mem_fresh, mem_gone, Wanted]
    constructor
    · intro kept
      obtain ⟨isKnown | isAdded, notGone⟩ := kept
      · refine Or.inr ⟨?_, noMount name isKnown⟩
        by_contra missing
        exact notGone ⟨isKnown, missing⟩
      · exact Or.inr ⟨isAdded.1, isAdded.2.2⟩
    · intro wanted
      have inTree := Wanted.inTree wanted
      refine ⟨?_, fun both => both.2 inTree⟩
      rcases wanted with rfl | both
      · exact Or.inl rootKnown
      · by_cases isKnown : name ∈ known
        · exact Or.inl isKnown
        · exact Or.inr ⟨both.1, isKnown, both.2⟩
  refine ⟨after, current.filter (fresh known), known.filter (gone fs current), swept, settled, ?_,
    currentNodup.filter _, ?_, knownNodup.filter _, ?_, ?_, ?_⟩
  · rw [afterSent, midSent]
  · intro name
    rw [afterNames, midNames, mem_gone, mem_fresh]
    tauto
  · intro name
    rw [afterNames, midNames, mem_gone, mem_fresh]
    tauto
  · intro name wasKnown isThere
    have notGone := ((afterNames name).mp isThere).2
    have notFresh : name ∉ current.filter (fresh known) := fun member =>
      ((mem_fresh name).mp member).2.1 wasKnown
    rw [afterKept name notGone, midKept name notFresh]
  · intro otherMeta otherNow
    exact sweep_settled otherMeta fs otherNow after settled

end Manager

def smallTree : CgroupFs where
  dirs := [[], ["a.service"], ["b.mount"]]
  nodup := by decide
  rootIn := by decide
  closed := by
    intro path name member
    have short : ∀ dir ∈ [[], ["a.service"], ["b.mount"]], dir.length ≤ 1 := by decide
    have length := short _ member
    have top : path = [] := by
      rw [← List.length_eq_zero_iff]
      simpa using length
    rw [top]
    exact List.mem_cons_self ..
  named := by decide
  dir := fun _ => ⟨some (.sinceEpoch 0), fun _ => .notFound⟩

/-- The registry of a manager that has missed one removal and one creation. -/
def staleManager : Manager where
  cfg := ⟨.zero, []⟩
  containers :=
    ⟨["/", "/gone.service"].map fun name =>
      { name, reference := {}, spec := {}, store := TimedStore.new .zero,
        initPid := none, reportsNetwork := false, rootfsDiff := none, fsUsage := (0, 0) },
      by decide⟩
  machineInfo := {}
  events := EventStore.new

namespace Manager

theorem sweep_catches_up :
    ∃ after : Manager, staleManager.sweep (fun _ _ => none) smallTree
        (fun _ => .sinceEpoch 1000) = some after ∧
      ∀ name, name ∈ after.containers.names ↔ Wanted smallTree name := by
  have epochFits : (GoTime.sinceEpoch 0).Representable day := by decide
  have readable : smallTree.Readable := ⟨fun _ _ _ => nofun, fun _ _ => epochFits⟩
  have canonical : ∀ name ∈ staleManager.containers.names, Canonical name := by
    intro name member
    rcases List.mem_cons.mp member with rfl | second
    · exact ⟨[], by decide, rfl⟩
    · rw [List.mem_singleton.mp second]
      exact ⟨["gone.service"], by decide, rfl⟩
  obtain ⟨after, _, _, swept, names, _⟩ := sweep_closed_form (fun _ _ => none) smallTree readable
    (fun _ => .sinceEpoch 1000) (fun _ => by decide) staleManager ⟨[], rfl⟩ (by decide) canonical
    (by decide)
  exact ⟨after, swept, names⟩

end Manager

end Cadvisor
