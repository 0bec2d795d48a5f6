import Cadvisor.Api.V2
import Cadvisor.Manager.Lifecycle
import Cadvisor.Runtime.Clients

/-!
# Containers by their runtime's names

A handle is enriched once, before it is registered, by what the runtime of its cgroup
knows of the id in its name.  The `docker` endpoints look for what was found then.
-/

set_option autoImplicit false

namespace Cadvisor

namespace Manager

/-- `docker_containers`; the map has no order. -/
def dockerContainers (m : Manager) (idOrName : String) (req : ContainerInfoRequest) :
    Except ManagerError (List (String × ContainerInfo)) :=
  let matched := m.handles.filter fun h =>
    h.reference.namespace ≠ "" &&
      (idOrName = "" || Str.startsWith h.reference.id idOrName ||
        h.reference.aliases.any (· == idOrName))
  if matched = [] ∧ idOrName ≠ "" then .error (.unknownContainer idOrName)
  else .ok (matched.map fun h => (h.name, m.assembleInfo h req false))

/-- `handle_v1` on `docker`. -/
def dockerRequest (m : Manager) (containerName : String) (req : ContainerInfoRequest) :
    Except ManagerError (List (String × ContainerInfo)) :=
  m.dockerContainers (Str.trimStartMatches containerName '/') req

end Manager

def basenameOf (name : String) : String := ((Str.split name '/').getLast?).getD name

/-- What the runtime of the cgroup said of the id in its name. -/
structure Enriched (h : ContainerHandle) : Prop where
  identifies : Runtimes.Identifies (basenameOf h.name) h.reference.id
  «namespace» : h.reference.namespace = Runtimes.namespaceOf (basenameOf h.name)
  aliased : h.reference.id ∈ h.reference.aliases
  overlay : h.rootfsDiff.isSome = true → h.reference.namespace = "crio"

/-- A handle under its own name, as a bare cgroup or enriched. -/
def Identified (h : ContainerHandle) : Prop :=
  h.reference.name = h.name ∧ (h.reference = { name := h.name } ∨ Enriched h)

/-- The answers are those of some runtimes, whatever they do. -/
def Answers.FromRuntimes (answers : Answers) : Prop :=
  ∃ env : Runtimes, ∀ name basename,
    (env.runtimeMeta basename).map Prod.snd = some (answers.runtimeMeta name basename)

theorem newHandle_identified {answers : Answers} (runtimes : answers.FromRuntimes) (m : Manager)
    (name : String) (spec : ContainerSpec) :
    Identified (m.newHandle name spec (answers.runtimeMeta name (basenameOf name))) := by
  obtain ⟨env, known⟩ := runtimes
  cases isMeta : answers.runtimeMeta name (basenameOf name) with
  | none => exact ⟨rfl, Or.inl rfl⟩
  | some found =>
      have answered := known name (basenameOf name)
      rw [isMeta] at answered
      obtain ⟨⟨asked, result⟩, chain, rfl⟩ := Option.map_eq_some_iff.mp answered
      have metaOf := Runtimes.runtimeMeta_metaOf chain
      exact ⟨rfl, Or.inr ⟨metaOf.identifies, metaOf.namespace, metaOf.aliased, metaOf.overlay⟩⟩

namespace Lifecycle

def pending : Call → Option ContainerHandle
  | .add _ _ (.insert handle _) => some handle
  | _ => none

/-- Every handle, registered or about to be, satisfies `P`. -/
structure All (P : ContainerHandle → Prop) (s : Lifecycle) : Prop where
  registered : ∀ h ∈ s.manager.handles, P h
  pending : ∀ call ∈ s.calls, ∀ h ∈ pending call, P h

section

variable {P : ContainerHandle → Prop} {s : Lifecycle}

theorem All.goOn (all : All P s) (i : Nat) {call : Call}
    (holds : ∀ h ∈ Lifecycle.pending call, P h) : All P (s.goOn i call) where
  registered := all.registered
  pending other member := by
    rcases List.mem_or_eq_of_mem_set member with old | rfl
    · exact all.pending other old
    · exact holds

theorem All.withEvents (all : All P s) (events : EventStore) : All P (s.withEvents events) :=
  ⟨all.registered, all.pending⟩

theorem All.goOn_nothing (all : All P s) (i : Nat) {c : Call}
    (nothing : Lifecycle.pending c = none) : All P (s.goOn i c) := by
  refine all.goOn i fun h isPending => ?_
  rw [nothing] at isPending
  cases isPending

/-- Only an insertion adds a handle, and it adds the one that was pending. -/
theorem addStep_all {answers : Answers} {i : Nat} {name : String} {recordCreation : Bool}
    {stage : AddNext name} {next : Lifecycle} (all : All P s)
    (here : Call.add name recordCreation stage ∈ s.calls)
    (built : ∀ spec, P (s.manager.newHandle name spec
      (answers.runtimeMeta name (basenameOf name))))
    (step : s.addStep answers i name recordCreation stage = some next) : All P next := by
  cases stage with
  | check =>
      simp only [addStep] at step
      split_ifs at step
      · cases step
        exact all.goOn_nothing i rfl
      · cases step
        exact all.goOn_nothing i rfl
      · cases step
        exact all.goOn_nothing i rfl
  | buildSpec =>
      simp only [addStep] at step
      split at step
      · cases step
        exact all.goOn_nothing i rfl
      · cases step
        exact all.goOn_nothing i rfl
  | inspect spec =>
      cases step
      refine all.goOn i fun h isPending => ?_
      cases isPending
      exact built spec
  | insert handle named =>
      have holds : P handle := all.pending _ here handle rfl
      simp only [addStep] at step
      split at step
      · cases step
        exact all.goOn_nothing i rfl
      · rename_i containers inserted
        have handlesAre : containers.handles = handle :: s.manager.containers.handles := by
          unfold Registry.insertNew at inserted
          split_ifs at inserted
          cases inserted
          rfl
        have registered : ∀ h ∈ containers.handles, P h := by
          rw [handlesAre]
          exact List.forall_mem_cons.mpr ⟨holds, all.registered⟩
        cases step
        have widened : All P (s.withContainers containers) := ⟨registered, all.pending⟩
        have moved := widened.goOn_nothing i (c := .add name recordCreation
          (if recordCreation then .send handle.spec.creationTime else .spawn))
          (by split_ifs <;> rfl)
        exact ⟨moved.registered, moved.pending⟩
  | send created =>
      cases step
      exact (all.withEvents _).goOn_nothing i rfl
  | keep event =>
      simp only [addStep] at step
      split at step
      · cases step
      · cases step
        exact (all.withEvents _).goOn_nothing i rfl
  | spawn =>
      cases step
      have moved := all.goOn_nothing i (c := .add name recordCreation (.store s.tasks.length)) rfl
      exact ⟨moved.registered, moved.pending⟩
  | store task =>
      cases step
      have moved := all.goOn_nothing i (c := .add name recordCreation .returned) rfl
      exact ⟨moved.registered, moved.pending⟩
  | returned => cases step

theorem takeTask_all (all : All P s) (handle : Nat) : All P (s.takeTask handle) := by
  unfold takeTask
  split
  · exact all
  · exact ⟨all.registered, all.pending⟩

theorem removeStep_all {answers : Answers} {i : Nat} {name : String} {stage : RemoveNext}
    {next : Lifecycle} (all : All P s) (step : s.removeStep answers i name stage = some next) :
    All P next := by
  cases stage with
  | unregister =>
      simp only [removeStep] at step
      split at step
      · cases step
        exact all.goOn_nothing i rfl
      · cases step
        have fewer : All P (s.withContainers (s.manager.containers.remove name)) :=
          ⟨fun h member => all.registered h (List.mem_of_mem_filter member), all.pending⟩
        exact fewer.goOn_nothing i rfl
  | abort handle =>
      cases step
      exact (takeTask_all all handle).goOn_nothing i rfl
  | send =>
      cases step
      exact (all.withEvents _).goOn_nothing i rfl
  | keep event =>
      simp only [removeStep] at step
      split at step
      · cases step
      · cases step
        exact (all.withEvents _).goOn_nothing i rfl
  | returned => cases step

end

def Answered : Action → Prop
  | .proceed _ answers => answers.FromRuntimes
  | _ => True

theorem step_identified {s next : Lifecycle} {a : Action} (all : All Identified s)
    (answered : Answered a) (step : s.step a = some next) : All Identified next := by
  have waiting : ∀ call, pending call = none →
      All Identified { s with calls := s.calls ++ [call] } := by
    intro call nothing
    refine ⟨all.registered, fun other member h isPending => ?_⟩
    rcases List.mem_append.mp member with old | new
    · exact all.pending other old h isPending
    · rw [List.mem_singleton.mp new, nothing] at isPending
      cases isPending
  cases a with
  | add name recordCreation =>
      cases step
      exact waiting _ rfl
  | remove name =>
      cases step
      exact waiting _ rfl
  | proceed i answers =>
      simp only [Lifecycle.step] at step
      split at step
      · cases step
      · rename_i name recordCreation stage here
        exact addStep_all all (List.mem_of_getElem? here)
          (newHandle_identified answered s.manager name) step
      · exact removeStep_all all step

theorem run_identified {cfg : ManagerConfig} {machineInfo : MachineInfo} {actions : List Action}
    {final : Lifecycle} (answered : ∀ a ∈ actions, Answered a)
    (run : Run.exec step (new cfg machineInfo) actions = some final) : All Identified final := by
  have start : All Identified (new cfg machineInfo) :=
    ⟨List.forall_mem_nil _, List.forall_mem_nil _⟩
  have allowed : Run.Allowed step (fun _ a => Answered a) (new cfg machineInfo) actions :=
    Run.allowed_of_forall answered
  exact Run.exec_keeps (fun s a next all ok step => step_identified all ok step) start allowed run

end Lifecycle

/-! ## Looking a container up -/

theorem Enriched.digits {h : ContainerHandle} (enriched : Enriched h) :
    h.reference.id.toList.length = 64 ∧ ∀ c ∈ h.reference.id.toList, isHexDigit c = true := by
  obtain ⟨-, -, front, back, isRun, -⟩ := enriched.identifies
  exact ⟨isRun.wide, isRun.inside⟩

theorem Enriched.id_ne_nil {h : ContainerHandle} (enriched : Enriched h) : h.reference.id ≠ "" := by
  intro empty
  have wide := enriched.digits.1
  rw [empty] at wide
  exact absurd wide (by decide)

/-- What is looked up as `docker` by a text. -/
def SelectedBy (text : String) (h : ContainerHandle) : Bool :=
  h.reference.namespace ≠ "" &&
    (text = "" || Str.startsWith h.reference.id text || h.reference.aliases.any (· == text))

theorem enriched_of_selected {h : ContainerHandle} (identified : Identified h) {text : String}
    (selected : SelectedBy text h = true) : Enriched h := by
  rcases identified.2 with bare | enriched
  · rw [SelectedBy, bare, Bool.and_eq_true] at selected
    exact absurd rfl (of_decide_eq_true selected.1)
  · exact enriched

theorem Enriched.selected_self {h : ContainerHandle} (enriched : Enriched h) :
    SelectedBy h.reference.id h = true := by
  have named : h.reference.namespace ≠ "" := by
    rw [enriched.namespace, Runtimes.namespaceOf]
    split_ifs <;> decide
  have itself : Str.startsWith h.reference.id h.reference.id = true :=
    List.isPrefixOf_iff_prefix.mpr (List.prefix_refl _)
  rw [SelectedBy, itself, Bool.or_true, Bool.true_or, Bool.and_true]
  exact decide_eq_true named

theorem id_or_alias {h other : ContainerHandle} (enriched : Enriched h)
    (otherEnriched : Enriched other) (selected : SelectedBy h.reference.id other = true) :
    other.reference.id = h.reference.id ∨ h.reference.id ∈ other.reference.aliases := by
  rw [SelectedBy, Bool.and_eq_true, Bool.or_eq_true, Bool.or_eq_true, decide_eq_true_eq] at selected
  rcases selected.2 with (empty | starts) | isAlias
  · exact absurd (of_decide_eq_true empty) enriched.id_ne_nil
  · have shorter : h.reference.id.toList <+: other.reference.id.toList :=
      List.isPrefixOf_iff_prefix.mp starts
    have same := shorter.eq_of_length (enriched.digits.1.trans otherEnriched.digits.1.symm)
    exact Or.inl (String.toList_injective same).symm
  · obtain ⟨found, member, same⟩ := List.any_eq_true.mp isAlias
    exact Or.inr (beq_iff_eq.mp same ▸ member)

theorem Enriched.trim_slash {h : ContainerHandle} (enriched : Enriched h) :
    Str.trimStartMatches ("/" ++ h.reference.id) '/' = h.reference.id := by
  have first : ∀ c ∈ h.reference.id.toList.head?, (c == '/') = false := by
    intro c isFirst
    have digit := enriched.digits.2 c (List.mem_of_mem_head? isFirst)
    by_contra slash
    rw [beq_iff_eq.mp (Bool.eq_true_of_not_eq_false slash)] at digit
    exact absurd digit (by decide)
  have slashFirst : ("/" ++ h.reference.id).toList = '/' :: h.reference.id.toList :=
    String.toList_append
  rw [Str.trimStartMatches, slashFirst, List.dropWhile_cons_of_pos (by decide)]
  cases digits : h.reference.id.toList with
  | nil => exact absurd (String.toList_injective digits) enriched.id_ne_nil
  | cons c rest =>
      rw [digits] at first
      rw [List.dropWhile_cons_of_neg (by simpa using first c rfl), ← digits, String.ofList_toList]

namespace Manager

theorem dockerContainers_ok {m : Manager} {text : String} {h : ContainerHandle}
    (member : h ∈ m.handles) (selected : SelectedBy text h = true) (req : ContainerInfoRequest) :
    m.dockerContainers text req =
      .ok ((m.handles.filter (SelectedBy text)).map fun h => (h.name, m.assembleInfo h req false)) := by
  have found : m.handles.filter (SelectedBy text) ≠ [] :=
    List.ne_nil_of_mem (List.mem_filter.mpr ⟨member, selected⟩)
  exact if_neg fun none => found none.1

theorem dockerRequest_resolve (m : Manager) (name : String) (req : ContainerInfoRequest)
    {opts : V2.RequestOptions} (runtime : opts.idType ≠ V2.typeName) :
    ((m.dockerRequest name req).toOption.map fun found => found.map Prod.fst) =
      (V2.resolve m name opts).toOption.map fun found => found.map ContainerHandle.name := by
  unfold dockerRequest dockerContainers V2.resolve
  rw [if_pos runtime]
  dsimp only
  split_ifs
  · rfl
  · simp only [Except.toOption, Option.map_some, List.map_map]
    rfl

end Manager

namespace Lifecycle

open Manager

/-- However additions and removals are interleaved and whatever the runtimes answer, a
registered container has either no identity but its name or the id in its last component,
with the runtime its name is of.  Asked for by such an id it is served, by the endpoint of
either generation, and with it only what has that id or is called by it. -/
theorem docker_lookups {cfg : ManagerConfig} {machineInfo : MachineInfo} {actions : List Action}
    {final : Lifecycle} (answered : ∀ a ∈ actions, Answered a)
    (run : Run.exec step (new cfg machineInfo) actions = some final) :
    (∀ h ∈ final.manager.handles, Identified h) ∧
      ∀ h ∈ final.manager.handles, h.reference.namespace ≠ "" → ∀ req,
        ∃ served, final.manager.dockerRequest ("/" ++ h.reference.id) req = .ok served ∧
          (h.name, final.manager.assembleInfo h req false) ∈ served ∧
          (∀ entry ∈ served, entry.2.reference.name = entry.1 ∧
            (entry.2.reference.id = h.reference.id ∨
              h.reference.id ∈ entry.2.reference.aliases)) ∧
          ∀ opts : V2.RequestOptions, opts.idType ≠ V2.typeName →
            ∃ found, V2.resolve final.manager ("/" ++ h.reference.id) opts = .ok found ∧
              found.map ContainerHandle.name = served.map Prod.fst := by
  have all := run_identified answered run
  refine ⟨all.registered, fun h member named req => ?_⟩
  have enriched : Enriched h := by
    rcases (all.registered h member).2 with bare | enriched
    · rw [bare] at named
      exact absurd rfl named
    · exact enriched
  have ok : final.manager.dockerRequest ("/" ++ h.reference.id) req =
      final.manager.dockerContainers h.reference.id req := by
    rw [dockerRequest, enriched.trim_slash]
  rw [dockerContainers_ok member enriched.selected_self req] at ok
  refine ⟨_, ok, ?_, ?_, fun opts runtime => ?_⟩
  · exact List.mem_map.mpr ⟨h, List.mem_filter.mpr ⟨member, enriched.selected_self⟩, rfl⟩
  · refine List.forall_mem_map.mpr fun other isServed => ?_
    obtain ⟨isRegistered, selected⟩ := List.mem_filter.mp isServed
    have identified := all.registered other isRegistered
    exact ⟨identified.1, id_or_alias enriched (enriched_of_selected identified selected) selected⟩
  · have same := dockerRequest_resolve final.manager ("/" ++ h.reference.id) req runtime
    rw [ok] at same
    cases resolved : V2.resolve final.manager ("/" ++ h.reference.id) opts with
    | error e =>
        rw [resolved] at same
        cases same
    | ok found =>
        rw [resolved] at same
        exact ⟨found, rfl, (Option.some.inj same).symm⟩

def sandboxRuntimes : Runtimes where
  parse := fun _ => none
  isDir := fun _ => false
  crioAvailable := fun _ => false
  crio := fun _ => .unreachable
  containerd := some fun _ =>
    .answered (some ⟨[("io.cri-containerd.kind", "sandbox")], "pause", none⟩) (some 7)

def sandboxAnswers : Answers where
  access := ⟨.ok none, true, fun _ => .notFound⟩
  runtimeMeta := fun _ basename => (sandboxRuntimes.runtimeMeta basename).bind Prod.snd
  now := GoTime.zero

def sandboxName : String :=
  "/cri-containerd-0123456789abcdef0123456789abcdef0123456789abcdef0123456789abcdef.scope"

def sandboxActions : List Action :=
  [.add sandboxName false, .proceed 0 sandboxAnswers, .proceed 0 sandboxAnswers,
    .proceed 0 sandboxAnswers, .proceed 0 sandboxAnswers]

theorem docker_lookups_sandbox :
    ∃ final, Run.exec step (new ⟨.zero, []⟩ {}) sandboxActions = some final ∧
      ∃ h ∈ final.manager.handles, h.name = sandboxName ∧
        ∃ served, final.manager.dockerRequest ("/" ++ h.reference.id) {} = .ok served ∧
          (h.name, final.manager.assembleInfo h {} false) ∈ served := by
  have answered : ∀ a ∈ sandboxActions, Answered a := by
    have runtimes : sandboxAnswers.FromRuntimes := by
      refine ⟨sandboxRuntimes, fun name basename => ?_⟩
      obtain ⟨asked, found, chain⟩ := sandboxRuntimes.runtimeMeta_total basename
      simp [sandboxAnswers, chain]
    simp only [sandboxActions, List.forall_mem_cons, Answered]
    exact ⟨trivial, runtimes, runtimes, runtimes, runtimes, List.forall_mem_nil _⟩
  have handlesAre : ((Run.exec step (new ⟨.zero, []⟩ {}) sandboxActions).map fun s =>
      s.manager.handles.map fun h => (h.name, h.reference.namespace)) =
        some [(sandboxName, "containerd")] := by
    decide +kernel
  obtain ⟨final, run, found⟩ := Option.map_eq_some_iff.mp handlesAre
  have listed : (sandboxName, "containerd") ∈
      final.manager.handles.map fun h => (h.name, h.reference.namespace) := by
    rw [found]
    exact List.mem_singleton_self _
  obtain ⟨h, member, isSandbox⟩ := List.mem_map.mp listed
  obtain ⟨named, space⟩ := Prod.mk.inj isSandbox
  have enriched : h.reference.namespace ≠ "" := by
    rw [space]
    decide
  obtain ⟨served, ok, isServed, -⟩ := (docker_lookups answered run).2 h member enriched {}
  exact ⟨final, run, h, member, named, served, ok, isServed⟩

end Lifecycle

end Cadvisor
