import Cadvisor.Lib.Run
import Cadvisor.Lib.TaskPool
import Cadvisor.Manager.Containers

/-!
# Interleaved `add_container` and `remove_container` calls

Calls run at the same time, on the task that consumes the watcher's events and on
the global sweep.  Each goes on by one lock-protected step at a time: the registry,
a handle's task slot and the history have a lock each.
-/

set_option autoImplicit false

namespace Cadvisor

open SortedSeq

/-! ## `record_event` in two steps -/

namespace EventStore

def send (store : EventStore) (event : Event) : EventStore :=
  { store with sent := store.sent ++ [event] }

/-- What happens under the lock of the history; `none` is the panic of the subtraction. -/
def keep (store : EventStore) (event : Event) : Option EventStore :=
  let pos := partitionPoint store.events fun e => e.timestamp ≤ event.timestamp
  match retainDay (store.events.take pos ++ event :: store.events.drop pos) with
  | none => none
  | some events => some { store with events := drainExcess events }

theorem recordEvent_eq_send_keep (store : EventStore) (name : String) (eventType : EventType)
    (timestamp : GoTime) :
    store.recordEvent name eventType timestamp =
      (store.send { containerName := name, timestamp, eventType }).keep
        { containerName := name, timestamp, eventType } :=
  rfl

end EventStore

/-! ## The calls -/

/-- What an `add_container` call does next. -/
inductive AddNext (name : String) where
  | check
  | buildSpec
  | inspect (spec : ContainerSpec)
  | insert (handle : ContainerHandle) (named : handle.name = name)
  | send (created : GoTime)
  | keep (event : Event)
  | spawn
  | store (task : Nat)
  | returned

/-- What a `remove_container` call does next; a handle has the number of the call that
built it. -/
inductive RemoveNext where
  | unregister
  | abort (handle : Nat)
  | send
  | keep (event : Event)
  | returned

inductive Call where
  | add (name : String) (recordCreation : Bool) (next : AddNext name)
  | remove (name : String) (next : RemoveNext)

def Call.inProgress : Call → Bool
  | .add _ _ .returned => false
  | .remove _ .returned => false
  | _ => true

/-- What the host and the clock answer during a step. -/
structure Answers where
  access : CgroupReader.SpecAccess
  runtimeMeta : String → String → Option ContainerMeta
  now : GoTime

/-- `holder` tells which handle the map holds under a registered name, and `slots` is
the `task` of each handle. -/
structure Lifecycle where
  manager : Manager
  holder : String → Nat
  slots : Nat → Option Nat
  tasks : List TaskPool.Task
  calls : List Call

namespace Lifecycle

def new (cfg : ManagerConfig) (machineInfo : MachineInfo) : Lifecycle where
  manager := ⟨cfg, ⟨[], List.nodup_nil⟩, machineInfo, EventStore.new⟩
  holder := fun _ => 0
  slots := fun _ => none
  tasks := []
  calls := []

def names (s : Lifecycle) : List String := s.manager.containers.names

/-- The call `i` goes on as `call`. -/
def goOn (s : Lifecycle) (i : Nat) (call : Call) : Lifecycle :=
  { s with calls := s.calls.set i call }

def withEvents (s : Lifecycle) (events : EventStore) : Lifecycle :=
  { s with manager := { s.manager with events } }

def withContainers (s : Lifecycle) (containers : Registry) : Lifecycle :=
  { s with manager := { s.manager with containers } }

/-- `add_container`, one step. -/
def addStep (s : Lifecycle) (answers : Answers) (i : Nat) (name : String)
    (recordCreation : Bool) : AddNext name → Option Lifecycle
  | .check =>
      if Str.endsWith name ".mount" then some (s.goOn i (.add name recordCreation .returned))
      else if name ∈ s.names then some (s.goOn i (.add name recordCreation .returned))
      else some (s.goOn i (.add name recordCreation .buildSpec))
  | .buildSpec =>
      match s.manager.buildSpec answers.access name with
      | .error _ => some (s.goOn i (.add name recordCreation .returned))
      | .ok spec => some (s.goOn i (.add name recordCreation (.inspect spec)))
  | .inspect spec =>
      let basename := ((Str.split name '/').getLast?).getD name
      some (s.goOn i (.add name recordCreation
        (.insert (s.manager.newHandle name spec (answers.runtimeMeta name basename))
          (s.manager.newHandle_name ..))))
  | .insert handle _ =>
      match s.manager.containers.insertNew handle with
      | none => some (s.goOn i (.add name recordCreation .returned))
      | some containers =>
          let next := if recordCreation then .send handle.spec.creationTime else .spawn
          some { (s.withContainers containers).goOn i (.add name recordCreation next) with
            holder := Function.update s.holder name i }
  | .send created =>
      let event : Event :=
        { containerName := name, timestamp := created, eventType := .containerCreation }
      some ((s.withEvents (s.manager.events.send event)).goOn i
        (.add name recordCreation (.keep event)))
  | .keep event =>
      match s.manager.events.keep event with
      | none => none
      | some events => some ((s.withEvents events).goOn i (.add name recordCreation .spawn))
  | .spawn =>
      some { s.goOn i (.add name recordCreation (.store s.tasks.length)) with
        tasks := s.tasks ++ [⟨i, false⟩] }
  | .store task =>
      some { s.goOn i (.add name recordCreation .returned) with
        slots := Function.update s.slots i (some task) }
  | .returned => none

/-- The task in a handle's slot is taken and aborted while the slot is locked. -/
def takeTask (s : Lifecycle) (handle : Nat) : Lifecycle :=
  match s.slots handle with
  | none => s
  | some task =>
      { s with
        slots := Function.update s.slots handle none
        tasks := TaskPool.abort s.tasks task }

/-- `remove_container`, one step. -/
def removeStep (s : Lifecycle) (answers : Answers) (i : Nat) (name : String) :
    RemoveNext → Option Lifecycle
  | .unregister =>
      match s.manager.containers.get? name with
      | none => some (s.goOn i (.remove name .returned))
      | some _ =>
          some ((s.withContainers (s.manager.containers.remove name)).goOn i
            (.remove name (.abort (s.holder name))))
  | .abort handle => some ((s.takeTask handle).goOn i (.remove name .send))
  | .send =>
      let event : Event :=
        { containerName := name, timestamp := answers.now, eventType := .containerDeletion }
      some ((s.withEvents (s.manager.events.send event)).goOn i (.remove name (.keep event)))
  | .keep event =>
      match s.manager.events.keep event with
      | none => none
      | some events => some ((s.withEvents events).goOn i (.remove name .returned))
  | .returned => none

inductive Action where
  | add (name : String) (recordCreation : Bool)
  | remove (name : String)
  | proceed (i : Nat) (answers : Answers)

def step (s : Lifecycle) : Action → Option Lifecycle
  | .add name recordCreation =>
      some { s with calls := s.calls ++ [.add name recordCreation .check] }
  | .remove name => some { s with calls := s.calls ++ [.remove name .unregister] }
  | .proceed i answers =>
      match s.calls[i]? with
      | none => none
      | some (.add name recordCreation next) => s.addStep answers i name recordCreation next
      | some (.remove name next) => s.removeStep answers i name next

def Quiet (s : Lifecycle) : Prop := ∀ call ∈ s.calls, call.inProgress = false

/-- Every registered handle has exactly one task, stored in the handle and not aborted,
and the tasks of all other handles have been aborted. -/
structure Settled (s : Lifecycle) : Prop where
  registered : ∀ name ∈ s.names, ∃ task, s.slots (s.holder name) = some task ∧
    s.tasks[task]? = some ⟨s.holder name, false⟩ ∧
    ∀ (n : Nat) (t : TaskPool.Task), s.tasks[n]? = some t → t.owner = s.holder name → n = task
  unregistered : ∀ (n : Nat) (t : TaskPool.Task), s.tasks[n]? = some t →
    (∀ name ∈ s.names, s.holder name ≠ t.owner) → t.aborted = true

/-- A removal does not come to a handle before the task is stored in it. -/
def Clear (s : Lifecycle) : Action → Prop
  | .proceed i _ =>
      ∀ name handle, s.calls[i]? = some (.remove name (.abort handle)) → s.slots handle ≠ none
  | _ => True

/-! ## The pool of tasks behind the calls -/

open TaskPool

def phase : Call → Phase String
  | .add _ _ .check => .idle
  | .add _ _ .buildSpec => .idle
  | .add _ _ (.inspect _) => .idle
  | .add _ _ (.insert _ _) => .idle
  | .add name _ (.send _) => .starting name
  | .add name _ (.keep _) => .starting name
  | .add name _ .spawn => .starting name
  | .add name _ (.store task) => .storing name task
  | .add name _ .returned => .added name
  | .remove _ (.abort handle) => .aborting handle
  | .remove _ _ => .idle

def listed (s : Lifecycle) (name : String) : Option Nat :=
  if name ∈ s.names then some (s.holder name) else none

def pool (s : Lifecycle) : Pool String where
  listed := s.listed
  slots := s.slots
  tasks := s.tasks
  phases i := (s.calls[i]?).elim .idle phase

theorem phases_of_call {s : Lifecycle} {i : Nat} {call : Call} (here : s.calls[i]? = some call) :
    s.pool.phases i = phase call := by
  simp [pool, here]

theorem pool_goOn {s : Lifecycle} {i : Nat} {call : Call} (here : s.calls[i]? = some call)
    (next : Call) : (s.goOn i next).pool = s.pool.enter i (phase next) := by
  have inside : i < s.calls.length := (List.getElem?_eq_some_iff.mp here).1
  have phases : (s.goOn i next).pool.phases = Function.update s.pool.phases i (phase next) := by
    funext j
    rw [Function.update_apply]
    split_ifs with same
    · simp [pool, goOn, same, inside]
    · simp [pool, goOn, Ne.symm same]
  exact congrArg (fun phases => (⟨s.listed, s.slots, s.tasks, phases⟩ : Pool String)) phases

theorem pool_goOn_same {s : Lifecycle} {i : Nat} {call : Call} (here : s.calls[i]? = some call)
    {next : Call} (same : phase next = phase call) : (s.goOn i next).pool = s.pool := by
  rw [pool_goOn here, same, ← phases_of_call here]
  exact congrArg (fun phases => (⟨s.listed, s.slots, s.tasks, phases⟩ : Pool String))
    (Function.update_eq_self ..)

theorem pool_append (s : Lifecycle) {call : Call} (idle : phase call = .idle) :
    Lifecycle.pool { s with calls := s.calls ++ [call] } = s.pool := by
  have phases : Pool.phases (Lifecycle.pool { s with calls := s.calls ++ [call] }) =
      s.pool.phases := by
    funext j
    simp only [pool]
    rcases Nat.lt_trichotomy j s.calls.length with before | rfl | behind
    · rw [List.getElem?_append_left before]
    · simp [idle]
    · rw [List.getElem?_eq_none (by simp; omega), List.getElem?_eq_none (Nat.le_of_lt behind)]
  exact congrArg (fun phases => (⟨s.listed, s.slots, s.tasks, phases⟩ : Pool String)) phases

section

variable {s : Lifecycle} {i : Nat} {call : Call} (here : s.calls[i]? = some call)

include here

theorem pool_insert {containers : Registry} {name : String} {next : Call}
    (namesAre : containers.names = name :: s.names) :
    Lifecycle.pool { (s.withContainers containers).goOn i next with
        holder := Function.update s.holder name i } =
      { s.pool.enter i (phase next) with
        listed := Function.update s.pool.listed name (some i) } := by
  have listedIs : Lifecycle.listed { (s.withContainers containers).goOn i next with
      holder := Function.update s.holder name i } = Function.update s.listed name (some i) := by
    funext other
    have member : other ∈ containers.names ↔ other = name ∨ other ∈ s.names := by
      rw [namesAre, List.mem_cons]
    rw [Function.update_apply]
    change (if other ∈ containers.names then some (Function.update s.holder name i other)
      else none) = _
    by_cases same : other = name
    · rw [if_pos (member.mpr (Or.inl same)), if_pos same, same, Function.update_self]
    · rw [if_neg same, listed, Function.update_of_ne same]
      exact if_congr (member.trans (or_iff_right same)) rfl rfl
  have entered := pool_goOn here next
  exact congrArg₂ (fun listed phases => (⟨listed, s.slots, s.tasks, phases⟩ : Pool String))
    listedIs (congrArg Pool.phases entered)

theorem pool_unregister {name : String} {next : Call} :
    Lifecycle.pool ((s.withContainers (s.manager.containers.remove name)).goOn i next) =
      { s.pool.enter i (phase next) with
        listed := Function.update s.pool.listed name none } := by
  have listedIs : Lifecycle.listed ((s.withContainers (s.manager.containers.remove name)).goOn i
      next) = Function.update s.listed name none := by
    funext other
    have member := s.manager.containers.mem_names_remove name other
    rw [Function.update_apply]
    change (if other ∈ (s.manager.containers.remove name).names then _ else none) = _
    by_cases same : other = name
    · rw [if_pos same, if_neg fun kept => (member.mp kept).2 same]
    · rw [if_neg same, listed]
      exact if_congr (member.trans (and_iff_left same)) rfl rfl
  have entered := pool_goOn here next
  exact congrArg₂ (fun listed phases => (⟨listed, s.slots, s.tasks, phases⟩ : Pool String))
    listedIs (congrArg Pool.phases entered)

theorem pool_spawn {next : Call} {tasks : List Task} :
    Lifecycle.pool { s.goOn i next with tasks := tasks } =
      { s.pool.enter i (phase next) with tasks := tasks } :=
  congrArg (fun p : Pool String => { p with tasks := tasks }) (pool_goOn here next)

theorem pool_store {next : Call} {slots : Nat → Option Nat} :
    Lifecycle.pool { s.goOn i next with slots := slots } =
      { s.pool.enter i (phase next) with slots := slots } :=
  congrArg (fun p : Pool String => { p with slots := slots }) (pool_goOn here next)

theorem pool_take {next : Call} {slots : Nat → Option Nat} {tasks : List Task} :
    (goOn { s with slots := slots, tasks := tasks } i next).pool =
      { s.pool.enter i (phase next) with slots := slots, tasks := tasks } :=
  congrArg (fun p : Pool String => { p with slots := slots, tasks := tasks }) (pool_goOn here next)

end

theorem addStep_pool {s next : Lifecycle} {answers : Answers} {i : Nat} {name : String}
    {recordCreation : Bool} {stage : AddNext name}
    (here : s.calls[i]? = some (.add name recordCreation stage))
    (step : s.addStep answers i name recordCreation stage = some next) :
    next.pool = s.pool ∨ s.pool.Step next.pool := by
  have phaseIs := phases_of_call here
  cases stage with
  | check =>
      simp only [addStep] at step
      split_ifs at step
      · cases step
        exact Or.inr (pool_goOn here _ ▸ .decline i name phaseIs)
      · cases step
        exact Or.inr (pool_goOn here _ ▸ .decline i name phaseIs)
      · cases step
        exact Or.inl (pool_goOn_same here rfl)
  | buildSpec =>
      simp only [addStep] at step
      split at step
      · cases step
        exact Or.inr (pool_goOn here _ ▸ .decline i name phaseIs)
      · cases step
        exact Or.inl (pool_goOn_same here rfl)
  | inspect spec =>
      cases step
      exact Or.inl (pool_goOn_same here rfl)
  | insert handle named =>
      simp only [addStep] at step
      split at step
      · cases step
        exact Or.inr (pool_goOn here _ ▸ .decline i name phaseIs)
      · rename_i containers inserted
        cases step
        obtain ⟨absent, namesAre⟩ := Registry.insertNew_eq_some inserted
        rw [named] at absent namesAre
        have entered : phase (.add name recordCreation
            (if recordCreation then .send handle.spec.creationTime else .spawn)) =
            .starting name := by
          cases recordCreation <;> rfl
        right
        rw [pool_insert here namesAre, entered]
        exact .insert i name phaseIs (if_neg absent)
  | send created =>
      cases step
      exact Or.inl (pool_goOn_same (s := s.withEvents _) here rfl)
  | keep event =>
      simp only [addStep] at step
      split at step
      · cases step
      · cases step
        exact Or.inl (pool_goOn_same (s := s.withEvents _) here rfl)
  | spawn =>
      cases step
      right
      rw [pool_spawn here]
      exact .spawn i name phaseIs
  | store task =>
      cases step
      right
      rw [pool_store here]
      exact .store i name task phaseIs
  | returned => cases step

theorem removeStep_pool {s next : Lifecycle} {answers : Answers} {i : Nat} {name : String}
    {stage : RemoveNext} (here : s.calls[i]? = some (.remove name stage))
    (step : s.removeStep answers i name stage = some next) :
    (next.pool = s.pool ∨ s.pool.Step next.pool) ∧ s.Clear (.proceed i answers) ∨
      s.pool.Miss next.pool ∧ ¬ s.Clear (.proceed i answers) := by
  have phaseIs := phases_of_call here
  have clear : (∀ handle, stage ≠ .abort handle) → s.Clear (.proceed i answers) := by
    intro other n handle there
    rw [here] at there
    cases there
    exact absurd rfl (other handle)
  cases stage with
  | unregister =>
      refine Or.inl ⟨?_, clear (by simp)⟩
      simp only [removeStep] at step
      split at step
      · cases step
        exact Or.inl (pool_goOn_same here rfl)
      · rename_i handle found
        cases step
        have registered : name ∈ s.names :=
          (s.manager.containers.get?_isSome name).mp (by rw [found]; rfl)
        right
        rw [pool_unregister here]
        exact .unlist i name (s.holder name) phaseIs (if_pos registered)
  | abort handle =>
      cases step
      unfold takeTask
      split
      · rename_i nothing
        right
        rw [pool_goOn here]
        exact ⟨.miss i handle phaseIs nothing, fun isClear => isClear name handle here nothing⟩
      · rename_i task stored
        left
        refine ⟨Or.inr ?_, ?_⟩
        · rw [pool_take here]
          exact .take i handle task phaseIs stored
        · intro n other there
          rw [here] at there
          cases there
          rw [stored]
          exact Option.some_ne_none task
  | send =>
      cases step
      exact Or.inl ⟨Or.inl (pool_goOn_same (s := s.withEvents _) here rfl), clear (by simp)⟩
  | keep event =>
      refine Or.inl ⟨?_, clear (by simp)⟩
      simp only [removeStep] at step
      split at step
      · cases step
      · cases step
        exact Or.inl (pool_goOn_same (s := s.withEvents _) here rfl)
  | returned => cases step

/-- A step takes the pool one step on or leaves it, and misses a task exactly when it
is not clear. -/
theorem step_pool {s next : Lifecycle} {a : Action} (step : s.step a = some next) :
    (next.pool = s.pool ∨ s.pool.Step next.pool) ∧ s.Clear a ∨
      s.pool.Miss next.pool ∧ ¬ s.Clear a := by
  cases a with
  | add name recordCreation =>
      cases step
      exact Or.inl ⟨Or.inl (s.pool_append rfl), trivial⟩
  | remove name =>
      cases step
      exact Or.inl ⟨Or.inl (s.pool_append rfl), trivial⟩
  | proceed i answers =>
      simp only [Lifecycle.step] at step
      split at step
      · cases step
      · rename_i name recordCreation stage here
        refine Or.inl ⟨addStep_pool here step, fun n handle there => ?_⟩
        rw [here] at there
        cases there
      · rename_i name stage here
        exact removeStep_pool here step

/-! ## Runs -/

/-- A run that missed a task somewhere has leaked it for good, and no other run has. -/
theorem run_leaks {actions : List Action} {s final : Lifecycle} (inv : s.pool.Inv)
    (run : Run.exec step s actions = some final) :
    final.pool.Inv ∧
      ((∀ o, ¬ final.pool.Leaked o) ↔ (∀ o, ¬ s.pool.Leaked o) ∧ Run.Allowed step Clear s actions) := by
  induction actions generalizing s with
  | nil =>
      cases run
      exact ⟨inv, ⟨fun sound => ⟨sound, trivial⟩, fun both => both.1⟩⟩
  | cons a rest ih =>
      rw [Run.exec_cons, Option.bind_eq_some_iff] at run
      obtain ⟨next, stepIs, restRun⟩ := run
      rw [Run.allowed_cons stepIs]
      rcases step_pool stepIs with ⟨same | moved, clear⟩ | ⟨missed, unclear⟩
      · obtain ⟨finalInv, leaks⟩ := ih (same ▸ inv) restRun
        rw [same] at leaks
        exact ⟨finalInv, leaks.trans (and_congr_right fun _ => (and_iff_right clear).symm)⟩
      · obtain ⟨finalInv, leaks⟩ := ih (inv.step moved) restRun
        simp only [inv.leaked_step moved] at leaks
        exact ⟨finalInv, leaks.trans (and_congr_right fun _ => (and_iff_right clear).symm)⟩
      · obtain ⟨finalInv, leaks⟩ := ih (inv.miss missed) restRun
        obtain ⟨o, leaked⟩ := inv.leaked_miss missed
        refine ⟨finalInv, fun sound => absurd leaked ((leaks.mp sound).1 o), fun both => ?_⟩
        exact absurd both.2.1 unclear

theorem settled_iff_sound (s : Lifecycle) : s.Settled ↔ s.pool.Sound := by
  have listedIs : ∀ name handle, s.pool.listed name = some handle ↔
      name ∈ s.names ∧ s.holder name = handle := by
    intro name handle
    simp [pool, listed]
  constructor
  · intro settled
    constructor
    case owned =>
      intro name handle isListed
      obtain ⟨registered, rfl⟩ := (listedIs name handle).mp isListed
      exact settled.registered name registered
    case others =>
      intro n t found unlisted
      refine settled.unregistered n t found fun name registered same => ?_
      exact unlisted name ((listedIs name t.owner).mpr ⟨registered, same⟩)
  · intro sound
    constructor
    case registered =>
      intro name registered
      exact sound.owned name (s.holder name) ((listedIs ..).mpr ⟨registered, rfl⟩)
    case unregistered =>
      intro n t found others
      refine sound.others n t found fun name isListed => ?_
      obtain ⟨registered, same⟩ := (listedIs ..).mp isListed
      exact others name registered same

theorem atRest_of_quiet {s : Lifecycle} (quiet : s.Quiet) : s.pool.AtRest := by
  intro i
  cases here : s.calls[i]? with
  | none => exact Or.inl (by simp [pool, here])
  | some call =>
      have done := quiet call (List.mem_of_getElem? here)
      rw [phases_of_call here]
      cases call with
      | add name recordCreation stage => cases stage <;> simp_all [phase, Call.inProgress]
      | remove name stage => cases stage <;> simp_all [phase, Call.inProgress]

theorem settled_iff_clear {cfg : ManagerConfig} {machineInfo : MachineInfo}
    {actions : List Action} {final : Lifecycle}
    (run : Run.exec step (new cfg machineInfo) actions = some final) (quiet : final.Quiet) :
    final.Settled ↔ Run.Allowed step Clear (new cfg machineInfo) actions := by
  have emptyPool : (new cfg machineInfo).pool = Pool.empty := rfl
  obtain ⟨inv, leaks⟩ := run_leaks (emptyPool ▸ Pool.inv_empty) run
  have noLeak : ∀ o, ¬ (new cfg machineInfo).pool.Leaked o := by
    rintro o ⟨⟨_, starting⟩ | ⟨_, _, storing⟩ | ⟨_, stored⟩, _⟩
    · cases starting
    · cases storing
    · cases stored
  rw [settled_iff_sound, inv.sound_iff (atRest_of_quiet quiet), leaks]
  exact and_iff_right noLeak

def emptyCgroup : Answers := ⟨⟨.ok none, false, fun _ => .notFound⟩, fun _ _ => none, GoTime.zero⟩

def proceeding (calls : List Nat) : List Action := calls.map fun i => .proceed i emptyCgroup

theorem settled_iff_clear_readded :
    ∃ final, Run.exec step (new ⟨⟨120 * 1000000000, by decide⟩, []⟩ {})
        (.add "/a" true :: proceeding [0, 0, 0, 0, 0, 0, 0, 0] ++
          .remove "/a" :: proceeding [1, 1, 1, 1] ++
          .add "/a" true :: proceeding [2, 2, 2, 2, 2, 2, 2, 2]) = some final ∧
      final.names = ["/a"] ∧ final.tasks = [⟨0, true⟩, ⟨2, false⟩] ∧
      (final.Settled ↔ Run.Allowed step Clear (new ⟨⟨120 * 1000000000, by decide⟩, []⟩ {})
        (.add "/a" true :: proceeding [0, 0, 0, 0, 0, 0, 0, 0] ++
          .remove "/a" :: proceeding [1, 1, 1, 1] ++
          .add "/a" true :: proceeding [2, 2, 2, 2, 2, 2, 2, 2])) :=
  ⟨_, rfl, by decide, by decide, settled_iff_clear rfl (by unfold Quiet; decide)⟩

/-- The sweep removes `/a` while the call that adds it has yet to spawn its task. -/
theorem task_of_removed_container_runs_on :
    ∃ final, Run.exec step (new ⟨⟨120 * 1000000000, by decide⟩, []⟩ {})
        (.add "/a" true :: proceeding [0, 0, 0, 0] ++
          .remove "/a" :: proceeding [1, 1, 1, 1] ++ proceeding [0, 0, 0, 0]) = some final ∧
      final.Quiet ∧ ¬ final.Settled := by
  refine ⟨_, rfl, ?_, fun settled => ?_⟩
  · unfold Quiet
    decide
  · have aborted := settled.unregistered 0 ⟨0, false⟩ rfl (by decide)
    cases aborted

/-! ## A call that runs alone -/

section

variable (s : Lifecycle) (answers : Answers) (call : Call)

def withCall : Lifecycle := { s with calls := s.calls ++ [call] }

theorem goOn_withCall (next : Call) :
    (s.withCall call).goOn s.calls.length next = s.withCall next := by
  simp [withCall, goOn]

theorem step_withCall : (s.withCall call).step (.proceed s.calls.length answers) =
    match call with
    | .add name recordCreation stage =>
        (s.withCall call).addStep answers s.calls.length name recordCreation stage
    | .remove name stage => (s.withCall call).removeStep answers s.calls.length name stage := by
  have here : (s.withCall call).calls[s.calls.length]? = some call := by simp [withCall]
  simp only [step, here]
  cases call <;> rfl

/-- `n` steps of the call that `withCall` adds. -/
def goes (n : Nat) : Option Lifecycle :=
  Run.exec step (s.withCall call) (List.replicate n (.proceed s.calls.length answers))

theorem goes_succ (n : Nat) : s.goes answers call (n + 1) =
    ((s.withCall call).step (.proceed s.calls.length answers)).bind fun next =>
      Run.exec step next (List.replicate n (.proceed s.calls.length answers)) := by
  rw [goes, List.replicate_succ, Run.exec_cons]

end

theorem goes_step {s : Lifecycle} {answers : Answers} {call : Call} (after : Lifecycle)
    (next : Call) {n : Nat} {final : Lifecycle} (calls : after.calls = s.calls)
    (first : (s.withCall call).step (.proceed s.calls.length answers) = some (after.withCall next))
    (rest : after.goes answers next n = some final) : s.goes answers call (n + 1) = some final := by
  rw [goes_succ, first, Option.bind_some, ← calls]
  exact rest

theorem takeTask_frame (s : Lifecycle) (handle : Nat) :
    (s.takeTask handle).calls = s.calls ∧ (s.takeTask handle).manager = s.manager := by
  unfold takeTask
  split <;> exact ⟨rfl, rfl⟩

theorem takeTask_withCall (s : Lifecycle) (call : Call) (handle : Nat) :
    (s.withCall call).takeTask handle = (s.takeTask handle).withCall call := by
  unfold takeTask
  have same : (s.withCall call).slots handle = s.slots handle := rfl
  rw [same]
  split <;> rfl

theorem recordEvent_eq_some {m next : Manager} {name : String} {eventType : EventType}
    {timestamp : GoTime} (recorded : m.recordEvent name eventType timestamp = some next) :
    ∃ events, (m.events.send { containerName := name, timestamp, eventType }).keep
        { containerName := name, timestamp, eventType } = some events ∧
      next = { m with events } := by
  unfold Manager.recordEvent at recorded
  rw [EventStore.recordEvent_eq_send_keep] at recorded
  split at recorded
  · cases recorded
  · rename_i events kept
    cases recorded
    exact ⟨events, kept, rfl⟩

/-- The steps of a removal, one after the other, do what the whole call does. -/
theorem remove_alone (s : Lifecycle) (answers : Answers) (name : String) {manager : Manager}
    (ran : s.manager.removeContainer name answers.now = some manager) :
    ∃ n final, s.goes answers (.remove name .unregister) n = some final ∧
      final.manager = manager ∧ final.calls = s.calls ++ [.remove name .returned] := by
  unfold Manager.removeContainer at ran
  split at ran
  · rename_i unknown
    cases ran
    refine ⟨1, s.withCall (.remove name .returned), goes_step _ _ rfl ?_ rfl, rfl, rfl⟩
    have unknown' : (s.withCall (.remove name .unregister)).manager.containers.get? name = none :=
      unknown
    simp only [step_withCall, removeStep, unknown', goOn_withCall]
  · rename_i handle known
    obtain ⟨events, kept, rfl⟩ := recordEvent_eq_some ran
    -- One state for each step that changes more than the call.
    let unregistered := s.withContainers (s.manager.containers.remove name)
    let aborted := unregistered.takeTask (s.holder name)
    obtain ⟨abortedCalls, abortedManager⟩ := unregistered.takeTask_frame (s.holder name)
    let event : Event :=
      { containerName := name, timestamp := answers.now, eventType := .containerDeletion }
    let sent := aborted.withEvents (aborted.manager.events.send event)
    let recorded := sent.withEvents events
    refine ⟨4, recorded.withCall (.remove name .returned), ?_, ?_, ?_⟩
    · refine goes_step unregistered (.remove name (.abort (s.holder name)))
        rfl ?_ <| goes_step aborted (.remove name .send) abortedCalls ?_ <|
        goes_step sent (.remove name (.keep event)) rfl ?_ <|
        goes_step recorded (.remove name .returned) rfl ?_ rfl
      · have known' : (s.withCall (.remove name .unregister)).manager.containers.get? name =
            some handle := known
        simp only [step_withCall, removeStep, known']
        exact congrArg some (unregistered.goOn_withCall _ _)
      · rw [step_withCall]
        dsimp only [removeStep]
        rw [takeTask_withCall, ← abortedCalls]
        exact congrArg some (aborted.goOn_withCall _ _)
      · rw [step_withCall]
        exact congrArg some (sent.goOn_withCall _ _)
      · have kept' : (sent.withCall (.remove name (.keep event))).manager.events.keep event =
            some events := by
          change (aborted.manager.events.send event).keep event = some events
          rw [abortedManager]
          exact kept
        simp only [step_withCall, removeStep, kept']
        exact congrArg some (recorded.goOn_withCall _ _)
    · change { aborted.manager with events } = _
      rw [abortedManager]
      rfl
    · exact congrArg (· ++ _) abortedCalls

theorem spawn_alone (s : Lifecycle) (answers : Answers) (name : String) (recordCreation : Bool) :
    ∃ final, s.goes answers (.add name recordCreation .spawn) 2 = some final ∧
      final.manager = s.manager ∧ final.calls = s.calls ++ [.add name recordCreation .returned] := by
  let spawned : Lifecycle := { s with tasks := s.tasks ++ [⟨s.calls.length, false⟩] }
  let stored : Lifecycle :=
    { spawned with slots := Function.update s.slots s.calls.length (some s.tasks.length) }
  refine ⟨stored.withCall (.add name recordCreation .returned), ?_, rfl, rfl⟩
  refine goes_step spawned (.add name recordCreation (.store s.tasks.length))
    rfl ?_ <| goes_step stored (.add name recordCreation .returned) rfl ?_ rfl
  · rw [step_withCall]
    exact congrArg some (spawned.goOn_withCall _ _)
  · rw [step_withCall]
    exact congrArg some (stored.goOn_withCall _ _)

theorem send_alone (s : Lifecycle) (answers : Answers) (name : String) (created : GoTime)
    {manager : Manager}
    (ran : s.manager.recordEvent name .containerCreation created = some manager) :
    ∃ final, s.goes answers (.add name true (.send created)) 4 = some final ∧
      final.manager = manager ∧ final.calls = s.calls ++ [.add name true .returned] := by
  obtain ⟨events, kept, rfl⟩ := recordEvent_eq_some ran
  let event : Event :=
    { containerName := name, timestamp := created, eventType := .containerCreation }
  let sent := s.withEvents (s.manager.events.send event)
  let recorded := sent.withEvents events
  have sentStep : (s.withCall (.add name true (.send created))).step
      (.proceed s.calls.length answers) =
        some (sent.withCall (.add name true (.keep event))) := by
    have stepIs := s.step_withCall answers (.add name true (.send created))
    exact stepIs.trans (congrArg some (sent.goOn_withCall _ _))
  have keptStep : (sent.withCall (.add name true (.keep event))).step
      (.proceed s.calls.length answers) =
        some (recorded.withCall (.add name true .spawn)) := by
    have kept' : (sent.withCall (.add name true (.keep event))).manager.events.keep event =
        some events := kept
    have stepIs := sent.step_withCall answers (.add name true (.keep event))
    simp only [addStep, kept'] at stepIs
    exact stepIs.trans (congrArg some (recorded.goOn_withCall _ _))
  obtain ⟨final, spawned, sameManager, calls⟩ := recorded.spawn_alone answers name true
  exact ⟨final, goes_step sent _ rfl sentStep <| goes_step recorded _ rfl keptStep spawned,
    sameManager, calls⟩

theorem insert_alone (s : Lifecycle) (answers : Answers) {name : String} (recordCreation : Bool)
    {handle : ContainerHandle} (named : handle.name = name) {containers : Registry}
    (inserted : s.manager.containers.insertNew handle = some containers) {manager : Manager}
    (ran : (if recordCreation then
        ({ s.manager with containers } : Manager).recordEvent name .containerCreation
          handle.spec.creationTime
      else some { s.manager with containers }) = some manager) :
    ∃ n final, s.goes answers (.add name recordCreation (.insert handle named)) n = some final ∧
      final.manager = manager ∧
      final.calls = s.calls ++ [.add name recordCreation .returned] := by
  let registered : Lifecycle :=
    { s.withContainers containers with holder := Function.update s.holder name s.calls.length }
  have insertedStep : (s.withCall (.add name recordCreation (.insert handle named))).step
      (.proceed s.calls.length answers) =
        some (registered.withCall (.add name recordCreation
          (if recordCreation then .send handle.spec.creationTime else .spawn))) := by
    have inserted' : (s.withCall (.add name recordCreation
        (.insert handle named))).manager.containers.insertNew handle = some containers :=
      inserted
    simp only [step_withCall, addStep, inserted']
    exact congrArg some (registered.goOn_withCall _ _)
  cases recordCreation with
  | false =>
      cases ran
      obtain ⟨final, spawned, sameManager, calls⟩ := registered.spawn_alone answers name false
      exact ⟨3, final, goes_step registered _ rfl insertedStep spawned, sameManager, calls⟩
  | true =>
      obtain ⟨final, sent, sameManager, calls⟩ :=
        registered.send_alone answers name handle.spec.creationTime ran
      exact ⟨5, final, goes_step registered _ rfl insertedStep sent, sameManager, calls⟩

/-- The steps of an addition, one after the other, do what the whole call does. -/
theorem add_alone (s : Lifecycle) (answers : Answers) (name : String) (recordCreation : Bool)
    {manager : Manager}
    (ran : s.manager.addContainer answers.runtimeMeta answers.access name recordCreation =
      some manager) :
    ∃ n final, s.goes answers (.add name recordCreation .check) n = some final ∧
      final.manager = manager ∧ final.calls = s.calls ++ [.add name recordCreation .returned] := by
  unfold Manager.addContainer at ran
  dsimp only at ran
  by_cases mount : Str.endsWith name ".mount" = true
  · rw [if_pos mount] at ran
    cases ran
    refine ⟨1, s.withCall (.add name recordCreation .returned), goes_step _ _ rfl ?_ rfl, rfl, rfl⟩
    simp only [step_withCall, addStep, if_pos mount, goOn_withCall]
  rw [if_neg mount] at ran
  by_cases known : name ∈ s.manager.containers.names
  · rw [if_pos known] at ran
    cases ran
    refine ⟨1, s.withCall (.add name recordCreation .returned), goes_step _ _ rfl ?_ rfl, rfl, rfl⟩
    have known' : name ∈ (s.withCall (.add name recordCreation .check)).names := known
    simp only [step_withCall, addStep, if_neg mount, if_pos known', goOn_withCall]
  rw [if_neg known] at ran
  have checked : (s.withCall (.add name recordCreation .check)).step
      (.proceed s.calls.length answers) =
        some (s.withCall (.add name recordCreation .buildSpec)) := by
    have unknown : ¬ name ∈ (s.withCall (.add name recordCreation .check)).names := known
    simp only [step_withCall, addStep, if_neg mount, if_neg unknown, goOn_withCall]
  cases built : s.manager.buildSpec answers.access name with
  | error e =>
      rw [built] at ran
      cases ran
      have built' : (s.withCall (.add name recordCreation .buildSpec)).manager.buildSpec
          answers.access name = .error e := built
      refine ⟨2, s.withCall (.add name recordCreation .returned),
        goes_step _ _ rfl checked <| goes_step _ _ rfl ?_ rfl, rfl, rfl⟩
      simp only [step_withCall, addStep, built', goOn_withCall]
  | ok spec =>
      rw [built] at ran
      dsimp only at ran
      have built' : (s.withCall (.add name recordCreation .buildSpec)).manager.buildSpec
          answers.access name = .ok spec := built
      let handle := s.manager.newHandle name spec
        (answers.runtimeMeta name (((Str.split name '/').getLast?).getD name))
      have named : handle.name = name := s.manager.newHandle_name ..
      have read : (s.withCall (.add name recordCreation .buildSpec)).step
          (.proceed s.calls.length answers) =
            some (s.withCall (.add name recordCreation (.inspect spec))) := by
        simp only [step_withCall, addStep, built', goOn_withCall]
      have inspected : (s.withCall (.add name recordCreation (.inspect spec))).step
          (.proceed s.calls.length answers) =
            some (s.withCall (.add name recordCreation (.insert handle named))) := by
        rw [step_withCall]
        exact congrArg some (s.goOn_withCall _ _)
      obtain ⟨containers, inserted, _⟩ :=
        s.manager.containers.insertNew_fresh (h := handle) (named ▸ known)
      rw [inserted] at ran
      obtain ⟨n, final, goes, sameManager, calls⟩ :=
        s.insert_alone answers recordCreation named inserted ran
      exact ⟨n + 3, final, goes_step _ _ rfl checked <| goes_step _ _ rfl read <|
        goes_step _ _ rfl inspected goes, sameManager, calls⟩

end Lifecycle

end Cadvisor
