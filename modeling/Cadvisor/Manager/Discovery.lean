import Cadvisor.Host.Watch
import Cadvisor.Lib.Run
import Cadvisor.Manager.Sweep

/-!
# Discovery

`start` walks the tree and adds what it finds.  From then on the watcher, the
consumer of its events and the global sweep run side by side, while cgroups are
made and removed.  A cgroup is given by its path here; its name is `cgroupName` of
it, and no two paths have one name.
-/

set_option autoImplicit false

namespace Cadvisor

def isMount (path : List String) : Bool := Str.endsWith (cgroupName path) ".mount"

/-! ## `add_container` -/

/-- What a call is about to do: look the name up, read the spec, insert the handle. -/
inductive AddStage where
  | check
  | read
  | insert
  deriving DecidableEq

structure AddCall where
  path : List String
  stage : AddStage
  deriving DecidableEq

/-- One stage of a call; the spec of a directory that is there can be read. -/
def addStep (dirs registered : List (List String)) (call : AddCall) :
    List (List String) × Option AddCall :=
  match call.stage with
  | .check =>
      if isMount call.path ∨ call.path ∈ registered then (registered, none)
      else (registered, some ⟨call.path, .read⟩)
  | .read =>
      if call.path ∈ dirs then (registered, some ⟨call.path, .insert⟩) else (registered, none)
  | .insert =>
      if call.path ∈ registered then (registered, none) else (call.path :: registered, none)

/-! ## The parties -/

inductive StartPhase where
  | walking (walk : TreeWalk (List String))
  | adding (todo : List (List String)) (call : Option AddCall)
  | done

def StartPhase.call : StartPhase → Option AddCall
  | .adding _ call => call
  | _ => none

inductive SweepPhase where
  | idle
  | walking (walk : TreeWalk (List String))
  | adding (current known todo : List (List String)) (call : Option AddCall)
  | removing (current todo : List (List String)) (doomed : Option (List String))

def SweepPhase.call : SweepPhase → Option AddCall
  | .adding _ _ _ call => call
  | _ => none

def SweepPhase.doomed : SweepPhase → Option (List String)
  | .removing _ _ doomed => doomed
  | _ => none

/-- `listed` remembers the inodes that the initial walk has listed; nothing reads it. -/
structure Discovery where
  host : WatchState
  start : StartPhase
  listed : List Nat
  consumer : Option AddCall
  sweep : SweepPhase
  registered : List (List String)

namespace Discovery

def dirs (d : Discovery) : List (List String) := d.host.tree.dirs

def init (tree : CgroupTree) : Discovery where
  host := WatchState.start tree
  start := .walking (TreeWalk.start [])
  listed := []
  consumer := none
  sweep := .idle
  registered := []

def listDir (t : CgroupTree) (dir : List String) : Option (List (List String)) :=
  if dir ∈ t.dirs then some ((entriesOf t.dirs dir).map fun entry => dir ++ [entry]) else none

/-- The next action of `Manager::start`; it ends by spawning the others. -/
def startStep (d : Discovery) : Option Discovery :=
  match d.start with
  | .walking ⟨[], out⟩ => some { d with start := .adding out none }
  | .walking ⟨dir :: rest, out⟩ =>
      some
        { d with
          start := .walking (TreeWalk.step (listDir d.host.tree) ⟨dir :: rest, out⟩)
          listed := if dir ∈ d.dirs then d.host.tree.ino dir :: d.listed else d.listed }
  | .adding todo (some call) =>
      let (registered, call) := addStep d.dirs d.registered call
      some { d with registered, start := .adding todo call }
  | .adding (path :: todo) none => some { d with start := .adding todo (some ⟨path, .check⟩) }
  | .adding [] none =>
      some { d with start := .done, host := { d.host with phase := .registering [.watch []] } }
  | .done => none

def watcherStep (d : Discovery) : Option Discovery :=
  match d.host.step with
  | none => none
  | some host => some { d with host }

def consumerStep (d : Discovery) : Option Discovery :=
  match d.consumer with
  | some call =>
      let (registered, consumer) := addStep d.dirs d.registered call
      some { d with registered, consumer }
  | none =>
      match d.host.channel with
      | [] => none
      | .added path :: channel =>
          some { d with host := { d.host with channel }, consumer := some ⟨path, .check⟩ }
      | .removed path :: channel =>
          some
            { d with
              host := { d.host with channel }
              registered := d.registered.filter fun other => other ≠ path }

/-- The sweep's next action; a pass begins once `start` has spawned the task. -/
def sweepStep (d : Discovery) : Option Discovery :=
  match d.sweep with
  | .idle =>
      match d.start with
      | .done => some { d with sweep := .walking (TreeWalk.start []) }
      | _ => none
  | .walking ⟨[], out⟩ => some { d with sweep := .adding out d.registered out none }
  | .walking ⟨dir :: rest, out⟩ =>
      some { d with sweep := .walking (TreeWalk.step (listDir d.host.tree) ⟨dir :: rest, out⟩) }
  | .adding current known todo (some call) =>
      let (registered, call) := addStep d.dirs d.registered call
      some { d with registered, sweep := .adding current known todo call }
  | .adding current known (path :: todo) none =>
      if path ∈ known then some { d with sweep := .adding current known todo none }
      else some { d with sweep := .adding current known todo (some ⟨path, .check⟩) }
  | .adding current known [] none => some { d with sweep := .removing current known none }
  | .removing current todo (some path) =>
      some
        { d with
          registered := d.registered.filter fun other => other ≠ path
          sweep := .removing current todo none }
  | .removing current (path :: todo) none =>
      if path ≠ [] ∧ path ∉ current ∧ path ∉ d.dirs then
        some { d with sweep := .removing current todo (some path) }
      else some { d with sweep := .removing current todo none }
  | .removing _ [] none => some { d with sweep := .idle }

def mkdirStep (d : Discovery) (parent : List String) (name : String) : Option Discovery :=
  match d.host.mkdir parent name with
  | none => none
  | some host => some { d with host }

def rmdirStep (d : Discovery) (parent : List String) (name : String) : Option Discovery :=
  match d.host.rmdir parent name with
  | none => none
  | some host => some { d with host }

end Discovery

inductive DiscoveryAction where
  | mkdir (parent : List String) (name : String)
  | rmdir (parent : List String) (name : String)
  | start
  | watcher
  | consumer
  | sweep

namespace Discovery

def step (d : Discovery) : DiscoveryAction → Option Discovery
  | .mkdir parent name => d.mkdirStep parent name
  | .rmdir parent name => d.rmdirStep parent name
  | .start => d.startStep
  | .watcher => d.watcherStep
  | .consumer => d.consumerStep
  | .sweep => d.sweepStep

/-- Registration is over, nobody is busy, and nothing is queued. -/
structure Quiet (d : Discovery) : Prop where
  started : d.start = .done
  watcher : d.host.phase = .running []
  queue : d.host.queue = []
  channel : d.host.channel = []
  consumer : d.consumer = none
  sweep : d.sweep = .idle

def names (d : Discovery) : List String := d.registered.map cgroupName

def Exact (d : Discovery) : Prop :=
  ∀ name, name ∈ d.names ↔ Manager.Wanted d.host.tree.fs name

/-! ## The windows in which a cgroup is lost -/

/-- `start` or the consumer has read the spec and is about to insert. -/
def Inserting (d : Discovery) (path : List String) : Prop :=
  d.start.call = some ⟨path, .insert⟩ ∨ d.consumer = some ⟨path, .insert⟩

instance (d : Discovery) (path : List String) : Decidable (d.Inserting path) :=
  inferInstanceAs (Decidable (_ ∨ _))

/-- Nothing is made in a directory that the initial walk has listed and that is not
watched yet, nor while the sweep is about to remove the name.  Nothing registered is
removed from a directory that is not watched, and nothing while the sweep is about to
insert it.  The watcher does not drop the creation of what is there or the deletion of
what is registered and gone, and does not report the deletion of a directory that
exists again without its creation being queued. -/
def Clear (d : Discovery) : DiscoveryAction → Prop
  | .mkdir parent name =>
      (d.host.tree.ino parent ∈ d.listed → d.host.tree.ino parent ∈ d.host.watched) ∧
        d.sweep.doomed ≠ some (parent ++ [name])
  | .rmdir parent name =>
      (d.host.tree.ino parent ∈ d.host.watched ∨
        (parent ++ [name] ∉ d.registered ∧ ¬ d.Inserting (parent ++ [name]))) ∧
        d.sweep.call ≠ some ⟨parent ++ [name], .insert⟩
  | .watcher =>
      d.host.Tracks ∧
        ∀ x ∈ d.host.missed, x ∉ d.dirs → x ∉ d.registered ∧ ¬ d.Inserting x
  | _ => True

instance (d : Discovery) : ∀ action, Decidable (d.Clear action)
  | .mkdir _ _ => inferInstanceAs (Decidable ((_ → _) ∧ _))
  | .rmdir _ _ => inferInstanceAs (Decidable ((_ ∨ (_ ∧ ¬ _)) ∧ _))
  | .watcher => inferInstanceAs (Decidable (_ ∧ ∀ x ∈ d.host.missed, _ → _ ∧ ¬ _))
  | .start => inferInstanceAs (Decidable True)
  | .consumer => inferInstanceAs (Decidable True)
  | .sweep => inferInstanceAs (Decidable True)

end Discovery

end Cadvisor
