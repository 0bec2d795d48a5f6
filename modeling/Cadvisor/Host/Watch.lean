import Cadvisor.Host.CgroupFs
import Mathlib.Logic.Function.Basic

/-!
# Watching the cgroup tree

Directories are made and removed, and every directory made is an inode of its
own.  inotify watches inodes and queues what is created and deleted in them; a
watch descriptor is given here as the inode it watches.  The watcher registers a
directory and lists it, then does the same for everything it lists, and later for
every creation it is told of.
-/

set_option autoImplicit false

namespace Cadvisor

/-! ## The tree changes -/

namespace CgroupFs

def addDir (fs : CgroupFs) (parent : List String) (name : String) (inTree : parent ∈ fs.dirs)
    (fresh : parent ++ [name] ∉ fs.dirs) (valid : FileName name) : CgroupFs where
  dirs := fs.dirs ++ [parent ++ [name]]
  nodup := by
    refine List.nodup_append.mpr ⟨fs.nodup, List.nodup_singleton _, fun a inDirs b isNew same => ?_⟩
    rw [List.mem_singleton.mp isNew] at same
    exact fresh (same ▸ inDirs)
  rootIn := List.mem_append_left _ fs.rootIn
  closed := by
    intro path entry member
    refine List.mem_append_left _ ?_
    rcases List.mem_append.mp member with isOld | isNew
    · exact fs.closed path entry isOld
    · have same := (List.append_inj' (List.mem_singleton.mp isNew) rfl).1
      exact same ▸ inTree
  named := by
    intro path member entry inPath
    rcases List.mem_append.mp member with isOld | isNew
    · exact fs.named path isOld entry inPath
    · rw [List.mem_singleton.mp isNew] at inPath
      rcases List.mem_append.mp inPath with inParent | isName
      · exact fs.named parent inTree entry inParent
      · exact List.mem_singleton.mp isName ▸ valid
  dir := fs.dir

def removeDir (fs : CgroupFs) (path : List String) (notRoot : path ≠ [])
    (leaf : ∀ name, path ++ [name] ∉ fs.dirs) : CgroupFs where
  dirs := fs.dirs.filter fun dir => dir ≠ path
  nodup := fs.nodup.filter _
  rootIn := List.mem_filter.mpr ⟨fs.rootIn, by simpa using Ne.symm notRoot⟩
  closed := by
    intro parent entry member
    have inDirs := (List.mem_filter.mp member).1
    refine List.mem_filter.mpr ⟨fs.closed parent entry inDirs, ?_⟩
    have notPath : parent ≠ path := fun same => leaf entry (same ▸ inDirs)
    simpa using notPath
  named := fun dir member => fs.named dir (List.mem_filter.mp member).1
  dir := fs.dir

theorem mem_dirs_of_isPrefix (fs : CgroupFs) {front path : List String} (above : front <+: path)
    (member : path ∈ fs.dirs) : front ∈ fs.dirs := by
  obtain ⟨rest, rfl⟩ := above
  induction rest using List.reverseRecOn with
  | nil => simpa using member
  | append_singleton rest name ih =>
      rw [← List.append_assoc] at member
      exact ih (fs.closed _ name member)

end CgroupFs

/-- A tree with its inodes.  `place` tells where an inode was made; no inode
number is given out twice. -/
structure CgroupTree where
  fs : CgroupFs
  ino : List String → Nat
  place : Nat → List String
  nextIno : Nat
  inoBelow : ∀ path ∈ fs.dirs, ino path < nextIno
  placed : ∀ path ∈ fs.dirs, place (ino path) = path

namespace CgroupTree

def dirs (t : CgroupTree) : List (List String) := t.fs.dirs

def mkdir (t : CgroupTree) (parent : List String) (name : String) : Option CgroupTree :=
  if possible : parent ∈ t.fs.dirs ∧ parent ++ [name] ∉ t.fs.dirs ∧ FileName name then
    some
      { fs := t.fs.addDir parent name possible.1 possible.2.1 possible.2.2
        ino := Function.update t.ino (parent ++ [name]) t.nextIno
        place := Function.update t.place t.nextIno (parent ++ [name])
        nextIno := t.nextIno + 1
        inoBelow := by
          intro path member
          rcases List.mem_append.mp member with isOld | isNew
          · have different : path ≠ parent ++ [name] := fun same => possible.2.1 (same ▸ isOld)
            rw [Function.update_of_ne different]
            exact Nat.lt_succ_of_lt (t.inoBelow path isOld)
          · rw [List.mem_singleton.mp isNew, Function.update_self]
            exact Nat.lt_succ_self _
        placed := by
          intro path member
          rcases List.mem_append.mp member with isOld | isNew
          · have different : path ≠ parent ++ [name] := fun same => possible.2.1 (same ▸ isOld)
            rw [Function.update_of_ne different,
              Function.update_of_ne (Nat.ne_of_lt (t.inoBelow path isOld)), t.placed path isOld]
          · rw [List.mem_singleton.mp isNew, Function.update_self, Function.update_self] }
  else none

/-- Only an empty directory can be removed. -/
def rmdir (t : CgroupTree) (parent : List String) (name : String) : Option CgroupTree :=
  if possible : parent ++ [name] ∈ t.fs.dirs ∧ entriesOf t.fs.dirs (parent ++ [name]) = [] then
    some
      { t with
        fs := t.fs.removeDir (parent ++ [name]) (by simp) fun entry member => by
          have listed := (mem_entriesOf _ _ _).mpr member
          rw [possible.2] at listed
          exact absurd listed List.not_mem_nil
        inoBelow := fun path member => t.inoBelow path (List.mem_filter.mp member).1
        placed := fun path member => t.placed path (List.mem_filter.mp member).1 }
  else none

/-- What `mkdir` changes. -/
structure Made (t : CgroupTree) (parent : List String) (name : String) (next : CgroupTree) :
    Prop where
  parentIn : parent ∈ t.dirs
  fresh : parent ++ [name] ∉ t.dirs
  mem_dirs : ∀ x, x ∈ next.dirs ↔ x ∈ t.dirs ∨ x = parent ++ [name]
  ino : ∀ x ∈ t.dirs, next.ino x = t.ino x
  place : ∀ i < t.nextIno, next.place i = t.place i
  nextIno : t.nextIno ≤ next.nextIno

theorem mkdir_spec {t next : CgroupTree} {parent : List String} {name : String}
    (made : t.mkdir parent name = some next) : t.Made parent name next := by
  unfold mkdir at made
  split_ifs at made with possible
  cases made
  refine ⟨possible.1, possible.2.1, fun x => ?_, fun x member => ?_, fun i below => ?_,
    Nat.le_succ _⟩
  · simp only [dirs, CgroupFs.addDir, List.mem_append, List.mem_singleton]
  · have different : x ≠ parent ++ [name] := fun same => possible.2.1 (same ▸ member)
    exact Function.update_of_ne different _ _
  · exact Function.update_of_ne (Nat.ne_of_lt below) _ _

/-- What `rmdir` changes. -/
structure Dropped (t : CgroupTree) (parent : List String) (name : String) (next : CgroupTree) :
    Prop where
  wasIn : parent ++ [name] ∈ t.dirs
  mem_dirs : ∀ x, x ∈ next.dirs ↔ x ∈ t.dirs ∧ x ≠ parent ++ [name]
  ino : next.ino = t.ino
  place : next.place = t.place
  nextIno : next.nextIno = t.nextIno

theorem rmdir_spec {t next : CgroupTree} {parent : List String} {name : String}
    (dropped : t.rmdir parent name = some next) : t.Dropped parent name next := by
  unfold rmdir at dropped
  split_ifs at dropped with possible
  cases dropped
  refine ⟨possible.1, fun x => ?_, rfl, rfl, rfl⟩
  simp only [dirs, CgroupFs.removeDir, List.mem_filter, decide_eq_true_eq]

theorem Dropped.parentIn {t next : CgroupTree} {parent : List String} {name : String}
    (dropped : t.Dropped parent name next) : parent ∈ t.dirs :=
  t.fs.closed parent name dropped.wasIn

end CgroupTree

/-! ## The watcher -/

structure InotifyEvent where
  wd : Nat
  /-- `CREATE`, else `DELETE`; cgroups are never moved. -/
  created : Bool
  name : String

inductive CgroupEvent where
  | added (path : List String)
  | removed (path : List String)

/-- What is left to do of the calls of `watch_dir`. -/
inductive WatchTask where
  | watch (dir : List String)
  | scan (dir : List String)

/-- The calls will come by `x`, if `x` is there. -/
def WatchTask.Reaches (x : List String) : WatchTask → Prop
  | .watch dir => dir <+: x
  | .scan dir => dir <+: x ∧ dir ≠ x

inductive WatcherPhase where
  | off
  | registering (tasks : List WatchTask)
  | running (tasks : List WatchTask)

/-- The tree, inotify, the watcher thread, and the channel it feeds. -/
structure WatchState where
  tree : CgroupTree
  watched : List Nat
  queue : List InotifyEvent
  table : Nat → Option (List String)
  phase : WatcherPhase
  channel : List CgroupEvent

namespace WatchState

def «start» (tree : CgroupTree) : WatchState := ⟨tree, [], [], fun _ => none, .off, []⟩

def notice (w : WatchState) (parent : List String) (created : Bool) (name : String) :
    List InotifyEvent :=
  if w.tree.ino parent ∈ w.watched then [⟨w.tree.ino parent, created, name⟩] else []

def mkdir (w : WatchState) (parent : List String) (name : String) : Option WatchState :=
  match w.tree.mkdir parent name with
  | none => none
  | some tree => some { w with tree, queue := w.queue ++ w.notice parent true name }

def rmdir (w : WatchState) (parent : List String) (name : String) : Option WatchState :=
  match w.tree.rmdir parent name with
  | none => none
  | some tree => some { w with tree, queue := w.queue ++ w.notice parent false name }

/-- `watch_dir` up to its listing, or the listing, which leaves calls to be made. -/
def runTask (w : WatchState) (emit : Bool) : WatchTask → WatchState × List WatchTask
  | .watch dir =>
      if dir ∈ w.tree.dirs then
        ({ w with
            watched := w.tree.ino dir :: w.watched
            table := Function.update w.table (w.tree.ino dir) (some dir)
            channel := w.channel ++ if emit then [.added dir] else [] },
          [.scan dir])
      else (w, [])
  | .scan dir =>
      if dir ∈ w.tree.dirs then
        (w, (entriesOf w.tree.dirs dir).map fun entry => .watch (dir ++ [entry]))
      else (w, [])

def handle (w : WatchState) (event : InotifyEvent) : WatchState :=
  match w.table event.wd with
  | none => w
  | some parent =>
      let path := parent ++ [event.name]
      if event.created then { w with phase := .running [.watch path] }
      else
        { w with
          channel := w.channel ++ [.removed path]
          table := fun wd => if w.table wd = some path then none else w.table wd }

/-- The thread's next action: registration does not emit, later calls do. -/
def step (w : WatchState) : Option WatchState :=
  match w.phase with
  | .off => none
  | .registering [] => some { w with phase := .running [] }
  | .registering (task :: rest) =>
      let (next, calls) := w.runTask false task
      some { next with phase := .registering (calls ++ rest) }
  | .running (task :: rest) =>
      let (next, calls) := w.runTask true task
      some { next with phase := .running (calls ++ rest) }
  | .running [] =>
      match w.queue with
      | [] => none
      | event :: queue => some ({ w with queue }.handle event)

/-! ## What is on its way -/

def pathOf (w : WatchState) (event : InotifyEvent) : List String :=
  w.tree.place event.wd ++ [event.name]

def emitting (w : WatchState) : List WatchTask :=
  match w.phase with
  | .running tasks => tasks
  | _ => []

def Live (w : WatchState) (event : InotifyEvent) : Prop :=
  w.tree.place event.wd ∈ w.tree.dirs ∧ w.tree.ino (w.tree.place event.wd) = event.wd

instance (w : WatchState) (event : InotifyEvent) : Decidable (w.Live event) :=
  inferInstanceAs (Decidable (_ ∧ _))

/-- A creation that leads to `x`. -/
def LeadsTo (w : WatchState) (event : InotifyEvent) (x : List String) : Prop :=
  event.created = true ∧ w.Live event ∧ w.pathOf event <+: x

instance (w : WatchState) (event : InotifyEvent) (x : List String) :
    Decidable (w.LeadsTo event x) :=
  inferInstanceAs (Decidable (_ ∧ _ ∧ _))

/-- The watcher is going to come by `x` and report it. -/
def Coming (w : WatchState) (x : List String) : Prop :=
  (∃ task ∈ w.emitting, task.Reaches x) ∨ ∃ event ∈ w.queue, w.LeadsTo event x

/-- The removal of `x` is queued. -/
def Going (w : WatchState) (x : List String) : Prop :=
  ∃ event ∈ w.queue, event.created = false ∧ w.pathOf event = x

/-- Descriptors name places for good. -/
structure Consistent (w : WatchState) : Prop where
  queueBelow : ∀ event ∈ w.queue, event.wd < w.tree.nextIno
  tablePlaces : ∀ wd path, w.table wd = some path →
    wd < w.tree.nextIno ∧ w.tree.place wd = path

/-- A creation about to be taken is from a known directory, if it is live; and behind
a deletion that is going to be reported and whose directory exists again, a creation
that leads there is queued. -/
def Tracks (w : WatchState) : Prop :=
  match w.phase, w.queue with
  | .running [], event :: rest =>
      if w.table event.wd = none then event.created = true → ¬ w.Live event
      else event.created = false → w.pathOf event ∈ w.tree.dirs →
        ∃ later ∈ rest, w.LeadsTo later (w.pathOf event)
  | _, _ => True

/-- The deletion about to be taken, if its descriptor is not in the table. -/
def missed (w : WatchState) : Option (List String) :=
  match w.phase, w.queue with
  | .running [], event :: _ =>
      if w.table event.wd = none ∧ event.created = false then some (w.pathOf event) else none
  | _, _ => none

instance (w : WatchState) : Decidable w.Tracks := by
  unfold Tracks
  split
  · infer_instance
  · infer_instance

theorem reaches_mono {x y : List String} {task : WatchTask} (reaches : task.Reaches x)
    (below : x <+: y) : task.Reaches y := by
  cases task with
  | watch dir => exact List.IsPrefix.trans reaches below
  | scan dir =>
      obtain ⟨above, different⟩ := reaches
      refine ⟨above.trans below, fun same => different ?_⟩
      exact above.eq_of_length_le (same ▸ below.length_le)

theorem Coming.mono {w : WatchState} {x y : List String} (coming : w.Coming x)
    (below : x <+: y) : w.Coming y := by
  rcases coming with ⟨task, inTasks, reaches⟩ | ⟨event, inQueue, created, live, above⟩
  · exact Or.inl ⟨task, inTasks, reaches_mono reaches below⟩
  · exact Or.inr ⟨event, inQueue, created, live, above.trans below⟩

theorem LeadsTo.of_tree {w next : WatchState} {event : InotifyEvent} {x : List String}
    (leads : w.LeadsTo event x) (tree : next.tree = w.tree) : next.LeadsTo event x := by
  unfold LeadsTo Live pathOf at leads ⊢
  rw [tree]
  exact leads

theorem Going.of_tree {w next : WatchState} {x : List String} (going : w.Going x)
    (tree : next.tree = w.tree) (queue : next.queue = w.queue) : next.Going x := by
  unfold Going pathOf at going ⊢
  rw [tree, queue]
  exact going

/-! ## Steps of the environment -/

theorem notice_wd {w : WatchState} {parent : List String} {created : Bool} {name : String}
    {event : InotifyEvent} (member : event ∈ w.notice parent created name) :
    event.wd = w.tree.ino parent := by
  unfold notice at member
  split_ifs at member
  · rw [List.mem_singleton.mp member]
  · exact absurd member List.not_mem_nil

theorem Consistent.noticeBelow {w : WatchState} (consistent : w.Consistent)
    {parent : List String} (parentIn : parent ∈ w.tree.dirs) (created : Bool) (name : String) :
    ∀ event ∈ w.queue ++ w.notice parent created name, event.wd < w.tree.nextIno := by
  intro event member
  rcases List.mem_append.mp member with isOld | isNew
  · exact consistent.queueBelow event isOld
  · rw [notice_wd isNew]
    exact w.tree.inoBelow parent parentIn

/-- What a change of the tree does to the watcher's side. -/
structure EnvStep (w : WatchState) (parent : List String) (name : String) (created : Bool)
    (next : WatchState) : Prop where
  watched : next.watched = w.watched
  table : next.table = w.table
  phase : next.phase = w.phase
  channel : next.channel = w.channel
  queue : next.queue = w.queue ++ w.notice parent created name
  place : ∀ event ∈ next.queue, next.tree.place event.wd = w.tree.place event.wd
  ino : ∀ x ∈ next.tree.dirs, x ∈ w.tree.dirs → next.tree.ino x = w.tree.ino x
  parentPlace : w.tree.place (w.tree.ino parent) = parent
  consistent : w.Consistent → next.Consistent

theorem EnvStep.pathOf {w next : WatchState} {parent : List String} {name : String}
    {created : Bool} (env : w.EnvStep parent name created next) {event : InotifyEvent}
    (queued : event ∈ next.queue) : next.pathOf event = w.pathOf event :=
  congrArg (· ++ [event.name]) (env.place event queued)

theorem EnvStep.coming {w next : WatchState} {parent : List String} {name : String}
    {created : Bool} (env : w.EnvStep parent name created next) {x : List String}
    (inDirs : x ∈ next.tree.dirs) (coming : w.Coming x) : next.Coming x := by
  rcases coming with inTasks | ⟨event, inQueue, made, live, above⟩
  · left
    unfold emitting at inTasks ⊢
    rw [env.phase]
    exact inTasks
  · have kept : event ∈ next.queue := env.queue ▸ List.mem_append_left _ inQueue
    have leads : next.pathOf event <+: x := env.pathOf kept ▸ above
    -- What is above `x` is still there.
    have stays : w.tree.place event.wd ∈ next.tree.dirs :=
      next.tree.fs.mem_dirs_of_isPrefix ((List.prefix_append _ _).trans above) inDirs
    refine Or.inr ⟨event, kept, made, ⟨?_, ?_⟩, leads⟩
    · rw [env.place event kept]
      exact stays
    · rw [env.place event kept, env.ino _ stays live.1]
      exact live.2

theorem EnvStep.going {w next : WatchState} {parent : List String} {name : String}
    {created : Bool} (env : w.EnvStep parent name created next) {x : List String}
    (going : w.Going x) : next.Going x := by
  obtain ⟨event, inQueue, deleted, about⟩ := going
  have kept : event ∈ next.queue := env.queue ▸ List.mem_append_left _ inQueue
  exact ⟨event, kept, deleted, env.pathOf kept ▸ about⟩

theorem EnvStep.noticed {w next : WatchState} {parent : List String} {name : String}
    {created : Bool} (env : w.EnvStep parent name created next)
    (isWatched : w.tree.ino parent ∈ w.watched) :
    ∃ event ∈ next.queue, event.created = created ∧ next.tree.place event.wd = parent ∧
      event.wd = w.tree.ino parent ∧ event.name = name := by
  have queued : ⟨w.tree.ino parent, created, name⟩ ∈ next.queue := by
    rw [env.queue, notice, if_pos isWatched]
    exact List.mem_append_right _ (List.mem_singleton.mpr rfl)
  exact ⟨_, queued, rfl, (env.place _ queued).trans env.parentPlace, rfl, rfl⟩

theorem mkdir_spec {w next : WatchState} {parent : List String} {name : String}
    (consistent : w.Consistent) (made : w.mkdir parent name = some next) :
    w.tree.Made parent name next.tree ∧ w.EnvStep parent name true next := by
  unfold mkdir at made
  split at made
  · cases made
  · rename_i tree treeMade
    cases made
    have spec := CgroupTree.mkdir_spec treeMade
    have parentPlace := w.tree.placed parent spec.parentIn
    have below := consistent.noticeBelow spec.parentIn true name
    refine ⟨spec, rfl, rfl, rfl, rfl, rfl, fun event member => ?_, fun x _ isOld => ?_,
      parentPlace, fun _ => ?_⟩
    · exact spec.place _ (below event member)
    · exact spec.ino x isOld
    · refine ⟨fun event member => Nat.lt_of_lt_of_le (below event member) spec.nextIno, ?_⟩
      intro wd path found
      obtain ⟨wdBelow, placeIs⟩ := consistent.tablePlaces wd path found
      exact ⟨Nat.lt_of_lt_of_le wdBelow spec.nextIno, (spec.place wd wdBelow).trans placeIs⟩

theorem rmdir_spec {w next : WatchState} {parent : List String} {name : String}
    (removed : w.rmdir parent name = some next) :
    w.tree.Dropped parent name next.tree ∧ w.EnvStep parent name false next := by
  unfold rmdir at removed
  split at removed
  · cases removed
  · rename_i tree treeDropped
    cases removed
    have spec := CgroupTree.rmdir_spec treeDropped
    have parentPlace := w.tree.placed parent spec.parentIn
    refine ⟨spec, rfl, rfl, rfl, rfl, rfl, fun event _ => ?_, fun x _ _ => ?_, parentPlace,
      fun consistent => ?_⟩
    · exact congrFun spec.place event.wd
    · exact congrFun spec.ino x
    · refine ⟨fun event member => ?_, fun wd path found => ?_⟩
      · rw [spec.nextIno]
        exact consistent.noticeBelow spec.parentIn false name event member
      · rw [spec.nextIno, spec.place]
        exact consistent.tablePlaces wd path found

/-! ## Steps of the watcher -/

/-- What an action of the watcher leaves: it sends at most one event; where it was
coming by, it still is, or has been; a queued deletion is still queued, or sent, or
missed; and what it reports as removed and exists, it will come by. -/
structure WatcherStep (w next : WatchState) (news : List CgroupEvent) : Prop where
  tree : next.tree = w.tree
  watched : ∀ i ∈ w.watched, i ∈ next.watched
  channel : next.channel = w.channel ++ news
  short : news = [] ∨ ∃ event, news = [event]
  coming : ∀ x ∈ w.tree.dirs, w.Coming x →
    next.Coming x ∨ (.added x ∈ news ∧ w.tree.ino x ∈ next.watched)
  going : ∀ x, w.Going x → next.Going x ∨ .removed x ∈ news ∨ w.missed = some x
  revived : ∀ x ∈ w.tree.dirs, .removed x ∈ news → next.Coming x
  consistent : next.Consistent

/-- What one task leaves: the tree and the queue as they are, and for what it reaches
either a further call or, once registered, the event. -/
structure TaskStep (w : WatchState) (emit : Bool) (task : WatchTask) (next : WatchState)
    (calls : List WatchTask) (news : List CgroupEvent) : Prop where
  tree : next.tree = w.tree
  queue : next.queue = w.queue
  watched : ∀ i ∈ w.watched, i ∈ next.watched
  channel : next.channel = w.channel ++ news
  short : news = [] ∨ ∃ path, news = [.added path]
  reached : emit = true → ∀ x ∈ w.tree.dirs, task.Reaches x →
    (∃ call ∈ calls, call.Reaches x) ∨ (.added x ∈ news ∧ w.tree.ino x ∈ next.watched)
  consistent : next.Consistent

theorem scan_reaches (t : CgroupTree) {dir x : List String} (member : x ∈ t.dirs)
    (above : dir <+: x) (different : dir ≠ x) :
    ∃ entry ∈ entriesOf t.dirs dir, dir ++ [entry] <+: x := by
  obtain ⟨rest, rfl⟩ := above
  cases rest with
  | nil => exact absurd (List.append_nil dir).symm different
  | cons entry rest =>
      have onTheWay : dir ++ [entry] <+: dir ++ entry :: rest := ⟨rest, by simp⟩
      have exists' := t.fs.mem_dirs_of_isPrefix onTheWay member
      exact ⟨entry, (mem_entriesOf _ _ _).mpr exists', onTheWay⟩

theorem runTask_watch (w : WatchState) (emit : Bool) {dir : List String}
    (live : dir ∈ w.tree.dirs) :
    w.runTask emit (.watch dir) =
      ({ w with
          watched := w.tree.ino dir :: w.watched
          table := Function.update w.table (w.tree.ino dir) (some dir)
          channel := w.channel ++ if emit then [.added dir] else [] },
        [.scan dir]) :=
  if_pos live

theorem runTask_scan (w : WatchState) (emit : Bool) {dir : List String}
    (live : dir ∈ w.tree.dirs) :
    w.runTask emit (.scan dir) =
      (w, (entriesOf w.tree.dirs dir).map fun entry => .watch (dir ++ [entry])) :=
  if_pos live

theorem runTask_spec {w : WatchState} (consistent : w.Consistent) (emit : Bool)
    (task : WatchTask) :
    ∃ news, w.TaskStep emit task (w.runTask emit task).1 (w.runTask emit task).2 news := by
  have idle : ∀ {dir : List String}, dir ∉ w.tree.dirs → (∀ x, task.Reaches x → dir <+: x) →
      w.TaskStep emit task w [] [] := by
    intro dir gone needs
    refine ⟨rfl, rfl, fun _ member => member, (List.append_nil _).symm, Or.inl rfl, ?_, consistent⟩
    intro _ x member reaches
    exact absurd (w.tree.fs.mem_dirs_of_isPrefix (needs x reaches) member) gone
  cases task with
  | watch dir =>
      by_cases live : dir ∈ w.tree.dirs
      · rw [runTask_watch w emit live]
        refine ⟨if emit then [.added dir] else [], rfl, rfl,
          fun i member => List.mem_cons_of_mem _ member, rfl, ?_, ?_, consistent.queueBelow, ?_⟩
        · cases emit with
          | false => exact Or.inl rfl
          | true => exact Or.inr ⟨dir, rfl⟩
        · intro emits x member above
          by_cases same : dir = x
          · subst same
            rw [if_pos emits]
            exact Or.inr ⟨List.mem_singleton.mpr rfl, List.mem_cons_self ..⟩
          · exact Or.inl ⟨.scan dir, List.mem_singleton.mpr rfl, above, same⟩
        · intro wd path found
          dsimp only at found
          by_cases isNew : wd = w.tree.ino dir
          · subst isNew
            rw [Function.update_self, Option.some.injEq] at found
            subst found
            exact ⟨w.tree.inoBelow dir live, w.tree.placed dir live⟩
          · rw [Function.update_of_ne isNew] at found
            exact consistent.tablePlaces wd path found
      · have skips : w.runTask emit (.watch dir) = (w, []) := if_neg live
        rw [skips]
        exact ⟨[], idle live fun _ above => above⟩
  | scan dir =>
      by_cases live : dir ∈ w.tree.dirs
      · rw [runTask_scan w emit live]
        refine ⟨[], rfl, rfl, fun _ member => member, (List.append_nil _).symm, Or.inl rfl, ?_,
          consistent⟩
        intro _ x member reaches
        obtain ⟨entry, listed, onTheWay⟩ := scan_reaches w.tree member reaches.1 reaches.2
        exact Or.inl ⟨.watch (dir ++ [entry]), List.mem_map_of_mem listed, onTheWay⟩
      · have skips : w.runTask emit (.scan dir) = (w, []) := if_neg live
        rw [skips]
        exact ⟨[], idle live fun _ reaches => reaches.1⟩

theorem not_removed_of_short {news : List CgroupEvent}
    (short : news = [] ∨ ∃ path, news = [.added path]) (x : List String) :
    .removed x ∉ news := by
  rcases short with none | ⟨path, one⟩
  · simp [none]
  · simp [one]

theorem registering_step {w next : WatchState} {task : WatchTask} {rest calls : List WatchTask}
    {news : List CgroupEvent} (ran : w.TaskStep false task next calls news)
    (phase : w.phase = .registering (task :: rest)) :
    w.WatcherStep { next with phase := .registering (calls ++ rest) } news := by
  have coming : ∀ x, w.Coming x →
      Coming { next with phase := .registering (calls ++ rest) } x := by
    intro x coming
    rcases coming with ⟨task', inTasks, _⟩ | ⟨event, inQueue, leads⟩
    · rw [emitting, phase] at inTasks
      exact absurd inTasks List.not_mem_nil
    · exact Or.inr ⟨event, ran.queue.symm ▸ inQueue, leads.of_tree ran.tree⟩
  refine ⟨ran.tree, ran.watched, ran.channel, ?_, fun x _ isComing => Or.inl (coming x isComing),
    ?_, ?_, ⟨ran.consistent.queueBelow, ran.consistent.tablePlaces⟩⟩
  · exact ran.short.imp id fun one => ⟨_, one.choose_spec⟩
  · exact fun x going => Or.inl (going.of_tree ran.tree ran.queue)
  · exact fun x _ isNews => absurd isNews (not_removed_of_short ran.short x)

theorem running_step {w next : WatchState} {task : WatchTask} {rest calls : List WatchTask}
    {news : List CgroupEvent} (ran : w.TaskStep true task next calls news)
    (phase : w.phase = .running (task :: rest)) :
    w.WatcherStep { next with phase := .running (calls ++ rest) } news := by
  refine ⟨ran.tree, ran.watched, ran.channel, ?_, ?_, ?_, ?_,
    ⟨ran.consistent.queueBelow, ran.consistent.tablePlaces⟩⟩
  · exact ran.short.imp id fun one => ⟨_, one.choose_spec⟩
  · intro x member coming
    rcases coming with ⟨task', inTasks, reaches⟩ | ⟨event, inQueue, leads⟩
    · rw [emitting, phase] at inTasks
      rcases List.mem_cons.mp inTasks with isTask | inRest
      · rcases ran.reached rfl x member (isTask ▸ reaches) with ⟨call, inCalls, further⟩ | told
        · exact Or.inl (Or.inl ⟨call, List.mem_append_left _ inCalls, further⟩)
        · exact Or.inr told
      · exact Or.inl (Or.inl ⟨task', List.mem_append_right _ inRest, reaches⟩)
    · exact Or.inl (Or.inr ⟨event, ran.queue.symm ▸ inQueue, leads.of_tree ran.tree⟩)
  · exact fun x going => Or.inl (going.of_tree ran.tree ran.queue)
  · exact fun x _ isNews => absurd isNews (not_removed_of_short ran.short x)

theorem coming_cases {w : WatchState} {event : InotifyEvent} {queue : List InotifyEvent}
    (phase : w.phase = .running []) (queueIs : w.queue = event :: queue) {x : List String}
    (coming : w.Coming x) : w.LeadsTo event x ∨ ∃ e ∈ queue, w.LeadsTo e x := by
  rcases coming with ⟨task, inTasks, _⟩ | ⟨e, inQueue, leads⟩
  · rw [emitting, phase] at inTasks
    exact absurd inTasks List.not_mem_nil
  · rw [queueIs] at inQueue
    rcases List.mem_cons.mp inQueue with isFirst | later
    · exact Or.inl (isFirst ▸ leads)
    · exact Or.inr ⟨e, later, leads⟩

theorem going_cases {w : WatchState} {event : InotifyEvent} {queue : List InotifyEvent}
    (queueIs : w.queue = event :: queue) {x : List String} (going : w.Going x) :
    (event.created = false ∧ w.pathOf event = x) ∨
      ∃ e ∈ queue, e.created = false ∧ w.pathOf e = x := by
  obtain ⟨e, inQueue, deleted, about⟩ := going
  rw [queueIs] at inQueue
  rcases List.mem_cons.mp inQueue with isFirst | later
  · exact Or.inl (isFirst ▸ ⟨deleted, about⟩)
  · exact Or.inr ⟨e, later, deleted, about⟩

theorem rest_below {w : WatchState} {event : InotifyEvent} {queue : List InotifyEvent}
    (consistent : w.Consistent) (queueIs : w.queue = event :: queue) :
    ∀ e ∈ queue, e.wd < w.tree.nextIno := fun e member =>
  consistent.queueBelow e (queueIs ▸ List.mem_cons_of_mem _ member)

theorem drop_step {w : WatchState} {event : InotifyEvent} {queue : List InotifyEvent}
    (consistent : w.Consistent) (phase : w.phase = .running []) (queueIs : w.queue = event :: queue)
    (tracks : w.Tracks) (unknown : w.table event.wd = none) :
    w.WatcherStep { w with queue } [] := by
  unfold Tracks at tracks
  rw [phase, queueIs] at tracks
  dsimp only at tracks
  rw [if_pos unknown] at tracks
  have restBelow := rest_below consistent queueIs
  refine ⟨rfl, fun _ member => member, (List.append_nil _).symm, Or.inl rfl, ?_, ?_, ?_,
    ⟨restBelow, consistent.tablePlaces⟩⟩
  · intro x _ coming
    rcases coming_cases phase queueIs coming with ⟨created, live, _⟩ | later
    · exact absurd live (tracks created)
    · exact Or.inl (Or.inr later)
  · intro x going
    rcases going_cases queueIs going with ⟨deleted, about⟩ | later
    · right
      right
      unfold missed
      rw [phase, queueIs]
      exact (if_pos ⟨unknown, deleted⟩).trans (congrArg some about)
    · exact Or.inl later
  · exact fun x _ isNews => absurd isNews List.not_mem_nil

theorem handle_step {w : WatchState} {event : InotifyEvent} {queue : List InotifyEvent}
    (consistent : w.Consistent) (phase : w.phase = .running []) (queueIs : w.queue = event :: queue)
    (tracks : w.Tracks) :
    ∃ news, w.WatcherStep ({ w with queue }.handle event) news := by
  by_cases unknown : w.table event.wd = none
  · unfold handle
    simp only [unknown]
    exact ⟨[], drop_step consistent phase queueIs tracks unknown⟩
  unfold Tracks at tracks
  rw [phase, queueIs] at tracks
  dsimp only at tracks
  rw [if_neg unknown] at tracks
  obtain ⟨parent, found⟩ := Option.ne_none_iff_exists'.mp unknown
  have path : parent ++ [event.name] = w.pathOf event := by
    rw [pathOf, (consistent.tablePlaces event.wd parent found).2]
  have restBelow := rest_below consistent queueIs
  unfold handle
  simp only [found, path]
  cases kind : event.created with
  | true =>
      rw [if_pos rfl]
      refine ⟨[], rfl, fun _ member => member, (List.append_nil _).symm, Or.inl rfl, ?_, ?_, ?_,
        ⟨restBelow, consistent.tablePlaces⟩⟩
      · intro x _ coming
        rcases coming_cases phase queueIs coming with ⟨_, _, above⟩ | later
        · exact Or.inl (Or.inl ⟨_, List.mem_singleton.mpr rfl, above⟩)
        · exact Or.inl (Or.inr later)
      · intro x going
        rcases going_cases queueIs going with ⟨deleted, _⟩ | later
        · exact absurd deleted (by simp [kind])
        · exact Or.inl later
      · exact fun x _ isNews => absurd isNews List.not_mem_nil
  | false =>
      rw [if_neg Bool.false_ne_true]
      refine ⟨[.removed (w.pathOf event)], rfl, fun _ member => member, rfl, Or.inr ⟨_, rfl⟩,
        ?_, ?_, ?_, ⟨restBelow, ?_⟩⟩
      · intro x _ coming
        rcases coming_cases phase queueIs coming with ⟨created, _⟩ | later
        · exact absurd created (by simp [kind])
        · exact Or.inl (Or.inr later)
      · intro x going
        rcases going_cases queueIs going with ⟨_, about⟩ | later
        · exact Or.inr (Or.inl (about ▸ List.mem_singleton.mpr rfl))
        · exact Or.inl later
      · intro x member isNews
        have isPath : x = w.pathOf event := by simpa using isNews
        subst isPath
        exact Or.inr (tracks kind member)
      · intro wd path stays
        dsimp only at stays
        split_ifs at stays
        exact consistent.tablePlaces wd path stays

theorem step_spec {w next : WatchState} (consistent : w.Consistent) (tracks : w.Tracks)
    (stepped : w.step = some next) : ∃ news, w.WatcherStep next news := by
  unfold step at stepped
  split at stepped
  · cases stepped
  · rename_i phase
    cases stepped
    refine ⟨[], rfl, fun _ member => member, (List.append_nil _).symm, Or.inl rfl, ?_,
      fun _ going => Or.inl going, fun x _ isNews => absurd isNews List.not_mem_nil,
      ⟨consistent.queueBelow, consistent.tablePlaces⟩⟩
    intro x _ coming
    rcases coming with ⟨task, inTasks, _⟩ | queued
    · rw [emitting, phase] at inTasks
      exact absurd inTasks List.not_mem_nil
    · exact Or.inl (Or.inr queued)
  · rename_i task rest phase
    cases stepped
    obtain ⟨news, ran⟩ := runTask_spec consistent false task
    exact ⟨news, registering_step ran phase⟩
  · rename_i task rest phase
    cases stepped
    obtain ⟨news, ran⟩ := runTask_spec consistent true task
    exact ⟨news, running_step ran phase⟩
  · rename_i phase
    split at stepped
    · cases stepped
    · rename_i event queue queueIs
      cases stepped
      exact handle_step consistent phase queueIs tracks

end WatchState

end Cadvisor
