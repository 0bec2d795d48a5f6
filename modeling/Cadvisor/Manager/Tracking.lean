import Cadvisor.Manager.Discovery

/-!
# What discovery keeps track of

As long as every action stays out of the windows, each cgroup that exists is
registered or on its way to be, and each one that is registered and gone is on its
way out.  When everything is quiet, nothing is on any way.
-/

set_option autoImplicit false

namespace Cadvisor

/-! ## One stage of `add_container` -/

/-- Past the first stage, the name is no mount unit. -/
def AddCall.Plain (call : AddCall) : Prop := call.stage ≠ .check → isMount call.path = false

structure AddEffect (dirs registered : List (List String)) (call : AddCall)
    (after : List (List String)) (next : Option AddCall) : Prop where
  grows : ∀ x ∈ registered, x ∈ after
  onlyNew : ∀ x ∈ after, x ∈ registered ∨ call = ⟨x, .insert⟩
  inserts : ∀ x, next = some ⟨x, .insert⟩ → x ∈ dirs
  plain : call.Plain → ∀ c, next = some c → c.Plain
  arrives : call.path ∈ dirs → isMount call.path = false →
    call.path ∈ after ∨ ∃ stage, next = some ⟨call.path, stage⟩

theorem addStep_effect (dirs registered : List (List String)) (call : AddCall) :
    AddEffect dirs registered call (addStep dirs registered call).1
      (addStep dirs registered call).2 := by
  obtain ⟨path, stage⟩ := call
  cases stage with
  | check =>
      unfold addStep
      dsimp only
      split_ifs with skip
      · refine ⟨fun _ member => member, fun _ member => Or.inl member, nofun, nofun, ?_⟩
        intro _ notMount
        rcases skip with mount | known
        · exact absurd mount (by simp [notMount])
        · exact Or.inl known
      · obtain ⟨notMount, _⟩ := not_or.mp skip
        refine ⟨fun _ member => member, fun _ member => Or.inl member, ?_, ?_, ?_⟩
        · intro x isNext
          cases isNext
        · intro _ c isNext _
          cases isNext
          simpa using notMount
        · exact fun _ _ => Or.inr ⟨.read, rfl⟩
  | read =>
      unfold addStep
      dsimp only
      split_ifs with live
      · refine ⟨fun _ member => member, fun _ member => Or.inl member, ?_, ?_, ?_⟩
        · intro x isNext
          cases isNext
          exact live
        · intro plain c isNext _
          cases isNext
          exact plain nofun
        · exact fun _ _ => Or.inr ⟨.insert, rfl⟩
      · exact ⟨fun _ member => member, fun _ member => Or.inl member, nofun, nofun,
          fun inDirs _ => absurd inDirs live⟩
  | insert =>
      unfold addStep
      dsimp only
      split_ifs with known
      · exact ⟨fun _ member => member, fun _ member => Or.inl member, nofun, nofun,
          fun _ _ => Or.inl known⟩
      · refine ⟨fun _ member => List.mem_cons_of_mem _ member, ?_, nofun, nofun,
          fun _ _ => Or.inl (List.mem_cons_self ..)⟩
        intro x member
        rcases List.mem_cons.mp member with isNew | isOld
        · exact Or.inr (by rw [isNew])
        · exact Or.inl isOld

/-! ## What the channel comes to -/

/-- Whether `x` holds once the channel is drained, if `now` says whether it does already. -/
def settles (x : List String) : List CgroupEvent → Prop → Prop
  | [], now => now
  | .added path :: rest, now => settles x rest (now ∨ path = x)
  | .removed path :: rest, now => settles x rest (now ∧ path ≠ x)

theorem settles_mono {x : List String} {channel : List CgroupEvent} {p q : Prop} (imp : p → q)
    (settled : settles x channel p) : settles x channel q := by
  induction channel generalizing p q with
  | nil => exact imp settled
  | cons event rest ih =>
      cases event with
      | added path => exact ih (Or.imp_left imp) settled
      | removed path => exact ih (And.imp_left imp) settled

theorem settles_of_not_removed {x : List String} {channel : List CgroupEvent} {now : Prop}
    (kept : .removed x ∉ channel) (holds : now ∨ .added x ∈ channel) : settles x channel now := by
  induction channel generalizing now with
  | nil => exact holds.resolve_right List.not_mem_nil
  | cons event rest ih =>
      have keptRest : .removed x ∉ rest := fun later => kept (List.mem_cons_of_mem _ later)
      cases event with
      | added path =>
          refine ih keptRest (holds.elim (fun already => Or.inl (Or.inl already)) fun told => ?_)
          rcases List.mem_cons.mp told with isIt | later
          · exact Or.inl (Or.inr (CgroupEvent.added.inj isIt).symm)
          · exact Or.inr later
      | removed path =>
          have differs : path ≠ x := by
            rintro rfl
            exact kept (List.mem_cons_self ..)
          refine ih keptRest (holds.imp (fun already => ⟨already, differs⟩) fun told => ?_)
          exact (List.mem_cons.mp told).resolve_left (fun impossible => by cases impossible)

theorem settles_append (x : List String) (front back : List CgroupEvent) (now : Prop) :
    settles x (front ++ back) now = settles x back (settles x front now) := by
  induction front generalizing now with
  | nil => rfl
  | cons event rest ih =>
      cases event with
      | added path => exact ih _
      | removed path => exact ih _

namespace Discovery

/-- Draining the channel leaves `x` registered. -/
def WillHave (d : Discovery) (x : List String) : Prop :=
  settles x d.host.channel (x ∈ d.registered ∨ ∃ stage, d.consumer = some ⟨x, stage⟩)

/-- `start` is going to add `x`, if it stays. -/
def StartAdds (d : Discovery) (x : List String) : Prop :=
  match d.start with
  | .walking walk => x ∈ walk.out ∨ ∃ dir ∈ walk.stack, dir <+: x ∧ dir ≠ x
  | .adding todo call => x ∈ todo ∨ ∃ stage, call = some ⟨x, stage⟩
  | .done => False

/-- The initial walk is going to list `x`, if it stays. -/
def StartLists (d : Discovery) (x : List String) : Prop :=
  match d.start with
  | .walking walk => ∃ dir ∈ walk.stack, dir <+: x
  | _ => False

/-- The calls of `add_container` that are under way. -/
def Calling (d : Discovery) (call : AddCall) : Prop :=
  d.start.call = some call ∨ d.consumer = some call ∨ d.sweep.call = some call

structure Tracked (d : Discovery) : Prop where
  consistent : d.host.Consistent
  early : d.start ≠ .done → d.host.phase = .off ∧ d.host.watched = [] ∧ d.host.channel = []
  startInserts : ∀ x, d.start.call = some ⟨x, .insert⟩ → x ∈ d.dirs
  sweepInserts : ∀ x, d.sweep.call = some ⟨x, .insert⟩ → x ∈ d.dirs
  doomed : ∀ x, d.sweep.doomed = some x → x ∉ d.dirs
  noMount : (∀ x ∈ d.registered, isMount x = false) ∧ ∀ call, d.Calling call → call.Plain
  arriving : ∀ x ∈ d.dirs, isMount x = false → d.WillHave x ∨ d.host.Coming x ∨ d.StartAdds x
  leaving : ∀ x ∉ d.dirs, x ∈ d.registered ∨ d.consumer = some ⟨x, .insert⟩ →
    .removed x ∈ d.host.channel ∨ d.host.Going x
  watching : ∀ x ∈ d.dirs, d.host.tree.ino x ∈ d.host.watched ∨ d.host.tree.ino x ∈ d.listed ∨
    d.host.Coming x ∨ d.StartLists x

theorem tracked_init (tree : CgroupTree) : (init tree).Tracked where
  consistent := ⟨fun _ member => absurd member List.not_mem_nil, nofun⟩
  early := fun _ => ⟨rfl, rfl, rfl⟩
  startInserts := nofun
  sweepInserts := nofun
  doomed := nofun
  noMount := ⟨fun _ member => absurd member List.not_mem_nil, by
    intro call calling
    rcases calling with fromStart | fromConsumer | fromSweep
    · cases fromStart
    · cases fromConsumer
    · cases fromSweep⟩
  arriving := by
    intro x _ _
    right
    right
    by_cases isRoot : x = []
    · exact Or.inl (List.mem_singleton.mpr isRoot)
    · exact Or.inr ⟨[], List.mem_singleton.mpr rfl, List.nil_prefix, Ne.symm isRoot⟩
  leaving := by
    intro x _ known
    rcases known with registered | inserting
    · exact absurd registered List.not_mem_nil
    · cases inserting
  watching := fun x _ => Or.inr (Or.inr (Or.inr ⟨[], List.mem_singleton.mpr rfl, List.nil_prefix⟩))

/-! ## The tree changes -/

theorem StartLists.adds {d : Discovery} {parent : List String} (lists : d.StartLists parent)
    (name : String) : d.StartAdds (parent ++ [name]) := by
  unfold StartLists at lists
  unfold StartAdds
  split at lists
  · rename_i walk isWalking
    rw [isWalking]
    obtain ⟨dir, inStack, above⟩ := lists
    refine Or.inr ⟨dir, inStack, above.trans (List.prefix_append parent [name]), fun same => ?_⟩
    have short := above.length_le
    rw [same, List.length_append, List.length_singleton] at short
    omega
  · exact lists.elim

theorem StartLists.mono {d : Discovery} {x y : List String} (lists : d.StartLists x)
    (below : x <+: y) : d.StartLists y := by
  unfold StartLists at lists ⊢
  split at lists
  · obtain ⟨dir, inStack, above⟩ := lists
    exact ⟨dir, inStack, above.trans below⟩
  · exact lists.elim

theorem Tracked.mkdir {d next : Discovery} {parent : List String} {name : String}
    (tracked : d.Tracked) (clear : d.Clear (.mkdir parent name))
    (stepped : d.mkdirStep parent name = some next) : next.Tracked := by
  unfold mkdirStep at stepped
  split at stepped
  · cases stepped
  rename_i host hostMade
  cases stepped
  obtain ⟨made, env⟩ := WatchState.mkdir_spec tracked.consistent hostMade
  have onTheWay : parent <+: parent ++ [name] := List.prefix_append parent [name]
  -- The new directory's parent is watched, or the watcher or the walk comes by.
  have reached : host.Coming (parent ++ [name]) ∨ d.StartLists parent := by
    have noticed : d.host.tree.ino parent ∈ d.host.watched → host.Coming (parent ++ [name]) := by
      intro isWatched
      obtain ⟨event, inQueue, created, place, wd, eventName⟩ := env.noticed isWatched
      have parentIn := (made.mem_dirs parent).mpr (Or.inl made.parentIn)
      refine Or.inr ⟨event, inQueue, created, ⟨?_, ?_⟩, ?_⟩
      · rw [place]
        exact parentIn
      · rw [place, wd]
        exact made.ino parent made.parentIn
      · have target : host.pathOf event = parent ++ [name] := by
          rw [WatchState.pathOf, place, eventName]
        exact target ▸ List.prefix_refl _
    rcases tracked.watching parent made.parentIn with isWatched | isListed | coming | lists
    · exact Or.inl (noticed isWatched)
    · exact Or.inl (noticed (clear.1 isListed))
    · have parentIn := (made.mem_dirs parent).mpr (Or.inl made.parentIn)
      exact Or.inl ((env.coming parentIn coming).mono onTheWay)
    · exact Or.inr lists
  refine ⟨env.consistent tracked.consistent, ?_, ?_, ?_, ?_, tracked.noMount, ?_, ?_, ?_⟩
  · intro notDone
    rw [env.phase, env.watched, env.channel]
    exact tracked.early notDone
  · exact fun x inserting => (made.mem_dirs x).mpr (Or.inl (tracked.startInserts x inserting))
  · exact fun x inserting => (made.mem_dirs x).mpr (Or.inl (tracked.sweepInserts x inserting))
  · intro x isDoomed inDirs
    rcases (made.mem_dirs x).mp inDirs with isOld | isNew
    · exact tracked.doomed x isDoomed isOld
    · exact clear.2 (isNew ▸ isDoomed)
  · intro x inDirs notMount
    rcases (made.mem_dirs x).mp inDirs with isOld | isNew
    · rcases tracked.arriving x isOld notMount with will | coming | adds
      · left
        unfold WillHave at will ⊢
        rw [env.channel]
        exact will
      · exact Or.inr (Or.inl (env.coming inDirs coming))
      · exact Or.inr (Or.inr adds)
    · subst isNew
      exact Or.inr (reached.imp_right fun lists => lists.adds name)
  · intro x gone known
    have wasGone : x ∉ d.dirs := fun isOld => gone ((made.mem_dirs x).mpr (Or.inl isOld))
    rcases tracked.leaving x wasGone known with sent | going
    · exact Or.inl (env.channel ▸ sent)
    · exact Or.inr (env.going going)
  · intro x inDirs
    rcases (made.mem_dirs x).mp inDirs with isOld | isNew
    · rw [made.ino x isOld, env.watched]
      exact (tracked.watching x isOld).imp_right
        (Or.imp_right (Or.imp_left (env.coming inDirs)))
    · subst isNew
      exact Or.inr (Or.inr (reached.imp_right fun lists => lists.mono onTheWay))

theorem Tracked.rmdir {d next : Discovery} {parent : List String} {name : String}
    (tracked : d.Tracked) (clear : d.Clear (.rmdir parent name))
    (stepped : d.rmdirStep parent name = some next) : next.Tracked := by
  unfold rmdirStep at stepped
  split at stepped
  · cases stepped
  rename_i host hostRemoved
  cases stepped
  obtain ⟨dropped, env⟩ := WatchState.rmdir_spec hostRemoved
  refine ⟨env.consistent tracked.consistent, ?_, ?_, ?_, ?_, tracked.noMount, ?_, ?_, ?_⟩
  · intro notDone
    rw [env.phase, env.watched, env.channel]
    exact tracked.early notDone
  · intro x inserting
    refine (dropped.mem_dirs x).mpr ⟨tracked.startInserts x inserting, fun same => ?_⟩
    subst same
    rcases clear.1 with isWatched | ⟨_, notInserting⟩
    · -- Nothing is watched while `start` adds.
      have notDone : d.start ≠ .done := by
        intro isDone
        rw [isDone] at inserting
        cases inserting
      rw [(tracked.early notDone).2.1] at isWatched
      exact absurd isWatched List.not_mem_nil
    · exact notInserting (Or.inl inserting)
  · intro x inserting
    refine (dropped.mem_dirs x).mpr ⟨tracked.sweepInserts x inserting, fun same => ?_⟩
    exact clear.2 (same ▸ inserting)
  · exact fun x isDoomed inDirs => tracked.doomed x isDoomed ((dropped.mem_dirs x).mp inDirs).1
  · intro x inDirs notMount
    rcases tracked.arriving x ((dropped.mem_dirs x).mp inDirs).1 notMount with will | coming | adds
    · left
      unfold WillHave at will ⊢
      rw [env.channel]
      exact will
    · exact Or.inr (Or.inl (env.coming inDirs coming))
    · exact Or.inr (Or.inr adds)
  · intro x gone known
    by_cases isIt : x = parent ++ [name]
    · subst isIt
      rcases clear.1 with isWatched | ⟨notRegistered, notInserting⟩
      · obtain ⟨event, inQueue, deleted, place, _, eventName⟩ := env.noticed isWatched
        exact Or.inr ⟨event, inQueue, deleted, by rw [WatchState.pathOf, place, eventName]⟩
      · exact known.elim (fun registered => absurd registered notRegistered)
          fun inserting => absurd (Or.inr inserting) notInserting
    · have wasGone : x ∉ d.dirs := fun isOld => gone ((dropped.mem_dirs x).mpr ⟨isOld, isIt⟩)
      rcases tracked.leaving x wasGone known with sent | going
      · exact Or.inl (env.channel ▸ sent)
      · exact Or.inr (env.going going)
  · intro x inDirs
    rw [dropped.ino, env.watched]
    exact (tracked.watching x ((dropped.mem_dirs x).mp inDirs).1).imp_right
      (Or.imp_right (Or.imp_left (env.coming inDirs)))

/-! ## The watcher acts -/

theorem Tracked.watcher {d next : Discovery} (tracked : d.Tracked) (clear : d.Clear .watcher)
    (stepped : d.watcherStep = some next) : next.Tracked := by
  unfold watcherStep at stepped
  split at stepped
  · cases stepped
  rename_i host hostStepped
  cases stepped
  obtain ⟨news, spec⟩ := WatchState.step_spec tracked.consistent clear.1 hostStepped
  have sameDirs : ∀ x, x ∈ host.tree.dirs ↔ x ∈ d.dirs := fun x => by
    rw [spec.tree]
    exact Iff.rfl
  refine ⟨spec.consistent, ?_, ?_, ?_, ?_, tracked.noMount, ?_, ?_, ?_⟩
  · intro notDone
    have off := (tracked.early notDone).1
    rw [WatchState.step, off] at hostStepped
    cases hostStepped
  · exact fun x inserting => (sameDirs x).mpr (tracked.startInserts x inserting)
  · exact fun x inserting => (sameDirs x).mpr (tracked.sweepInserts x inserting)
  · exact fun x isDoomed => mt (sameDirs x).mp (tracked.doomed x isDoomed)
  · intro x inDirs notMount
    have wasThere : x ∈ d.dirs := (sameDirs x).mp inDirs
    have settled : ∀ now, .removed x ∉ news → (settles x d.host.channel now ∨ .added x ∈ news) →
        settles x host.channel now := by
      intro now notRemoved holds
      rw [spec.channel, settles_append]
      exact settles_of_not_removed notRemoved holds
    rcases tracked.arriving x wasThere notMount with will | coming | adds
    · by_cases isRemoved : .removed x ∈ news
      · exact Or.inr (Or.inl (spec.revived x wasThere isRemoved))
      · exact Or.inl (settled _ isRemoved (Or.inl will))
    · rcases spec.coming x wasThere coming with stillComing | ⟨told, _⟩
      · exact Or.inr (Or.inl stillComing)
      · refine Or.inl (settled _ ?_ (Or.inr told))
        rcases spec.short with none | ⟨event, one⟩
        · exact absurd (none ▸ told) List.not_mem_nil
        · rw [one, List.mem_singleton] at told ⊢
          rw [← told]
          exact fun impossible => by cases impossible
    · exact Or.inr (Or.inr adds)
  · intro x gone known
    have wasGone : x ∉ d.dirs := mt (sameDirs x).mpr gone
    have channelIs : host.channel = d.host.channel ++ news := spec.channel
    dsimp only
    rw [channelIs, List.mem_append]
    rcases tracked.leaving x wasGone known with sent | going
    · exact Or.inl (Or.inl sent)
    · rcases spec.going x going with stillGoing | told | isMissed
      · exact Or.inr stillGoing
      · exact Or.inl (Or.inr told)
      · obtain ⟨notRegistered, notInserting⟩ := clear.2 x isMissed wasGone
        exact known.elim (fun registered => absurd registered notRegistered)
          fun inserting => absurd (Or.inr inserting) notInserting
  · intro x inDirs
    have wasThere : x ∈ d.dirs := (sameDirs x).mp inDirs
    dsimp only
    rw [spec.tree]
    rcases tracked.watching x wasThere with isWatched | isListed | coming | lists
    · exact Or.inl (spec.watched _ isWatched)
    · exact Or.inr (Or.inl isListed)
    · rcases spec.coming x wasThere coming with stillComing | ⟨_, isWatched⟩
      · exact Or.inr (Or.inr (Or.inl stillComing))
      · exact Or.inl isWatched
    · exact Or.inr (Or.inr (Or.inr lists))

/-! ## The manager's tasks act -/

theorem Tracked.withStart {d : Discovery} (tracked : d.Tracked) {start : StartPhase}
    {listed : List Nat} (before : d.start ≠ .done)
    (inserts : ∀ x, start.call = some ⟨x, .insert⟩ → x ∈ d.dirs)
    (plain : ∀ call, start.call = some call → call.Plain) (kept : ∀ i ∈ d.listed, i ∈ listed)
    (adds : ∀ x ∈ d.dirs, isMount x = false → d.StartAdds x →
      x ∈ d.registered ∨ StartAdds { d with start } x)
    (lists : ∀ x ∈ d.dirs, d.StartLists x →
      d.host.tree.ino x ∈ listed ∨ StartLists { d with start } x) :
    Tracked { d with start, listed } := by
  have early := tracked.early before
  refine ⟨tracked.consistent, fun _ => early, inserts, tracked.sweepInserts, tracked.doomed,
    ⟨tracked.noMount.1, ?_⟩, ?_, tracked.leaving, ?_⟩
  · intro call calling
    rcases calling with fromStart | fromOthers
    · exact plain call fromStart
    · exact tracked.noMount.2 call (Or.inr fromOthers)
  · intro x inDirs notMount
    rcases tracked.arriving x inDirs notMount with will | coming | startAdds
    · exact Or.inl will
    · exact Or.inr (Or.inl coming)
    · rcases adds x inDirs notMount startAdds with registered | still
      · left
        rw [WillHave, early.2.2]
        exact Or.inl registered
      · exact Or.inr (Or.inr still)
  · intro x inDirs
    rcases tracked.watching x inDirs with isWatched | isListed | coming | startLists
    · exact Or.inl isWatched
    · exact Or.inr (Or.inl (kept _ isListed))
    · exact Or.inr (Or.inr (Or.inl coming))
    · rcases lists x inDirs startLists with nowListed | still
      · exact Or.inr (Or.inl nowListed)
      · exact Or.inr (Or.inr (Or.inr still))

theorem Tracked.withMore {d : Discovery} (tracked : d.Tracked) {after : List (List String)}
    (grows : ∀ x ∈ d.registered, x ∈ after)
    (onlyNew : ∀ x ∈ after, x ∈ d.registered ∨ (x ∈ d.dirs ∧ isMount x = false)) :
    Tracked { d with registered := after } := by
  refine ⟨tracked.consistent, tracked.early, tracked.startInserts, tracked.sweepInserts,
    tracked.doomed, ⟨?_, tracked.noMount.2⟩, ?_, ?_, tracked.watching⟩
  · intro x member
    exact (onlyNew x member).elim (tracked.noMount.1 x) And.right
  · intro x inDirs notMount
    exact (tracked.arriving x inDirs notMount).imp_left fun will =>
      settles_mono (Or.imp_left (grows x)) will
  · intro x gone known
    refine tracked.leaving x gone (known.imp_left fun isThere => ?_)
    exact (onlyNew x isThere).resolve_right fun isNew => gone isNew.1

theorem Tracked.withCall {d : Discovery} {call : AddCall} {after : List (List String)}
    {called : Option AddCall} (tracked : d.Tracked)
    (effect : AddEffect d.dirs d.registered call after called) (plain : call.Plain)
    (inserts : ∀ x, call = ⟨x, .insert⟩ → x ∈ d.dirs) :
    Tracked { d with registered := after } := by
  refine tracked.withMore effect.grows fun x member => ?_
  rcases effect.onlyNew x member with isOld | isCall
  · exact Or.inl isOld
  · refine Or.inr ⟨inserts x isCall, ?_⟩
    subst isCall
    exact plain nofun

theorem Tracked.startAdd {d : Discovery} {todo : List (List String)} {call : AddCall}
    (tracked : d.Tracked) (phase : d.start = .adding todo (some call)) :
    Tracked { d with
      registered := (addStep d.dirs d.registered call).1
      start := .adding todo (addStep d.dirs d.registered call).2 } := by
  have effect := addStep_effect d.dirs d.registered call
  generalize addStep d.dirs d.registered call = result at effect ⊢
  obtain ⟨after, called⟩ := result
  have callIs : d.start.call = some call := by rw [phase]; rfl
  have plain := tracked.noMount.2 call (Or.inl callIs)
  have more : Tracked { d with registered := after } := tracked.withCall effect plain
    fun x isCall => tracked.startInserts x (callIs.trans (congrArg some isCall))
  refine more.withStart (by simp [phase]) effect.inserts (effect.plain plain)
    (fun _ member => member) ?_ ?_
  · intro x inDirs notMount adds
    rw [StartAdds, phase] at adds
    rcases adds with inTodo | ⟨stage, isCall⟩
    · exact Or.inr (Or.inl inTodo)
    · have pathIs : call.path = x := by rw [Option.some.inj isCall]
      subst pathIs
      exact (effect.arrives inDirs notMount).imp_right Or.inr
  · intro x _ lists
    rw [StartLists, phase] at lists
    exact lists.elim

theorem walk_finds (t : CgroupTree) {dir x : List String} (rest out : List (List String))
    (inDirs : x ∈ t.dirs) (above : dir <+: x) (different : dir ≠ x) :
    ∃ child, child ∈ (TreeWalk.step (listDir t) ⟨dir :: rest, out⟩).stack ∧
      child ∈ (TreeWalk.step (listDir t) ⟨dir :: rest, out⟩).out ∧ child <+: x := by
  obtain ⟨entry, listed, onTheWay⟩ := WatchState.scan_reaches t inDirs above different
  have live : dir ∈ t.dirs := t.fs.mem_dirs_of_isPrefix above inDirs
  refine ⟨dir ++ [entry], ?_, ?_, onTheWay⟩
  · simp [TreeWalk.step, listDir, live, listed]
  · simp [TreeWalk.step, listDir, live, listed]

theorem walk_keeps (t : CgroupTree) (dir : List String) (rest out : List (List String)) :
    (∀ x ∈ rest, x ∈ (TreeWalk.step (listDir t) ⟨dir :: rest, out⟩).stack) ∧
      ∀ x ∈ out, x ∈ (TreeWalk.step (listDir t) ⟨dir :: rest, out⟩).out := by
  unfold TreeWalk.step
  dsimp only
  split
  · exact ⟨fun _ member => member, fun _ member => member⟩
  · exact ⟨fun _ member => List.mem_append_right _ member,
      fun _ member => List.mem_append_left _ member⟩

theorem Tracked.startWalk {d : Discovery} {dir : List String} {rest out : List (List String)}
    (tracked : d.Tracked) (phase : d.start = .walking ⟨dir :: rest, out⟩) :
    Tracked { d with
      start := .walking (TreeWalk.step (listDir d.host.tree) ⟨dir :: rest, out⟩)
      listed := if dir ∈ d.dirs then d.host.tree.ino dir :: d.listed else d.listed } := by
  obtain ⟨stackKept, outKept⟩ := walk_keeps d.host.tree dir rest out
  refine tracked.withStart (by simp [phase]) nofun nofun ?_ ?_ ?_
  · intro i member
    split_ifs
    · exact List.mem_cons_of_mem _ member
    · exact member
  · intro x inDirs _ adds
    rw [StartAdds, phase] at adds
    right
    rcases adds with inOut | ⟨other, inStack, above, different⟩
    · exact Or.inl (outKept x inOut)
    · rcases List.mem_cons.mp inStack with isDir | inRest
      · subst isDir
        obtain ⟨child, childStack, childOut, onTheWay⟩ :=
          walk_finds d.host.tree rest out inDirs above different
        by_cases arrived : child = x
        · exact Or.inl (arrived ▸ childOut)
        · exact Or.inr ⟨child, childStack, onTheWay, arrived⟩
      · exact Or.inr ⟨other, stackKept other inRest, above, different⟩
  · intro x inDirs lists
    rw [StartLists, phase] at lists
    obtain ⟨other, inStack, above⟩ := lists
    rcases List.mem_cons.mp inStack with isDir | inRest
    · subst isDir
      by_cases arrived : other = x
      · subst arrived
        left
        rw [if_pos inDirs]
        exact List.mem_cons_self ..
      · obtain ⟨child, childStack, _, onTheWay⟩ :=
          walk_finds d.host.tree rest out inDirs above arrived
        exact Or.inr ⟨child, childStack, onTheWay⟩
    · exact Or.inr ⟨other, stackKept other inRest, above⟩

theorem Tracked.startSpawns {d : Discovery} (tracked : d.Tracked)
    (phase : d.start = .adding [] none) :
    Tracked { d with
      start := .done
      host := { d.host with phase := .registering [.watch []] } } := by
  have off := (tracked.early (by simp [phase])).1
  have done : Tracked { d with start := .done } := by
    refine tracked.withStart (by simp [phase]) nofun nofun (fun _ member => member) ?_ ?_
    · intro x _ _ adds
      rw [StartAdds, phase] at adds
      rcases adds with inTodo | ⟨_, none⟩
      · exact absurd inTodo List.not_mem_nil
      · cases none
    · intro x _ lists
      rw [StartLists, phase] at lists
      exact lists.elim
  have stillComing : ∀ x, d.host.Coming x →
      WatchState.Coming { d.host with phase := .registering [.watch []] } x := by
    intro x coming
    rcases coming with ⟨task, inTasks, _⟩ | queued
    · rw [WatchState.emitting, off] at inTasks
      exact absurd inTasks List.not_mem_nil
    · exact Or.inr queued
  refine ⟨⟨done.consistent.queueBelow, done.consistent.tablePlaces⟩,
    fun notDone => absurd rfl notDone, fun _ inserting => (by cases inserting),
    done.sweepInserts, done.doomed, done.noMount, ?_, done.leaving, ?_⟩
  · intro x inDirs notMount
    exact (done.arriving x inDirs notMount).imp_right (Or.imp_left (stillComing x))
  · intro x inDirs
    exact (done.watching x inDirs).imp_right (Or.imp_right (Or.imp_left (stillComing x)))

theorem Tracked.start {d next : Discovery} (tracked : d.Tracked)
    (stepped : d.startStep = some next) : next.Tracked := by
  unfold startStep at stepped
  split at stepped
  · rename_i out phase
    cases stepped
    refine tracked.withStart (by simp [phase]) nofun nofun (fun _ member => member) ?_ ?_
    · intro x _ _ adds
      rw [StartAdds, phase] at adds
      rcases adds with inOut | ⟨_, inStack, _⟩
      · exact Or.inr (Or.inl inOut)
      · exact absurd inStack List.not_mem_nil
    · intro x _ lists
      rw [StartLists, phase] at lists
      obtain ⟨_, inStack, _⟩ := lists
      exact absurd inStack List.not_mem_nil
  · rename_i dir rest out phase
    cases stepped
    exact tracked.startWalk phase
  · rename_i todo call phase
    cases stepped
    exact tracked.startAdd phase
  · rename_i path todo phase
    cases stepped
    refine tracked.withStart (by simp [phase]) nofun ?_ (fun _ member => member) ?_ ?_
    · intro call isCall
      cases isCall
      exact fun later => absurd rfl later
    · intro x _ _ adds
      rw [StartAdds, phase] at adds
      rcases adds with inTodo | ⟨_, none⟩
      · rcases List.mem_cons.mp inTodo with isPath | later
        · exact Or.inr (Or.inr ⟨.check, by rw [isPath]⟩)
        · exact Or.inr (Or.inl later)
      · cases none
    · intro x _ lists
      rw [StartLists, phase] at lists
      exact lists.elim
  · rename_i phase
    cases stepped
    exact tracked.startSpawns phase
  · cases stepped

theorem Tracked.onlyPlain {d : Discovery} {call : AddCall} {after : List (List String)}
    {called : Option AddCall} (tracked : d.Tracked) (calling : d.Calling call)
    (effect : AddEffect d.dirs d.registered call after called) :
    ∀ x ∈ after, isMount x = false := by
  intro x member
  rcases effect.onlyNew x member with isOld | isCall
  · exact tracked.noMount.1 x isOld
  · have plain := tracked.noMount.2 call calling
    rw [isCall] at plain
    exact plain nofun

theorem Tracked.consumerAdd {d : Discovery} {call : AddCall} (tracked : d.Tracked)
    (busy : d.consumer = some call) :
    Tracked { d with
      registered := (addStep d.dirs d.registered call).1
      consumer := (addStep d.dirs d.registered call).2 } := by
  have effect := addStep_effect d.dirs d.registered call
  generalize addStep d.dirs d.registered call = result at effect ⊢
  obtain ⟨after, called⟩ := result
  have calling : d.Calling call := Or.inr (Or.inl busy)
  refine ⟨tracked.consistent, tracked.early, tracked.startInserts, tracked.sweepInserts,
    tracked.doomed, ⟨tracked.onlyPlain calling effect, ?_⟩, ?_, ?_, tracked.watching⟩
  · intro other isCalling
    rcases isCalling with fromStart | fromConsumer | fromSweep
    · exact tracked.noMount.2 other (Or.inl fromStart)
    · exact effect.plain (tracked.noMount.2 call calling) other fromConsumer
    · exact tracked.noMount.2 other (Or.inr (Or.inr fromSweep))
  · intro x inDirs notMount
    refine (tracked.arriving x inDirs notMount).imp_left fun will => settles_mono ?_ will
    intro now
    rcases now with registered | ⟨stage, isCall⟩
    · exact Or.inl (effect.grows x registered)
    · have pathIs : call.path = x := by rw [Option.some.inj (busy.symm.trans isCall)]
      subst pathIs
      exact effect.arrives inDirs notMount
  · intro x gone known
    refine tracked.leaving x gone ?_
    rcases known with isThere | inserting
    · rcases effect.onlyNew x isThere with isOld | isCall
      · exact Or.inl isOld
      · exact Or.inr (busy.trans (congrArg some isCall))
    · exact absurd (effect.inserts x inserting) gone

theorem mem_unregistered (d : Discovery) (path x : List String) :
    x ∈ d.registered.filter (fun other => other ≠ path) ↔ x ∈ d.registered ∧ x ≠ path := by
  rw [List.mem_filter, decide_eq_true_eq]

theorem Tracked.started_of_channel {d : Discovery} (tracked : d.Tracked) {event : CgroupEvent}
    {later : List CgroupEvent} (channelIs : d.host.channel = event :: later) :
    d.start = .done := by
  by_contra notDone
  rw [(tracked.early notDone).2.2] at channelIs
  cases channelIs

theorem Tracked.consumer {d next : Discovery} (tracked : d.Tracked)
    (stepped : d.consumerStep = some next) : next.Tracked := by
  unfold consumerStep at stepped
  split at stepped
  · rename_i call busy
    cases stepped
    exact tracked.consumerAdd busy
  rename_i idle
  split at stepped
  · cases stepped
  · rename_i path channel channelIs
    cases stepped
    have notEarly : d.start = .done := tracked.started_of_channel channelIs
    refine ⟨⟨tracked.consistent.queueBelow, tracked.consistent.tablePlaces⟩,
      fun notDone => absurd notEarly notDone, tracked.startInserts, tracked.sweepInserts,
      tracked.doomed, ⟨tracked.noMount.1, ?_⟩, ?_, ?_, tracked.watching⟩
    · intro call calling
      rcases calling with fromStart | fromConsumer | fromSweep
      · exact tracked.noMount.2 call (Or.inl fromStart)
      · cases fromConsumer
        exact fun later => absurd rfl later
      · exact tracked.noMount.2 call (Or.inr (Or.inr fromSweep))
    · intro x inDirs notMount
      refine (tracked.arriving x inDirs notMount).imp_left fun will => ?_
      rw [WillHave, channelIs] at will
      refine settles_mono ?_ will
      intro now
      rcases now with (registered | ⟨_, busy⟩) | isPath
      · exact Or.inl registered
      · rw [idle] at busy
        cases busy
      · exact Or.inr ⟨.check, by rw [isPath]⟩
    · intro x gone known
      have registered : x ∈ d.registered := known.resolve_right fun inserting => by
        cases inserting
      refine (tracked.leaving x gone (Or.inl registered)).imp_left fun sent => ?_
      rw [channelIs] at sent
      exact (List.mem_cons.mp sent).resolve_left nofun
  · rename_i path channel channelIs
    cases stepped
    have notEarly : d.start = .done := tracked.started_of_channel channelIs
    have filtered := d.mem_unregistered path
    refine ⟨⟨tracked.consistent.queueBelow, tracked.consistent.tablePlaces⟩,
      fun notDone => absurd notEarly notDone, tracked.startInserts, tracked.sweepInserts,
      tracked.doomed, ⟨fun x member => tracked.noMount.1 x ((filtered x).mp member).1,
        tracked.noMount.2⟩, ?_, ?_, tracked.watching⟩
    · intro x inDirs notMount
      refine (tracked.arriving x inDirs notMount).imp_left fun will => ?_
      rw [WillHave, channelIs] at will
      refine settles_mono ?_ will
      intro now
      obtain ⟨registered | busy, different⟩ := now
      · exact Or.inl ((filtered x).mpr ⟨registered, Ne.symm different⟩)
      · exact Or.inr busy
    · intro x gone known
      have still : x ∈ d.registered ∧ x ≠ path := by
        rcases known with isThere | inserting
        · exact (filtered x).mp isThere
        · rw [idle] at inserting
          cases inserting
      refine (tracked.leaving x gone (Or.inl still.1)).imp_left fun sent => ?_
      rw [channelIs] at sent
      rcases List.mem_cons.mp sent with isFirst | later
      · exact absurd (CgroupEvent.removed.inj isFirst) still.2
      · exact later

theorem Tracked.withSweep {d : Discovery} (tracked : d.Tracked) {sweep : SweepPhase}
    (inserts : ∀ x, sweep.call = some ⟨x, .insert⟩ → x ∈ d.dirs)
    (plain : ∀ call, sweep.call = some call → call.Plain)
    (doomed : ∀ x, sweep.doomed = some x → x ∉ d.dirs) : Tracked { d with sweep } := by
  refine ⟨tracked.consistent, tracked.early, tracked.startInserts, inserts, doomed,
    ⟨tracked.noMount.1, ?_⟩, tracked.arriving, tracked.leaving, tracked.watching⟩
  intro call calling
  rcases calling with fromStart | fromConsumer | fromSweep
  · exact tracked.noMount.2 call (Or.inl fromStart)
  · exact tracked.noMount.2 call (Or.inr (Or.inl fromConsumer))
  · exact plain call fromSweep

theorem Tracked.without {d : Discovery} (tracked : d.Tracked) {path : List String}
    (gone : path ∉ d.dirs) :
    Tracked { d with registered := d.registered.filter fun other => other ≠ path } := by
  have filtered := d.mem_unregistered path
  refine ⟨tracked.consistent, tracked.early, tracked.startInserts, tracked.sweepInserts,
    tracked.doomed, ⟨fun x member => tracked.noMount.1 x ((filtered x).mp member).1,
      tracked.noMount.2⟩, ?_, ?_, tracked.watching⟩
  · intro x inDirs notMount
    refine (tracked.arriving x inDirs notMount).imp_left fun will => settles_mono ?_ will
    exact Or.imp_left fun registered =>
      (filtered x).mpr ⟨registered, fun same => gone (same ▸ inDirs)⟩
  · intro x xGone known
    exact tracked.leaving x xGone (known.imp_left fun isThere => ((filtered x).mp isThere).1)

theorem Tracked.sweepAdd {d : Discovery} {current known todo : List (List String)} {call : AddCall}
    (tracked : d.Tracked) (phase : d.sweep = .adding current known todo (some call)) :
    Tracked { d with
      registered := (addStep d.dirs d.registered call).1
      sweep := .adding current known todo (addStep d.dirs d.registered call).2 } := by
  have effect := addStep_effect d.dirs d.registered call
  generalize addStep d.dirs d.registered call = result at effect ⊢
  obtain ⟨after, called⟩ := result
  have callIs : d.sweep.call = some call := by rw [phase]; rfl
  have plain := tracked.noMount.2 call (Or.inr (Or.inr callIs))
  have more : Tracked { d with registered := after } := tracked.withCall effect plain
    fun x isCall => tracked.sweepInserts x (callIs.trans (congrArg some isCall))
  exact more.withSweep effect.inserts (effect.plain plain) nofun

theorem Tracked.sweep {d next : Discovery} (tracked : d.Tracked)
    (stepped : d.sweepStep = some next) : next.Tracked := by
  unfold sweepStep at stepped
  split at stepped
  · split at stepped
    · cases stepped
      exact tracked.withSweep nofun nofun nofun
    · cases stepped
  · cases stepped
    exact tracked.withSweep nofun nofun nofun
  · cases stepped
    exact tracked.withSweep nofun nofun nofun
  · rename_i current known todo call phase
    cases stepped
    exact tracked.sweepAdd phase
  · rename_i current known path todo phase
    split_ifs at stepped
    · cases stepped
      exact tracked.withSweep nofun nofun nofun
    · cases stepped
      refine tracked.withSweep nofun (fun call isCall => ?_) nofun
      cases isCall
      exact fun later => absurd rfl later
  · cases stepped
    exact tracked.withSweep nofun nofun nofun
  · rename_i current todo path phase
    cases stepped
    have gone : path ∉ d.dirs := tracked.doomed path (by rw [phase]; rfl)
    exact (tracked.without gone).withSweep nofun nofun nofun
  · rename_i current path todo phase
    split_ifs at stepped with missing
    · cases stepped
      refine tracked.withSweep nofun nofun fun x isDoomed => ?_
      cases isDoomed
      exact missing.2.2
    · cases stepped
      exact tracked.withSweep nofun nofun nofun
  · cases stepped
    exact tracked.withSweep nofun nofun nofun

theorem Tracked.step {d next : Discovery} {action : DiscoveryAction} (tracked : d.Tracked)
    (clear : d.Clear action) (stepped : d.step action = some next) : next.Tracked := by
  cases action with
  | mkdir parent name => exact tracked.mkdir clear stepped
  | rmdir parent name => exact tracked.rmdir clear stepped
  | start => exact tracked.start stepped
  | watcher => exact tracked.watcher clear stepped
  | consumer => exact tracked.consumer stepped
  | sweep => exact tracked.sweep stepped

/-! ## Runs -/

/-- What is quiet and tracked is exact. -/
theorem Tracked.exact {d : Discovery} (tracked : d.Tracked) (quiet : d.Quiet) : d.Exact := by
  have notComing : ∀ x, ¬ d.host.Coming x := by
    intro x coming
    rcases coming with ⟨task, inTasks, _⟩ | ⟨event, inQueue, _⟩
    · rw [WatchState.emitting, quiet.watcher] at inTasks
      exact absurd inTasks List.not_mem_nil
    · rw [quiet.queue] at inQueue
      exact absurd inQueue List.not_mem_nil
  have present : ∀ x ∈ d.dirs, isMount x = false → x ∈ d.registered := by
    intro x inDirs notMount
    rcases tracked.arriving x inDirs notMount with will | coming | adds
    · rw [WillHave, quiet.channel] at will
      rcases will with registered | ⟨stage, busy⟩
      · exact registered
      · rw [quiet.consumer] at busy
        cases busy
    · exact absurd coming (notComing x)
    · rw [StartAdds, quiet.started] at adds
      exact adds.elim
  have existing : ∀ x ∈ d.registered, x ∈ d.dirs := by
    intro x registered
    by_contra gone
    rcases tracked.leaving x gone (Or.inl registered) with sent | ⟨event, inQueue, _⟩
    · rw [quiet.channel] at sent
      exact absurd sent List.not_mem_nil
    · rw [quiet.queue] at inQueue
      exact absurd inQueue List.not_mem_nil
  intro name
  constructor
  · intro known
    obtain ⟨x, registered, rfl⟩ := List.mem_map.mp known
    exact Or.inr ⟨List.mem_map_of_mem (existing x registered), tracked.noMount.1 x registered⟩
  · intro wanted
    rcases wanted with rfl | ⟨inTree, notMount⟩
    · exact List.mem_map.mpr ⟨[], present [] d.host.tree.fs.rootIn (by decide), rfl⟩
    · obtain ⟨x, inDirs, rfl⟩ := List.mem_map.mp inTree
      exact List.mem_map_of_mem (present x inDirs notMount)

/-- In a run whose every action is clear of the windows, whatever the order in which
the parties act, every quiet state is exact. -/
theorem quiet_exact (tree : CgroupTree) (actions : List DiscoveryAction) (d : Discovery)
    (clear : Run.Allowed step Clear (init tree) actions)
    (run : Run.exec step (init tree) actions = some d) (quiet : d.Quiet) : d.Exact := by
  have tracked : d.Tracked :=
    Run.exec_keeps (fun _ _ _ inv isClear stepped => Tracked.step inv isClear stepped)
      (tracked_init tree) clear run
  exact tracked.exact quiet

end Discovery

def bareTree : CgroupTree where
  fs :=
    { dirs := [[]]
      nodup := List.nodup_singleton _
      rootIn := List.mem_singleton.mpr rfl
      closed := by simp
      named := by simp
      dir := fun _ => ⟨none, fun _ => .notFound⟩ }
  ino := fun _ => 0
  place := fun _ => []
  nextIno := 1
  inoBelow := fun _ _ => Nat.zero_lt_one
  placed := fun _ member => (List.mem_singleton.mp member).symm

namespace Discovery

/-- `start` finds the root, the watcher registers it, and then `/a` is made. -/
def lateRun : List DiscoveryAction :=
  [ .start, .start, .start, .start, .start, .start, .start, .watcher, .watcher, .watcher,
    .mkdir [] "a", .watcher, .watcher, .watcher, .consumer, .consumer, .consumer, .consumer ]

theorem late_cgroup_registered :
    ∃ d, Run.exec step (init bareTree) lateRun = some d ∧ d.Exact ∧ "/a" ∈ d.names := by
  have guarded : ∃ d, Run.exec (Run.guarded step Clear) (init bareTree) lateRun = some d ∧
      d.Quiet ∧ "/a" ∈ d.names :=
    ⟨_, rfl, ⟨rfl, rfl, rfl, rfl, rfl, rfl⟩, by decide⟩
  obtain ⟨d, run, quiet, known⟩ := guarded
  obtain ⟨clear, executed⟩ := Run.allowed_of_guarded run
  exact ⟨d, executed, quiet_exact bareTree lateRun d clear executed quiet, known⟩

/-- `/a` is made after the initial walk has listed the root and before the watcher
registers it. -/
def gapRun : List DiscoveryAction :=
  [ .start, .mkdir [] "a", .start, .start, .start, .start, .start, .start, .watcher, .watcher,
    .watcher, .watcher, .watcher ]

theorem gap_cgroup_lost :
    ∃ d, Run.exec step (init bareTree) gapRun = some d ∧ d.Quiet ∧ ¬ d.Exact := by
  refine ⟨_, rfl, ⟨rfl, rfl, rfl, rfl, rfl, rfl⟩, fun exact => ?_⟩
  have known := (exact "/a").mpr (Or.inr ⟨?_, ?_⟩)
  · exact absurd known (by decide)
  · decide
  · decide

end Discovery

end Cadvisor
