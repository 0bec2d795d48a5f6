import Cadvisor.Lib.Run
import Mathlib.Logic.Function.Basic

/-!
# Owners that are listed before their task is stored

Each party lists an owner under a key, spawns a task for it and stores the task with
the owner, in three steps; a party that unlists an owner takes the stored task and
aborts it.  An owner whose slot was empty when it was taken from keeps its task for
good.
-/

set_option autoImplicit false

namespace TaskPool

variable {K : Type}

structure Task where
  owner : Nat
  aborted : Bool
  deriving DecidableEq

/-- Where a party stands; the owner that a party adds has the party's number. -/
inductive Phase (K : Type) where
  | idle
  | starting (key : K)
  | storing (key : K) (task : Nat)
  | added (key : K)
  | aborting (owner : Nat)

structure Pool (K : Type) where
  listed : K → Option Nat
  slots : Nat → Option Nat
  tasks : List Task
  phases : Nat → Phase K

def abort (tasks : List Task) (task : Nat) : List Task :=
  tasks.modify task fun t => { t with aborted := true }

theorem abort_other {tasks : List Task} {task n : Nat} (other : n ≠ task) :
    (abort tasks task)[n]? = tasks[n]? :=
  List.getElem?_modify_ne _ tasks (Ne.symm other)

theorem of_abort {tasks : List Task} {task n : Nat} {t : Task}
    (found : (abort tasks task)[n]? = some t) :
    ∃ before, tasks[n]? = some before ∧ before.owner = t.owner ∧
      (t.aborted = false → n ≠ task ∧ before = t) := by
  by_cases same : n = task
  · rw [abort, same, List.getElem?_modify_eq, Option.map_eq_map, Option.map_eq_some_iff] at found
    obtain ⟨before, here, rfl⟩ := found
    exact ⟨before, same ▸ here, rfl, fun unaborted => Bool.noConfusion unaborted⟩
  · rw [abort_other same] at found
    exact ⟨t, found, rfl, fun _ => ⟨same, rfl⟩⟩

namespace Pool

def empty : Pool K := ⟨fun _ => none, fun _ => none, [], fun _ => .idle⟩

def enter (p : Pool K) (i : Nat) (phase : Phase K) : Pool K :=
  { p with phases := Function.update p.phases i phase }

/-- The steps of the parties, but for a taking that finds nothing. -/
inductive Step [DecidableEq K] (p : Pool K) : Pool K → Prop where
  | decline (i : Nat) (key : K) (idle : p.phases i = .idle) : Step p (p.enter i (.added key))
  | insert (i : Nat) (key : K) (idle : p.phases i = .idle) (free : p.listed key = none) :
      Step p { p.enter i (.starting key) with listed := Function.update p.listed key (some i) }
  | spawn (i : Nat) (key : K) (starting : p.phases i = .starting key) :
      Step p { p.enter i (.storing key p.tasks.length) with tasks := p.tasks ++ [⟨i, false⟩] }
  | store (i : Nat) (key : K) (task : Nat) (storing : p.phases i = .storing key task) :
      Step p { p.enter i (.added key) with slots := Function.update p.slots i (some task) }
  | unlist (i : Nat) (key : K) (owner : Nat) (idle : p.phases i = .idle)
      (listed : p.listed key = some owner) :
      Step p { p.enter i (.aborting owner) with listed := Function.update p.listed key none }
  | take (i owner task : Nat) (aborting : p.phases i = .aborting owner)
      (stored : p.slots owner = some task) :
      Step p { p.enter i .idle with
        slots := Function.update p.slots owner none
        tasks := abort p.tasks task }

/-- A party takes from an empty slot. -/
inductive Miss (p : Pool K) : Pool K → Prop where
  | miss (i owner : Nat) (aborting : p.phases i = .aborting owner) (nothing : p.slots owner = none) :
      Miss p (p.enter i .idle)

/-- The owner has a task or will get one. -/
def Live (p : Pool K) (owner : Nat) : Prop :=
  (∃ key, p.phases owner = .starting key) ∨ (∃ key task, p.phases owner = .storing key task) ∨
    ∃ task, p.slots owner = some task

def KeyIs (p : Pool K) (owner : Nat) (key : K) : Prop :=
  p.phases owner = .starting key ∨ (∃ task, p.phases owner = .storing key task) ∨
    p.phases owner = .added key

structure Inv (p : Pool K) : Prop where
  stored : ∀ owner task, p.slots owner = some task →
    p.tasks[task]? = some ⟨owner, false⟩ ∧ ∃ key, p.phases owner = .added key
  storing : ∀ owner key task, p.phases owner = .storing key task →
    p.tasks[task]? = some ⟨owner, false⟩
  spawned : ∀ (n : Nat) (task : Task), p.tasks[n]? = some task →
    (∃ key m, p.phases task.owner = .storing key m) ∨ ∃ key, p.phases task.owner = .added key
  running : ∀ (n owner : Nat), p.tasks[n]? = some ⟨owner, false⟩ →
    p.slots owner = some n ∨ ∃ key, p.phases owner = .storing key n
  once : ∀ (n m : Nat) (task other : Task), p.tasks[n]? = some task → p.tasks[m]? = some other →
    task.owner = other.owner → n = m
  listed : ∀ key owner, p.listed key = some owner → p.Live owner ∧ p.KeyIs owner key
  aborting : ∀ i owner, p.phases i = .aborting owner →
    p.Live owner ∧ ∀ key, p.listed key ≠ some owner
  abortingOnce : ∀ i j owner, p.phases i = .aborting owner → p.phases j = .aborting owner → i = j

/-- Nobody will abort the task that the owner has or will get. -/
def Leaked (p : Pool K) (owner : Nat) : Prop :=
  p.Live owner ∧ (∀ key, p.listed key ≠ some owner) ∧ ∀ i, p.phases i ≠ .aborting owner

variable {p q : Pool K} {i j owner task n : Nat} {key : K} {phase : Phase K}

theorem enter_self (p : Pool K) (i : Nat) (phase : Phase K) : (p.enter i phase).phases i = phase :=
  Function.update_self ..

theorem enter_other (p : Pool K) (phase : Phase K) (other : j ≠ i) :
    (p.enter i phase).phases j = p.phases j :=
  Function.update_of_ne other ..

theorem aborting_enter (before : p.phases i ≠ .aborting owner) (after : phase ≠ .aborting owner)
    (j : Nat) : (p.enter i phase).phases j = .aborting owner ↔ p.phases j = .aborting owner := by
  by_cases same : j = i
  · rw [same, enter_self]
    exact ⟨fun is => absurd is after, fun is => absurd is before⟩
  · rw [enter_other p _ same]

@[simp] theorem enter_slots (p : Pool K) (i : Nat) (phase : Phase K) :
    (p.enter i phase).slots = p.slots :=
  rfl

theorem Live.congr (live : p.Live owner) (phases : q.phases owner = p.phases owner)
    (slots : q.slots owner = p.slots owner) : q.Live owner := by
  simpa only [Live, phases, slots] using live

theorem KeyIs.congr (named : p.KeyIs owner key) (phases : q.phases owner = p.phases owner) :
    q.KeyIs owner key := by
  simpa only [KeyIs, phases] using named

theorem inv_empty : (empty : Pool K).Inv where
  stored := by simp [empty]
  storing := by simp [empty]
  spawned := by simp [empty]
  running := by simp [empty]
  once := by simp [empty]
  listed := by simp [empty]
  aborting := by simp [empty]
  abortingOnce := by simp [empty]

/-! ## Parties that own nothing -/

/-- A party that adds no owner now, and has added none. -/
def Bystander (p : Pool K) (i : Nat) : Prop :=
  p.phases i = .idle ∨ ∃ owner, p.phases i = .aborting owner

theorem Inv.not_live (inv : p.Inv) (bystander : p.Bystander i) : ¬ p.Live i := by
  rintro (⟨key, starting⟩ | ⟨key, task, storing⟩ | ⟨task, stored⟩)
  · rcases bystander with idle | ⟨other, aborting⟩ <;> simp_all
  · rcases bystander with idle | ⟨other, aborting⟩ <;> simp_all
  · obtain ⟨_, key, added⟩ := inv.stored i task stored
    rcases bystander with idle | ⟨other, aborting⟩ <;> simp_all

theorem Inv.no_task (inv : p.Inv) (bystander : p.Bystander i) {t : Task}
    (found : p.tasks[n]? = some t) : t.owner ≠ i := by
  rintro rfl
  rcases inv.spawned n t found with ⟨key, m, storing⟩ | ⟨key, added⟩
  · rcases bystander with idle | ⟨other, aborting⟩ <;> simp_all
  · rcases bystander with idle | ⟨other, aborting⟩ <;> simp_all

/-- A bystander may enter any phase but `storing`; it takes over what would leak. -/
theorem Inv.enter (inv : p.Inv) (bystander : p.Bystander i)
    (notStoring : ∀ key task, phase ≠ .storing key task)
    (takesOver : ∀ owner, phase = .aborting owner → p.Leaked owner) : (p.enter i phase).Inv := by
  have phases : ∀ j, p.Live j → (p.enter i phase).phases j = p.phases j := by
    intro j live
    exact enter_other p phase fun same => inv.not_live bystander (same ▸ live)
  constructor
  case stored =>
    intro owner task stored
    obtain ⟨running, key, added⟩ := inv.stored owner task stored
    exact ⟨running, key, (phases owner (Or.inr (Or.inr ⟨task, stored⟩))).trans added⟩
  case storing =>
    intro owner key task storing
    by_cases same : owner = i
    · rw [same, enter_self] at storing
      exact absurd storing (notStoring key task)
    · rw [enter_other p phase same] at storing
      exact inv.storing owner key task storing
  case spawned =>
    intro n t found
    rw [enter_other p phase (inv.no_task bystander found)]
    exact inv.spawned n t found
  case running =>
    intro n owner running
    rw [enter_other p phase (inv.no_task bystander running)]
    exact inv.running n owner running
  case once => exact inv.once
  case listed =>
    intro key owner isListed
    obtain ⟨live, named⟩ := inv.listed key owner isListed
    exact ⟨live.congr (phases owner live) rfl, named.congr (phases owner live)⟩
  case aborting =>
    intro j owner aborting
    by_cases same : j = i
    · rw [same, enter_self] at aborting
      obtain ⟨live, unlisted, _⟩ := takesOver owner aborting
      exact ⟨live.congr (phases owner live) rfl, unlisted⟩
    · rw [enter_other p phase same] at aborting
      obtain ⟨live, unlisted⟩ := inv.aborting j owner aborting
      exact ⟨live.congr (phases owner live) rfl, unlisted⟩
  case abortingOnce =>
    intro j k owner first second
    by_cases jSame : j = i
    · by_cases kSame : k = i
      · exact jSame.trans kSame.symm
      · rw [jSame, enter_self] at first
        rw [enter_other p phase kSame] at second
        exact absurd second ((takesOver owner first).2.2 k)
    · by_cases kSame : k = i
      · rw [kSame, enter_self] at second
        rw [enter_other p phase jSame] at first
        exact absurd first ((takesOver owner second).2.2 j)
      · rw [enter_other p phase jSame] at first
        rw [enter_other p phase kSame] at second
        exact inv.abortingOnce j k owner first second

/-! ## The other parts of a step -/

theorem Inv.list [DecidableEq K] (inv : p.Inv) (live : p.Live owner) (named : p.KeyIs owner key)
    (unaborted : ∀ j, p.phases j ≠ .aborting owner) :
    Inv { p with listed := Function.update p.listed key (some owner) } where
  stored := inv.stored
  storing := inv.storing
  spawned := inv.spawned
  running := inv.running
  once := inv.once
  listed := by
    intro other o isListed
    dsimp only at isListed
    rw [Function.update_apply] at isListed
    split_ifs at isListed with same
    · cases isListed
      exact ⟨live, same ▸ named⟩
    · exact inv.listed other o isListed
  aborting := by
    intro i o aborting
    obtain ⟨liveO, unlisted⟩ := inv.aborting i o aborting
    refine ⟨liveO, fun other isListed => ?_⟩
    dsimp only at isListed
    rw [Function.update_apply] at isListed
    split_ifs at isListed with same
    · cases isListed
      exact unaborted i aborting
    · exact unlisted other isListed
  abortingOnce := inv.abortingOnce

/-- An owner that is taken off the list leaks until a party aborts it. -/
theorem Inv.unlist [DecidableEq K] (inv : p.Inv) (listed : p.listed key = some owner) :
    Inv { p with listed := Function.update p.listed key none } ∧
      Leaked { p with listed := Function.update p.listed key none } owner := by
  have only : ∀ other, p.listed other = some owner → other = key := by
    intro other isListed
    obtain ⟨_, named⟩ := inv.listed other owner isListed
    obtain ⟨_, named'⟩ := inv.listed key owner listed
    rcases named with h | ⟨_, h⟩ | h <;> rcases named' with h' | ⟨_, h'⟩ | h' <;> simp_all
  have kept : ∀ other o, Function.update p.listed key none other = some o →
      p.listed other = some o := by
    intro other o isListed
    rw [Function.update_apply] at isListed
    split_ifs at isListed
    exact isListed
  constructor
  · constructor
    case stored => exact inv.stored
    case storing => exact inv.storing
    case spawned => exact inv.spawned
    case running => exact inv.running
    case once => exact inv.once
    case listed => exact fun other o isListed => inv.listed other o (kept other o isListed)
    case aborting =>
      intro i o aborting
      obtain ⟨live, unlisted⟩ := inv.aborting i o aborting
      exact ⟨live, fun other isListed => unlisted other (kept other o isListed)⟩
    case abortingOnce => exact inv.abortingOnce
  · refine ⟨(inv.listed key owner listed).1, fun other isListed => ?_, fun i aborting => ?_⟩
    · have same := only other (kept other owner isListed)
      rw [same] at isListed
      simp at isListed
    · exact (inv.aborting i owner aborting).2 key listed

/-- A stored task is taken and aborted. -/
theorem Inv.settle (inv : p.Inv) (stored : p.slots owner = some task)
    (unlisted : ∀ key, p.listed key ≠ some owner) (unaborted : ∀ j, p.phases j ≠ .aborting owner) :
    Inv { p with
      slots := Function.update p.slots owner none
      tasks := abort p.tasks task } := by
  obtain ⟨isRunning, _, added⟩ := inv.stored owner task stored
  -- The owner's only task is the one that is aborted.
  have onlyTask : ∀ n o, o ≠ owner → p.tasks[n]? = some ⟨o, false⟩ → n ≠ task := by
    intro n o different running same
    rw [same, isRunning] at running
    cases running
    exact different rfl
  have slots : ∀ o, o ≠ owner → Function.update p.slots owner none o = p.slots o :=
    fun o different => Function.update_of_ne different ..
  constructor
  case stored =>
    intro o t isStored
    dsimp only at isStored
    by_cases same : o = owner
    · rw [same, Function.update_self] at isStored
      cases isStored
    · rw [slots o same] at isStored
      obtain ⟨running, isAdded⟩ := inv.stored o t isStored
      exact ⟨(abort_other (onlyTask t o same running)).trans running, isAdded⟩
  case storing =>
    intro o key t storing
    have running := inv.storing o key t storing
    have different : o ≠ owner := by
      rintro rfl
      rw [added] at storing
      cases storing
    exact (abort_other (onlyTask t o different running)).trans running
  case spawned =>
    intro n t found
    obtain ⟨before, was, ownerIs, _⟩ := of_abort found
    exact ownerIs ▸ inv.spawned n before was
  case running =>
    intro n o running
    obtain ⟨before, was, _, kept⟩ := of_abort running
    obtain ⟨different, same⟩ := kept rfl
    subst same
    rcases inv.running n o was with isStored | isStoring
    · left
      have other : o ≠ owner := by
        rintro rfl
        rw [stored] at isStored
        exact different (Option.some.inj isStored).symm
      dsimp only
      rw [slots o other, isStored]
    · exact Or.inr isStoring
  case once =>
    intro n m t u atN atM same
    obtain ⟨beforeN, wasN, ownerN, _⟩ := of_abort atN
    obtain ⟨beforeM, wasM, ownerM, _⟩ := of_abort atM
    exact inv.once n m beforeN beforeM wasN wasM
      (ownerN.trans (same.trans ownerM.symm))
  case listed =>
    intro key o isListed
    have other : o ≠ owner := fun same => unlisted key (same ▸ isListed)
    obtain ⟨live, named⟩ := inv.listed key o isListed
    exact ⟨live.congr rfl (slots o other), named⟩
  case aborting =>
    intro i o aborting
    have other : o ≠ owner := fun same => unaborted i (same ▸ aborting)
    obtain ⟨live, isUnlisted⟩ := inv.aborting i o aborting
    exact ⟨live.congr rfl (slots o other), isUnlisted⟩
  case abortingOnce => exact inv.abortingOnce

theorem Inv.spawn (inv : p.Inv) (starting : p.phases i = .starting key) :
    Inv { p.enter i (.storing key p.tasks.length) with tasks := p.tasks ++ [⟨i, false⟩] } := by
  have noTask : ∀ (n : Nat) (t : Task), p.tasks[n]? = some t → t.owner ≠ i := by
    rintro n t found rfl
    rcases inv.spawned n t found with ⟨_, _, storing⟩ | ⟨_, added⟩
    · rw [starting] at storing
      cases storing
    · rw [starting] at added
      cases added
  have notStored : ∀ o t, p.slots o = some t → o ≠ i := by
    rintro o t stored rfl
    exact noTask t _ (inv.stored o t stored).1 rfl
  have others : ∀ j, j ≠ i → (p.enter i (.storing key p.tasks.length)).phases j = p.phases j :=
    fun j => enter_other p _
  have aborting : ∀ j o, (p.enter i (.storing key p.tasks.length)).phases j = .aborting o →
      p.phases j = .aborting o :=
    fun j _ => (aborting_enter (by simp [starting]) (by simp) j).mp
  have living : ∀ o, p.Live o →
      Live { p.enter i (.storing key p.tasks.length) with tasks := p.tasks ++ [⟨i, false⟩] } o := by
    intro o live
    by_cases same : o = i
    · exact same ▸ Or.inr (Or.inl ⟨key, _, enter_self ..⟩)
    · exact live.congr (others o same) rfl
  constructor
  case stored =>
    intro o t stored
    obtain ⟨running, otherKey, added⟩ := inv.stored o t stored
    exact ⟨(Run.getElem?_concat ..).mpr (Or.inl running), otherKey,
      (others o (notStored o t stored)).trans added⟩
  case storing =>
    intro o otherKey t storing
    by_cases same : o = i
    · rw [same] at storing ⊢
      cases (enter_self p i _).symm.trans storing
      exact (Run.getElem?_concat ..).mpr (Or.inr ⟨rfl, rfl⟩)
    · exact (Run.getElem?_concat ..).mpr
        (Or.inl (inv.storing o otherKey t ((others o same).symm.trans storing)))
  case spawned =>
    intro n t found
    rcases (Run.getElem?_concat ..).mp found with before | ⟨_, rfl⟩
    · have phase := others t.owner (noTask n t before)
      rcases inv.spawned n t before with ⟨otherKey, m, storing⟩ | ⟨otherKey, added⟩
      · exact Or.inl ⟨otherKey, m, phase.trans storing⟩
      · exact Or.inr ⟨otherKey, phase.trans added⟩
    · exact Or.inl ⟨key, _, enter_self ..⟩
  case running =>
    intro n o running
    rcases (Run.getElem?_concat ..).mp running with before | ⟨rfl, isNew⟩
    · rcases inv.running n o before with stored | ⟨otherKey, storing⟩
      · exact Or.inl stored
      · exact Or.inr ⟨otherKey, (others o (noTask n _ before)).trans storing⟩
    · cases isNew
      exact Or.inr ⟨key, enter_self ..⟩
  case once =>
    intro n m t u atN atM same
    rcases (Run.getElem?_concat ..).mp atN with beforeN | ⟨isLast, rfl⟩
    · rcases (Run.getElem?_concat ..).mp atM with beforeM | ⟨_, rfl⟩
      · exact inv.once n m t u beforeN beforeM same
      · exact absurd same (noTask n t beforeN)
    · rcases (Run.getElem?_concat ..).mp atM with beforeM | ⟨isLast', rfl⟩
      · exact absurd same.symm (noTask m u beforeM)
      · exact isLast.trans isLast'.symm
  case listed =>
    intro otherKey o isListed
    obtain ⟨live, named⟩ := inv.listed otherKey o isListed
    refine ⟨living o live, ?_⟩
    by_cases same : o = i
    · subst same
      rcases named with isStarting | ⟨_, storing⟩ | added
      · rw [starting] at isStarting
        cases isStarting
        exact Or.inr (Or.inl ⟨_, enter_self ..⟩)
      · rw [starting] at storing
        cases storing
      · rw [starting] at added
        cases added
    · exact named.congr (others o same)
  case aborting =>
    intro j o aborted
    obtain ⟨live, unlisted⟩ := inv.aborting j o (aborting j o aborted)
    exact ⟨living o live, unlisted⟩
  case abortingOnce =>
    intro j k o first second
    exact inv.abortingOnce j k o (aborting j o first) (aborting k o second)

theorem Inv.store (inv : p.Inv) (storing : p.phases i = .storing key task) :
    Inv { p.enter i (.added key) with slots := Function.update p.slots i (some task) } := by
  have others : ∀ j, j ≠ i → (p.enter i (.added key)).phases j = p.phases j :=
    fun j => enter_other p _
  have aborting : ∀ j o, (p.enter i (.added key)).phases j = .aborting o →
      p.phases j = .aborting o :=
    fun j _ => (aborting_enter (by simp [storing]) (by simp) j).mp
  have slots : ∀ o, o ≠ i → Function.update p.slots i (some task) o = p.slots o :=
    fun o different => Function.update_of_ne different ..
  have living : ∀ o, p.Live o →
      Live { p.enter i (.added key) with slots := Function.update p.slots i (some task) } o := by
    intro o live
    by_cases same : o = i
    · exact same ▸ Or.inr (Or.inr ⟨task, Function.update_self ..⟩)
    · exact live.congr (others o same) (slots o same)
  constructor
  case stored =>
    intro o t stored
    by_cases same : o = i
    · rw [same] at stored ⊢
      cases (Function.update_self i (some task) p.slots).symm.trans stored
      exact ⟨inv.storing i key task storing, key, enter_self ..⟩
    · obtain ⟨running, otherKey, added⟩ := inv.stored o t ((slots o same).symm.trans stored)
      exact ⟨running, otherKey, (others o same).trans added⟩
  case storing =>
    intro o otherKey t isStoring
    have other : o ≠ i := by
      rintro rfl
      cases (enter_self p o _).symm.trans isStoring
    exact inv.storing o otherKey t ((others o other).symm.trans isStoring)
  case spawned =>
    intro n t found
    by_cases same : t.owner = i
    · exact Or.inr ⟨key, same ▸ enter_self ..⟩
    · rw [others t.owner same]
      exact inv.spawned n t found
  case running =>
    intro n o running
    by_cases same : o = i
    · have onlyOne := inv.once n task _ _ running (inv.storing i key task storing) same
      rw [same, onlyOne]
      exact Or.inl (Function.update_self ..)
    · rcases inv.running n o running with stored | ⟨otherKey, isStoring⟩
      · exact Or.inl ((slots o same).trans stored)
      · exact Or.inr ⟨otherKey, (others o same).trans isStoring⟩
  case once => exact inv.once
  case listed =>
    intro otherKey o isListed
    obtain ⟨live, named⟩ := inv.listed otherKey o isListed
    refine ⟨living o live, ?_⟩
    by_cases same : o = i
    · subst same
      rcases named with isStarting | ⟨_, isStoring⟩ | added
      · rw [storing] at isStarting
        cases isStarting
      · rw [storing] at isStoring
        cases isStoring
        exact Or.inr (Or.inr (enter_self ..))
      · rw [storing] at added
        cases added
    · exact named.congr (others o same)
  case aborting =>
    intro j o aborted
    obtain ⟨live, unlisted⟩ := inv.aborting j o (aborting j o aborted)
    exact ⟨living o live, unlisted⟩
  case abortingOnce =>
    intro j k o first second
    exact inv.abortingOnce j k o (aborting j o first) (aborting k o second)

/-! ## What a step does to the leaks -/

theorem Inv.aborting_left (inv : p.Inv) (aborting : p.phases i = .aborting owner)
    (after : phase ≠ .aborting owner) (j : Nat) : (p.enter i phase).phases j ≠ .aborting owner := by
  intro abortingToo
  by_cases same : j = i
  · rw [same, enter_self] at abortingToo
    exact after abortingToo
  · rw [enter_other p _ same] at abortingToo
    exact same (inv.abortingOnce j i owner abortingToo aborting)

theorem Inv.step [DecidableEq K] (inv : p.Inv) (step : p.Step q) : q.Inv := by
  cases step with
  | decline i key idle =>
      exact inv.enter (Or.inl idle) (fun _ _ => nofun) (fun _ => nofun)
  | insert i key idle free =>
      have entered : (p.enter i (.starting key)).Inv :=
        inv.enter (Or.inl idle) (fun _ _ => nofun) (fun _ => nofun)
      have starting : (p.enter i (.starting key)).phases i = .starting key := enter_self ..
      refine entered.list (Or.inl ⟨key, starting⟩) (Or.inl starting) fun j aborting => ?_
      by_cases same : j = i
      · rw [same, starting] at aborting
        cases aborting
      · rw [enter_other p _ same] at aborting
        exact inv.not_live (Or.inl idle) (inv.aborting j i aborting).1
  | spawn i key starting => exact inv.spawn starting
  | store i key task storing => exact inv.store storing
  | unlist i key owner idle listed =>
      obtain ⟨unlistedInv, leaked⟩ := inv.unlist listed
      refine unlistedInv.enter (Or.inl idle) (fun _ _ => nofun) fun o takes => ?_
      cases takes
      exact leaked
  | take i owner task aborting stored =>
      have entered : (p.enter i .idle).Inv :=
        inv.enter (Or.inr ⟨owner, aborting⟩) (fun _ _ => nofun) (fun _ => nofun)
      exact entered.settle stored (inv.aborting i owner aborting).2
        (inv.aborting_left aborting (by simp))

theorem Inv.miss (inv : p.Inv) (miss : p.Miss q) : q.Inv := by
  cases miss with
  | miss i owner aborting nothing =>
      exact inv.enter (Or.inr ⟨owner, aborting⟩) (fun _ _ => nofun) (fun _ => nofun)

theorem leaked_congr (live : q.Live owner ↔ p.Live owner)
    (listed : ∀ key, q.listed key = some owner ↔ p.listed key = some owner)
    (aborting : ∀ j, q.phases j = .aborting owner ↔ p.phases j = .aborting owner) :
    q.Leaked owner ↔ p.Leaked owner := by
  simp only [Leaked, live, ne_eq, listed, aborting]

theorem Inv.leaked_step [DecidableEq K] (inv : p.Inv) (step : p.Step q) (o : Nat) :
    q.Leaked o ↔ p.Leaked o := by
  cases step with
  | decline i key idle =>
      refine leaked_congr ?_ (fun _ => Iff.rfl)
        (aborting_enter (by simp [idle]) (by simp))
      by_cases same : o = i
      · subst same
        simp [Live, enter_self, idle]
      · simp [Live, enter_other p _ same]
  | insert i key idle free =>
      by_cases same : o = i
      · subst same
        have before : ¬ p.Leaked o := fun leaked => inv.not_live (Or.inl idle) leaked.1
        have after := fun leaked : Leaked { p.enter o (.starting key) with
            listed := Function.update p.listed key (some o) } o =>
          leaked.2.1 key (Function.update_self ..)
        exact ⟨fun leaked => absurd leaked after, fun leaked => absurd leaked before⟩
      · refine leaked_congr ?_ (fun other => ?_) (aborting_enter (by simp [idle]) (by simp))
        · simp [Live, enter_other p _ same]
        · by_cases here : other = key
          · simp [here, free, Ne.symm same]
          · simp [Function.update_of_ne here]
  | spawn i key starting =>
      refine leaked_congr ?_ (fun _ => Iff.rfl)
        (aborting_enter (by simp [starting]) (by simp))
      by_cases same : o = i
      · subst same
        simp [Live, enter_self, starting]
      · simp [Live, enter_other p _ same]
  | store i key task storing =>
      refine leaked_congr ?_ (fun _ => Iff.rfl)
        (aborting_enter (by simp [storing]) (by simp))
      by_cases same : o = i
      · subst same
        simp [Live, enter_self, storing]
      · simp [Live, enter_other p _ same, Function.update_of_ne same]
  | unlist i key owner idle listed =>
      by_cases same : o = owner
      · subst same
        exact ⟨fun leaked => absurd (enter_self ..) (leaked.2.2 i),
          fun leaked => absurd listed (leaked.2.1 key)⟩
      · refine leaked_congr ?_ (fun other => ?_)
          (aborting_enter (by simp [idle]) (by simpa using Ne.symm same))
        · by_cases here : o = i
          · subst here
            simp [Live, enter_self, idle]
          · simp [Live, enter_other p _ here]
        · by_cases here : other = key
          · simp [here, listed, Ne.symm same]
          · simp [Function.update_of_ne here]
  | take i owner task aborting stored =>
      obtain ⟨_, otherKey, added⟩ := inv.stored owner task stored
      have different : owner ≠ i := by
        rintro rfl
        rw [aborting] at added
        cases added
      by_cases same : o = owner
      · subst same
        refine ⟨fun leaked => absurd leaked.1 ?_, fun leaked => absurd aborting (leaked.2.2 i)⟩
        simp [Live, enter_other p _ different, added]
      · refine leaked_congr ?_ (fun _ => Iff.rfl)
          (aborting_enter (by simpa [aborting] using Ne.symm same) (by simp))
        by_cases here : o = i
        · subst here
          simp [Live, enter_self, aborting, Function.update_of_ne same]
        · simp [Live, enter_other p _ here, Function.update_of_ne same]

theorem Inv.leaked_miss (inv : p.Inv) (miss : p.Miss q) : ∃ o, q.Leaked o := by
  cases miss with
  | miss i owner aborting nothing =>
      obtain ⟨live, unlisted⟩ := inv.aborting i owner aborting
      have different : owner ≠ i := by
        rintro rfl
        exact inv.not_live (Or.inr ⟨owner, aborting⟩) live
      exact ⟨owner, live.congr (enter_other p _ different) rfl, unlisted,
        inv.aborting_left aborting (by simp)⟩

/-! ## At rest -/

/-- Every listed owner has exactly one task, which is stored with it and runs, and no
task of another owner does. -/
structure Sound (p : Pool K) : Prop where
  owned : ∀ key owner, p.listed key = some owner → ∃ task, p.slots owner = some task ∧
    p.tasks[task]? = some ⟨owner, false⟩ ∧
    ∀ (n : Nat) (t : Task), p.tasks[n]? = some t → t.owner = owner → n = task
  others : ∀ (n : Nat) (t : Task), p.tasks[n]? = some t →
    (∀ key, p.listed key ≠ some t.owner) → t.aborted = true

def AtRest (p : Pool K) : Prop := ∀ i, p.phases i = .idle ∨ ∃ key, p.phases i = .added key

theorem Inv.sound_iff (inv : p.Inv) (atRest : p.AtRest) : p.Sound ↔ ∀ o, ¬ p.Leaked o := by
  have stored : ∀ o, p.Live o → ∃ task, p.slots o = some task := by
    intro o live
    rcases live with ⟨key, starting⟩ | ⟨key, task, storing⟩ | isStored
    · rcases atRest o with idle | ⟨_, added⟩ <;> simp_all
    · rcases atRest o with idle | ⟨_, added⟩ <;> simp_all
    · exact isStored
  constructor
  · rintro sound o ⟨live, unlisted, _⟩
    obtain ⟨task, isStored⟩ := stored o live
    cases sound.others task _ (inv.stored o task isStored).1 unlisted
  · intro noLeak
    constructor
    case owned =>
      intro key o listed
      obtain ⟨task, isStored⟩ := stored o (inv.listed key o listed).1
      have running := (inv.stored o task isStored).1
      exact ⟨task, isStored, running,
        fun n t found ownerIs => inv.once n task t _ found running ownerIs⟩
    case others =>
      intro n t found unlisted
      by_contra notAborted
      have isRunning : p.tasks[n]? = some ⟨t.owner, false⟩ := by
        rw [found, ← Bool.eq_false_iff.mpr notAborted]
      refine noLeak t.owner ⟨?_, unlisted, fun i aborting => ?_⟩
      · rcases inv.running n t.owner isRunning with isStored | ⟨key, storing⟩
        · exact Or.inr (Or.inr ⟨n, isStored⟩)
        · exact Or.inr (Or.inl ⟨key, n, storing⟩)
      · rcases atRest i with idle | ⟨_, added⟩ <;> simp_all

end Pool

end TaskPool
