import Cadvisor.Lib.Run

/-!
# Values reloaded when their files change

A certificate, a key or a list of tokens is read from files that others replace at
any time.  Looking at the files' metadata and reading their contents are steps of
their own, one for each file, so a file can be replaced between any two of them.
-/

set_option autoImplicit false

namespace Cadvisor

/-- `RECHECK` in nanoseconds. -/
def recheck : Nat := 5 * 1000000000

/-- Modification time, size and inode of a file, if there is one. -/
abbrev FileStamp := Option (Int64 × Int64 × UInt64 × UInt64)

/-- A path with what is there now; `past` has every stamp it ever had. -/
structure WatchedFile (C : Type) where
  stamp : FileStamp
  content : C
  past : List FileStamp
  stampKnown : stamp ∈ past

def WatchedFile.replaced {C : Type} (f : WatchedFile C) (stamp : FileStamp) (content : C) :
    WatchedFile C :=
  ⟨stamp, content, stamp :: f.past, List.mem_cons_self ..⟩

/-- What `new` or the one `get` that has the lock is doing. -/
inductive WatchPhase (C : Type) where
  | idle
  | stamping (done : List FileStamp)
  | loading (stamps : List FileStamp) (read : List C)
  | failed

/-- `state` has the value, its stamps and the time of the last check once `new` has
returned; `loads` keeps what each call of `load` has read. -/
structure Watched (C T : Type) where
  files : List (WatchedFile C)
  clock : Nat
  state : Option (T × List FileStamp × Nat)
  phase : WatchPhase C
  returned : List T
  loads : List (List C)

inductive WatchAction (C : Type) where
  | replace (path : Nat) (stamp : FileStamp) (content : C)
  | tick (nanos : Nat)
  | get
  | proceed

namespace Watched

variable {C T : Type} (load : List C → Option T)

def new (files : List (WatchedFile C)) : Watched C T :=
  ⟨files, 0, none, .stamping [], [], []⟩

def value (w : Watched C T) : Option T := w.state.map Prod.fst

def finish (w : Watched C T) (v : T) : Watched C T :=
  { w with phase := .idle, returned := w.returned ++ [v] }

def stamped (w : Watched C T) (stamps : List FileStamp) : Watched C T :=
  match w.state with
  | none => { w with phase := .loading stamps [] }
  | some (v, known, _) =>
      if stamps ≠ known then { w with phase := .loading stamps [] } else w.finish v

def loaded (w : Watched C T) (stamps : List FileStamp) (read : List C) : Watched C T :=
  let w := { w with loads := w.loads ++ [read] }
  match w.state, load read with
  | none, some v => { w with state := some (v, stamps, w.clock), phase := .idle }
  | none, none => { w with phase := .failed }
  | some (_, _, checked), some v => finish { w with state := some (v, stamps, checked) } v
  | some (v, _, _), none => w.finish v

def proceed (w : Watched C T) : Option (Watched C T) :=
  match w.phase with
  | .stamping done =>
      match w.files[done.length]? with
      | some f => some { w with phase := .stamping (done ++ [f.stamp]) }
      | none => some (w.stamped done)
  | .loading stamps read =>
      match w.files[read.length]? with
      | some f => some { w with phase := .loading stamps (read ++ [f.content]) }
      | none => some (w.loaded load stamps read)
  | .idle => none
  | .failed => none

def get (w : Watched C T) : Option (Watched C T) :=
  match w.phase, w.state with
  | .idle, some (v, stamps, checked) =>
      if recheck ≤ w.clock - checked then
        some { w with state := some (v, stamps, w.clock), phase := .stamping [] }
      else some (w.finish v)
  | _, _ => none

/-- A replacement gives its path a stamp that it never had. -/
def replace (w : Watched C T) (path : Nat) (stamp : FileStamp) (content : C) :
    Option (Watched C T) :=
  match w.files[path]? with
  | none => none
  | some f =>
      if stamp ∈ f.past then none
      else some { w with files := w.files.set path (f.replaced stamp content) }

def step (w : Watched C T) : WatchAction C → Option (Watched C T)
  | .replace path stamp content => w.replace path stamp content
  | .tick nanos => some { w with clock := w.clock + nanos }
  | .get => w.get
  | .proceed => w.proceed load

/-! ## Stamps that are as old as what was read -/

variable {files : List (WatchedFile C)} {stamps : List FileStamp} {read : List C}

def Seen (files : List (WatchedFile C)) (stamps : List FileStamp) : Prop :=
  ∀ (i : Nat) (f : WatchedFile C) (st : FileStamp), files[i]? = some f → stamps[i]? = some st → st ∈ f.past

/-- What was read behind a stamp is what the path has as long as it has that stamp. -/
def Backed (files : List (WatchedFile C)) (stamps : List FileStamp) (read : List C) : Prop :=
  ∀ (i : Nat) (f : WatchedFile C) (c : C), files[i]? = some f → stamps[i]? = some f.stamp →
    read[i]? = some c → c = f.content

theorem of_replace {path i : Nat} {f g h : WatchedFile C} (here : files[path]? = some f)
    (isFile : (files.set path g)[i]? = some h) :
    i = path ∧ h = g ∨ files[i]? = some h := by
  by_cases same : i = path
  · rw [same, List.getElem?_set_self (List.getElem?_eq_some_iff.mp here).1,
      Option.some.injEq] at isFile
    exact Or.inl ⟨same, isFile.symm⟩
  · rw [List.getElem?_set_ne (Ne.symm same)] at isFile
    exact Or.inr isFile

theorem seen_replace {path : Nat} {f : WatchedFile C} {stamp : FileStamp} {content : C}
    (here : files[path]? = some f) (seen : Seen files stamps) :
    Seen (files.set path (f.replaced stamp content)) stamps := by
  intro i g st isFile isStamp
  rcases of_replace here isFile with ⟨rfl, rfl⟩ | unmoved
  · exact List.mem_cons_of_mem _ (seen i f st here isStamp)
  · exact seen i g st unmoved isStamp

theorem backed_replace {path : Nat} {f : WatchedFile C} {stamp : FileStamp} {content : C}
    (here : files[path]? = some f) (fresh : stamp ∉ f.past) (seen : Seen files stamps)
    (backed : Backed files stamps read) :
    Backed (files.set path (f.replaced stamp content)) stamps read := by
  intro i g c isFile isStamp isRead
  rcases of_replace here isFile with ⟨rfl, rfl⟩ | unmoved
  · exact absurd (seen i f stamp here isStamp) fresh
  · exact backed i g c unmoved isStamp isRead

theorem seen_concat {f : WatchedFile C} (here : files[stamps.length]? = some f)
    (seen : Seen files stamps) : Seen files (stamps ++ [f.stamp]) := by
  intro i g st isFile isStamp
  rcases (Run.getElem?_concat ..).mp isStamp with before | ⟨rfl, rfl⟩
  · exact seen i g st isFile before
  · rw [here, Option.some.injEq] at isFile
    exact isFile ▸ f.stampKnown

theorem backed_concat {f : WatchedFile C} (here : files[read.length]? = some f)
    (backed : Backed files stamps read) : Backed files stamps (read ++ [f.content]) := by
  intro i g c isFile isStamp isRead
  rcases (Run.getElem?_concat ..).mp isRead with before | ⟨rfl, rfl⟩
  · exact backed i g c isFile isStamp before
  · rw [here, Option.some.injEq] at isFile
    rw [isFile]

theorem read_eq_of_backed (backed : Backed files stamps read)
    (stampsNow : stamps = files.map WatchedFile.stamp) (complete : read.length = files.length) :
    read = files.map WatchedFile.content := by
  apply List.ext_getElem?
  intro i
  rw [List.getElem?_map]
  cases isFile : files[i]? with
  | none =>
      have outside := List.getElem?_eq_none_iff.mp isFile
      rw [List.getElem?_eq_none (by omega)]
      rfl
  | some f =>
      have inside := (List.getElem?_eq_some_iff.mp isFile).1
      have isRead : read[i]? = some read[i] := List.getElem?_eq_getElem (by omega)
      have isStamp : stamps[i]? = some f.stamp := by
        rw [stampsNow, List.getElem?_map, isFile]
        rfl
      rw [isRead, backed i f read[i] isFile isStamp isRead]
      rfl

theorem seen_nil (files : List (WatchedFile C)) : Seen files [] := by
  intro i f st _ isStamp
  rw [List.getElem?_nil] at isStamp
  cases isStamp

theorem backed_nil (files : List (WatchedFile C)) (stamps : List FileStamp) :
    Backed files stamps [] := by
  intro i f c _ _ isRead
  rw [List.getElem?_nil] at isRead
  cases isRead

/-! ## Every run -/

/-- The value that is served was loaded, after the stamps that are kept with it. -/
def Kept (w : Watched C T) : Prop :=
  ∀ v stamps checked, w.state = some (v, stamps, checked) → ∃ read ∈ w.loads,
    load read = some v ∧ read.length = w.files.length ∧ Seen w.files stamps ∧
      Backed w.files stamps read

structure Inv (w : Watched C T) : Prop where
  kept : Kept load w
  stamping : ∀ done, w.phase = .stamping done → Seen w.files done
  loading : ∀ stamps read, w.phase = .loading stamps read → Seen w.files stamps ∧
    Backed w.files stamps read ∧ read.length ≤ w.files.length
  returned : ∀ v ∈ w.returned, ∃ read ∈ w.loads, load read = some v

variable {load}

theorem inv_new (files : List (WatchedFile C)) : Inv load (new files : Watched C T) where
  kept := nofun
  stamping := by
    rintro done ⟨⟩
    exact seen_nil files
  loading := nofun
  returned := nofun

theorem inv_idle {w : Watched C T} (kept : Kept load w)
    (returned : ∀ v ∈ w.returned, ∃ read ∈ w.loads, load read = some v) (idle : w.phase = .idle) :
    Inv load w where
  kept := kept
  stamping := by
    intro done phase
    rw [idle] at phase
    cases phase
  loading := by
    intro stamps read phase
    rw [idle] at phase
    cases phase
  returned := returned

theorem inv_finish {w : Watched C T} (kept : Kept load w)
    (returned : ∀ v ∈ w.returned, ∃ read ∈ w.loads, load read = some v) {v : T}
    (served : ∃ read ∈ w.loads, load read = some v) : Inv load (w.finish v) := by
  refine inv_idle kept (fun u member => ?_) rfl
  rcases List.mem_append.mp member with before | last
  · exact returned u before
  · exact List.mem_singleton.mp last ▸ served

theorem Inv.stamped {w : Watched C T} (inv : Inv load w) {done : List FileStamp}
    (phase : w.phase = .stamping done) : Inv load (w.stamped done) := by
  have begins : Inv load { w with phase := .loading done [] } :=
    { kept := inv.kept
      stamping := nofun
      loading := by
        rintro stamps read ⟨⟩
        exact ⟨inv.stamping done phase, backed_nil _ _, Nat.zero_le _⟩
      returned := inv.returned }
  unfold Watched.stamped
  split
  · exact begins
  · rename_i v known checked stateIs
    split_ifs
    · exact begins
    · obtain ⟨read, loaded, value, _⟩ := inv.kept v known checked stateIs
      exact inv_finish inv.kept inv.returned ⟨read, loaded, value⟩

/-- A load that succeeds backs the stamps taken before it, one that fails changes nothing. -/
theorem Inv.loaded {w : Watched C T} (inv : Inv load w) {stamps : List FileStamp} {read : List C}
    (phase : w.phase = .loading stamps read) (complete : read.length = w.files.length) :
    Inv load (w.loaded load stamps read) := by
  obtain ⟨seen, backed, _⟩ := inv.loading stamps read phase
  have mine : read ∈ w.loads ++ [read] := List.mem_append_right _ (List.mem_singleton_self _)
  have returned : ∀ v ∈ w.returned, ∃ cs ∈ w.loads ++ [read], load cs = some v := by
    intro v member
    obtain ⟨cs, loaded, value⟩ := inv.returned v member
    exact ⟨cs, List.mem_append_left _ loaded, value⟩
  unfold Watched.loaded
  dsimp only
  split
  · rename_i v stateIs loadIs
    refine inv_idle ?_ returned rfl
    rintro u known checked ⟨⟩
    exact ⟨read, mine, loadIs, complete, seen, backed⟩
  · rename_i stateIs loadIs
    have nothing : Kept load { w with loads := w.loads ++ [read], phase := .failed } := by
      intro v known checked isState
      dsimp only at isState
      rw [stateIs] at isState
      cases isState
    exact { kept := nothing, stamping := nofun, loading := nofun, returned := returned }
  · rename_i old known checked v stateIs loadIs
    refine inv_finish ?_ returned ⟨read, mine, loadIs⟩
    rintro u knownNow checkedNow ⟨⟩
    exact ⟨read, mine, loadIs, complete, seen, backed⟩
  · rename_i v known checked stateIs loadIs
    obtain ⟨cs, loaded, value, others⟩ := inv.kept v known checked stateIs
    refine inv_finish (fun u knownNow checkedNow isState => ?_) returned
      ⟨cs, List.mem_append_left _ loaded, value⟩
    obtain ⟨cs', loaded', value', others'⟩ := inv.kept u knownNow checkedNow isState
    exact ⟨cs', List.mem_append_left _ loaded', value', others'⟩

theorem Inv.proceed {w next : Watched C T} (inv : Inv load w)
    (step : w.proceed load = some next) : Inv load next := by
  unfold Watched.proceed at step
  split at step
  · rename_i done phase
    split at step
    · rename_i f here
      cases step
      exact
        { kept := inv.kept
          stamping := by
            rintro stamps ⟨⟩
            exact seen_concat here (inv.stamping done phase)
          loading := nofun
          returned := inv.returned }
    · cases step
      exact inv.stamped phase
  · rename_i stamps read phase
    obtain ⟨seen, backed, within⟩ := inv.loading stamps read phase
    split at step
    · rename_i f here
      cases step
      exact
        { kept := inv.kept
          stamping := nofun
          loading := by
            rintro stampsNow readNow ⟨⟩
            refine ⟨seen, backed_concat here backed, ?_⟩
            rw [List.length_append]
            exact (List.getElem?_eq_some_iff.mp here).1
          returned := inv.returned }
    · rename_i all
      cases step
      exact inv.loaded phase (Nat.le_antisymm within (List.getElem?_eq_none_iff.mp all))
  · cases step
  · cases step

theorem Inv.replace {w next : Watched C T} (inv : Inv load w) {path : Nat} {stamp : FileStamp}
    {content : C} (step : w.replace path stamp content = some next) : Inv load next := by
  unfold Watched.replace at step
  split at step
  · cases step
  · rename_i f here
    split_ifs at step with old
    cases step
    constructor
    case kept =>
      intro v stamps checked stateIs
      obtain ⟨read, loaded, value, complete, seen, backed⟩ := inv.kept v stamps checked stateIs
      exact ⟨read, loaded, value, complete.trans (List.length_set ..).symm,
        seen_replace here seen, backed_replace here old seen backed⟩
    case stamping => exact fun done phase => seen_replace here (inv.stamping done phase)
    case loading =>
      intro stamps read phase
      obtain ⟨seen, backed, within⟩ := inv.loading stamps read phase
      exact ⟨seen_replace here seen, backed_replace here old seen backed,
        Nat.le_trans within (Nat.le_of_eq (List.length_set ..).symm)⟩
    case returned => exact inv.returned

theorem Inv.get {w next : Watched C T} (inv : Inv load w) (step : w.get = some next) :
    Inv load next := by
  unfold Watched.get at step
  split at step
  · rename_i v stamps checked idle stateIs
    obtain ⟨read, loaded, value, others⟩ := inv.kept v stamps checked stateIs
    split_ifs at step
    · cases step
      constructor
      case kept =>
        rintro u known checkedNow ⟨⟩
        exact ⟨read, loaded, value, others⟩
      case stamping =>
        rintro done ⟨⟩
        exact seen_nil _
      case loading => exact nofun
      case returned => exact inv.returned
    · cases step
      exact inv_finish inv.kept inv.returned ⟨read, loaded, value⟩
  · cases step

theorem step_inv {w next : Watched C T} {a : WatchAction C} (inv : Inv load w)
    (step : w.step load a = some next) : Inv load next := by
  cases a with
  | replace path stamp content => exact inv.replace step
  | tick nanos =>
      cases step
      exact ⟨inv.kept, inv.stamping, inv.loading, inv.returned⟩
  | get => exact inv.get step
  | proceed => exact inv.proceed step

def NotReplace : WatchAction C → Prop
  | .replace _ _ _ => False
  | _ => True

/-- The files are as before, and what was returned stays returned. -/
def Extends (w next : Watched C T) : Prop :=
  next.files = w.files ∧ ∃ more, next.returned = w.returned ++ more

theorem extends_of_same {w next : Watched C T} (files : next.files = w.files)
    (returned : next.returned = w.returned) : Extends w next :=
  ⟨files, [], returned.trans (List.append_nil _).symm⟩

theorem extends_stamped (w : Watched C T) (stamps : List FileStamp) :
    Extends w (w.stamped stamps) := by
  unfold Watched.stamped
  split
  · exact extends_of_same rfl rfl
  · split_ifs
    · exact extends_of_same rfl rfl
    · exact ⟨rfl, _, rfl⟩

theorem extends_loaded (w : Watched C T) (stamps : List FileStamp) (read : List C) :
    Extends w (w.loaded load stamps read) := by
  unfold Watched.loaded
  dsimp only
  split
  · exact extends_of_same rfl rfl
  · exact extends_of_same rfl rfl
  · exact ⟨rfl, _, rfl⟩
  · exact ⟨rfl, _, rfl⟩

theorem step_extends {w next : Watched C T} {a : WatchAction C} (static : NotReplace a)
    (step : w.step load a = some next) : Extends w next := by
  cases a with
  | replace path stamp content => exact absurd static id
  | tick nanos =>
      cases step
      exact extends_of_same rfl rfl
  | get =>
      simp only [Watched.step, Watched.get] at step
      split at step
      · split_ifs at step
        · cases step
          exact extends_of_same rfl rfl
        · cases step
          exact ⟨rfl, _, rfl⟩
      · cases step
  | proceed =>
      simp only [Watched.step, Watched.proceed] at step
      split at step
      · split at step
        · cases step
          exact extends_of_same rfl rfl
        · cases step
          exact extends_stamped w _
      · split at step
        · cases step
          exact extends_of_same rfl rfl
        · cases step
          exact extends_loaded w _ _
      · cases step
      · cases step

/-! ## A check of files that no longer change -/

def Checking (w : Watched C T) : Prop :=
  w.state.isSome ∧
    ((∃ done, w.phase = .stamping done ∧
        done = (w.files.map WatchedFile.stamp).take done.length) ∨
      ∃ read, w.phase = .loading (w.files.map WatchedFile.stamp) read ∧
        read = (w.files.map WatchedFile.content).take read.length)

def todo (w : Watched C T) : Nat :=
  match w.phase with
  | .stamping done => 2 * w.files.length + 2 - done.length
  | .loading _ read => w.files.length + 1 - read.length
  | _ => 0

theorem take_concat {α : Type} {xs : List α} {n : Nat} {x : α} (here : xs[n]? = some x) :
    xs.take n ++ [x] = xs.take (n + 1) := by
  rw [List.take_add_one, here]
  rfl

theorem Checking.proceed {w : Watched C T} (checking : Checking w) (inv : Inv load w) {v : T}
    (loads : load (w.files.map WatchedFile.content) = some v) :
    ∃ next, w.proceed load = some next ∧ next.files = w.files ∧
      (Checking next ∧ next.returned = w.returned ∧ todo next < todo w ∨
        next.returned = w.returned ++ [v]) := by
  obtain ⟨started, ⟨done, phase, doneIs⟩ | ⟨read, phase, readIs⟩⟩ := checking
  · have within : done.length ≤ w.files.length := by
      have bound := congrArg List.length doneIs
      rw [List.length_take, List.length_map] at bound
      omega
    cases isFile : w.files[done.length]? with
    | some f =>
        refine ⟨{ w with phase := .stamping (done ++ [f.stamp]) }, ?_, rfl,
          Or.inl ⟨⟨started, Or.inl ⟨_, rfl, ?_⟩⟩, rfl, ?_⟩⟩
        · simp only [Watched.proceed, phase, isFile]
        · have here : (w.files.map WatchedFile.stamp)[done.length]? = some f.stamp := by
            rw [List.getElem?_map, isFile]
            rfl
          rw [List.length_append, List.length_singleton, ← take_concat here, ← doneIs]
        · have inside := (List.getElem?_eq_some_iff.mp isFile).1
          simp only [todo, phase, List.length_append, List.length_singleton]
          omega
    | none =>
        have all : w.files.length = done.length :=
          Nat.le_antisymm (List.getElem?_eq_none_iff.mp isFile) within
        have doneAll : done = w.files.map WatchedFile.stamp := by
          have same : (w.files.map WatchedFile.stamp).length = w.files.length := List.length_map ..
          rw [doneIs, ← all, ← same, List.take_length]
        obtain ⟨⟨old, known, checked⟩, stateIs⟩ := Option.isSome_iff_exists.mp started
        refine ⟨w.stamped done, ?_, ?_⟩
        · simp only [Watched.proceed, phase, isFile]
        · simp only [Watched.stamped, stateIs]
          split_ifs with changed
          · refine ⟨rfl, Or.inl ⟨⟨rfl, Or.inr ⟨[], ?_, rfl⟩⟩, rfl, ?_⟩⟩
            · rw [doneAll]
            · simp only [todo, phase, List.length_nil]
              omega
          · obtain ⟨read, loaded, value, complete, _, backed⟩ :=
              inv.kept old known checked stateIs
            have stampsNow := (not_not.mp changed).symm.trans doneAll
            have readNow := read_eq_of_backed backed stampsNow complete
            rw [readNow, loads, Option.some.injEq] at value
            exact ⟨rfl, Or.inr (value ▸ rfl)⟩
  · have within := (inv.loading _ read phase).2.2
    cases isFile : w.files[read.length]? with
    | some f =>
        refine ⟨{ w with phase := .loading (w.files.map WatchedFile.stamp) (read ++ [f.content]) },
          ?_, rfl, Or.inl ⟨⟨started, Or.inr ⟨_, rfl, ?_⟩⟩, rfl, ?_⟩⟩
        · simp only [Watched.proceed, phase, isFile]
        · have here : (w.files.map WatchedFile.content)[read.length]? = some f.content := by
            rw [List.getElem?_map, isFile]
            rfl
          rw [List.length_append, List.length_singleton, ← take_concat here, ← readIs]
        · have inside := (List.getElem?_eq_some_iff.mp isFile).1
          simp only [todo, phase, List.length_append, List.length_singleton]
          omega
    | none =>
        have all : w.files.length = read.length :=
          Nat.le_antisymm (List.getElem?_eq_none_iff.mp isFile) within
        have readAll : read = w.files.map WatchedFile.content := by
          have same : (w.files.map WatchedFile.content).length = w.files.length :=
            List.length_map ..
          rw [readIs, ← all, ← same, List.take_length]
        obtain ⟨⟨old, known, checked⟩, stateIs⟩ := Option.isSome_iff_exists.mp started
        refine ⟨w.loaded load (w.files.map WatchedFile.stamp) read, ?_, ?_⟩
        · simp only [Watched.proceed, phase, isFile]
        · simp only [Watched.loaded, stateIs, readAll, loads]
          exact ⟨rfl, Or.inr rfl⟩

theorem Checking.returns {w : Watched C T} (checking : Checking w) (inv : Inv load w) {v : T}
    (loads : load (w.files.map WatchedFile.content) = some v) :
    ∃ k final, Run.exec (step load) w (List.replicate k .proceed) = some final ∧
      final.returned = w.returned ++ [v] := by
  induction left : todo w using Nat.strongRecOn generalizing w with
  | _ n ih =>
      obtain ⟨next, stepIs, files, goesOn | ends⟩ := checking.proceed inv loads
      · obtain ⟨stillChecking, returned, less⟩ := goesOn
        obtain ⟨k, final, run, value⟩ := ih (todo next) (left ▸ less) stillChecking
          (inv.proceed stepIs) (files ▸ loads) rfl
        refine ⟨k + 1, final, ?_, returned ▸ value⟩
        rw [List.replicate_succ, Run.exec_cons, Watched.step, stepIs]
        exact run
      · refine ⟨1, next, ?_, ends⟩
        rw [List.replicate_one, Run.exec_cons, Watched.step, stepIs]
        rfl

def Answers (load : List C → Option T) (base : List T) (v : T) (w : Watched C T) : Prop :=
  Inv load w ∧ load (w.files.map WatchedFile.content) = some v ∧
    (Checking w ∧ w.returned = base ∨ ∃ more, w.returned = base ++ v :: more)

theorem Answers.step {base : List T} {v : T} {w next : Watched C T} {a : WatchAction C}
    (answers : Answers load base v w) (static : NotReplace a)
    (step : w.step load a = some next) : Answers load base v next := by
  obtain ⟨inv, loads, checking | ⟨more, returned⟩⟩ := answers
  · obtain ⟨checking, returned⟩ := checking
    cases a with
    | replace path stamp content => exact absurd static id
    | tick nanos =>
        cases step
        exact ⟨step_inv (a := .tick nanos) inv rfl, loads, Or.inl ⟨checking, returned⟩⟩
    | get =>
        -- The lock is taken.
        exfalso
        simp only [Watched.step, Watched.get] at step
        split at step
        · rename_i idle _
          obtain ⟨_, ⟨_, phase, _⟩ | ⟨_, phase, _⟩⟩ := checking
          · rw [idle] at phase
            cases phase
          · rw [idle] at phase
            cases phase
        · cases step
    | proceed =>
        obtain ⟨next', stepIs, files, goesOn | ends⟩ := checking.proceed inv loads
        all_goals
          rw [Watched.step, stepIs, Option.some.injEq] at step
          subst step
        · obtain ⟨stillChecking, same, _⟩ := goesOn
          exact ⟨inv.proceed stepIs, files ▸ loads,
            Or.inl ⟨stillChecking, same.trans returned⟩⟩
        · exact ⟨inv.proceed stepIs, files ▸ loads, Or.inr ⟨[], ends.trans (returned ▸ rfl)⟩⟩
  · obtain ⟨files, others, more'⟩ := step_extends static step
    refine ⟨step_inv inv step, files ▸ loads, Or.inr ⟨more ++ others, ?_⟩⟩
    rw [more', returned, List.append_assoc, List.cons_append]

theorem get_due {w : Watched C T} {old : T} {stamps : List FileStamp} {checked : Nat}
    (idle : w.phase = .idle) (stateIs : w.state = some (old, stamps, checked))
    (due : recheck ≤ w.clock - checked) :
    ∃ next, w.get = some next ∧ next.files = w.files ∧ next.returned = w.returned ∧
      Checking next := by
  refine ⟨{ w with state := some (old, stamps, w.clock), phase := .stamping [] }, ?_, rfl, rfl,
    rfl, Or.inl ⟨[], rfl, rfl⟩⟩
  simp only [Watched.get, idle, stateIs, if_pos due]

/-- The next `get` returns `v` as long as no file is replaced any more. -/
def NextReturns (load : List C → Option T) (w : Watched C T) (v : T) : Prop :=
  (∃ k final, Run.exec (step load) w (.get :: List.replicate k .proceed) = some final ∧
    final.returned = w.returned ++ [v]) ∧
  ∀ later final, (∀ a ∈ later, NotReplace a) →
    Run.exec (step load) w (.get :: later) = some final →
      final.returned = w.returned ∨ ∃ more, final.returned = w.returned ++ v :: more

theorem nextReturns {w : Watched C T} (inv : Inv load w) {old v : T} {stamps : List FileStamp}
    {checked : Nat} (idle : w.phase = .idle) (stateIs : w.state = some (old, stamps, checked))
    (due : recheck ≤ w.clock - checked)
    (loads : load (w.files.map WatchedFile.content) = some v) : NextReturns load w v := by
  obtain ⟨next, getIs, files, returned, checking⟩ := get_due idle stateIs due
  have nextInv := inv.get getIs
  have nextLoads : load (next.files.map WatchedFile.content) = some v := files ▸ loads
  constructor
  · obtain ⟨k, final, run, value⟩ := checking.returns nextInv nextLoads
    refine ⟨k, final, ?_, returned ▸ value⟩
    rw [Run.exec_cons, Watched.step, getIs]
    exact run
  · intro later final static run
    rw [Run.exec_cons, Watched.step, getIs, Option.bind_some] at run
    have allowed : Run.Allowed (step load) (fun _ a => NotReplace a) next later :=
      Run.allowed_of_forall static
    have answers : Answers load w.returned v final :=
      Run.exec_keeps (fun _ _ _ answers static step => answers.step static step)
        ⟨nextInv, nextLoads, Or.inl ⟨checking, returned⟩⟩ allowed run
    exact answers.2.2.imp And.right id

theorem step_loads {w next : Watched C T} {a : WatchAction C} (step : w.step load a = some next) :
    next.loads = w.loads ∨ ∃ stamps read, next = w.loaded load stamps read := by
  cases a with
  | replace path stamp content =>
      simp only [Watched.step, Watched.replace] at step
      split at step
      · cases step
      · split_ifs at step
        cases step
        exact Or.inl rfl
  | tick nanos =>
      cases step
      exact Or.inl rfl
  | get =>
      simp only [Watched.step, Watched.get] at step
      split at step
      · split_ifs at step <;> (cases step; exact Or.inl rfl)
      · cases step
  | proceed =>
      simp only [Watched.step, Watched.proceed] at step
      split at step
      · split at step
        · cases step
          exact Or.inl rfl
        · cases step
          left
          unfold Watched.stamped
          split
          · rfl
          · split_ifs <;> rfl
      · split at step
        · cases step
          exact Or.inl rfl
        · cases step
          exact Or.inr ⟨_, _, rfl⟩
      · cases step
      · cases step

theorem value_of_failed_load {w next : Watched C T} {a : WatchAction C} {read : List C}
    (step : w.step load a = some next) (loads : next.loads = w.loads ++ [read])
    (fails : load read = none) : next.value = w.value := by
  rcases step_loads step with same | ⟨stamps, readNow, rfl⟩
  · rw [same] at loads
    exact absurd (List.self_eq_append_right.mp loads) (List.cons_ne_nil _ _)
  · have loadsAre : (w.loaded load stamps readNow).loads = w.loads ++ [readNow] := by
      unfold Watched.loaded
      dsimp only
      split <;> rfl
    have same := List.append_cancel_left (loadsAre.symm.trans loads)
    cases same
    cases stateIs : w.state with
    | none => simp [Watched.loaded, stateIs, fails, value]
    | some state => simp [Watched.loaded, stateIs, fails, value, finish]

/-- Every value that `get` returns was loaded; a failed load leaves the served value;
and when the files have stopped changing and can be loaded, a `get` that is due
returns what they give. -/
theorem get_correct (files : List (WatchedFile C)) {actions : List (WatchAction C)}
    {w : Watched C T} (run : Run.exec (step load) (new files) actions = some w) :
    (∀ v ∈ w.returned, ∃ read ∈ w.loads, load read = some v) ∧
    (∀ a next read, w.step load a = some next → next.loads = w.loads ++ [read] →
      load read = none → next.value = w.value) ∧
    ∀ old v stamps checked, w.phase = .idle → w.state = some (old, stamps, checked) →
      recheck ≤ w.clock - checked → load (w.files.map WatchedFile.content) = some v →
        NextReturns load w v := by
  have inv : Inv load w :=
    Run.exec_keeps_all (fun _ _ _ inv step => step_inv inv step) (inv_new files) run
  refine ⟨inv.returned, fun a next read step loaded fails => ?_, ?_⟩
  · exact value_of_failed_load step loaded fails
  · intro old v stamps checked idle stateIs due loads
    exact nextReturns inv idle stateIs due loads

def numbered (stamp : Int64) (number : Nat) : WatchedFile Nat :=
  ⟨some (stamp, 0, 1, 1), number, [some (stamp, 0, 1, 1)], List.mem_singleton_self _⟩

/-- A certificate and a key with different numbers do not match. -/
def loadPair : List Nat → Option Nat
  | [cert, key] => if cert = key then some cert else none
  | _ => none

/-- The key is replaced before the certificate, and a `get` comes in between. -/
def keyFirst : List (WatchAction Nat) :=
  List.replicate 6 .proceed ++ [.replace 1 (some (20, 0, 1, 2)) 2, .tick recheck, .get] ++
    List.replicate 6 .proceed ++ [.replace 0 (some (21, 0, 1, 2)) 2, .tick recheck]

theorem get_correct_keyFirst :
    ∃ w, Run.exec (step loadPair) (new [numbered 10 1, numbered 11 1]) keyFirst = some w ∧
      w.returned = [1] ∧ NextReturns loadPair w 2 := by
  have ran : (Run.exec (step loadPair) (new [numbered 10 1, numbered 11 1]) keyFirst).map
      (fun w => (w.returned, w.phase, w.state, w.clock, w.files.map WatchedFile.content)) =
        some ([1], .idle, some (1, [some (10, 0, 1, 1), some (11, 0, 1, 1)], recheck),
          2 * recheck, [2, 2]) := rfl
  obtain ⟨w, run, now⟩ := Option.map_eq_some_iff.mp ran
  simp only [Prod.mk.injEq] at now
  obtain ⟨returned, idle, stateIs, clock, contents⟩ := now
  have due : recheck ≤ w.clock - recheck := by
    rw [clock]
    decide
  have loads : loadPair (w.files.map WatchedFile.content) = some 2 := by
    rw [contents]
    rfl
  exact ⟨w, run, returned, (get_correct _ run).2.2 1 2 _ recheck idle stateIs due loads⟩

end Watched

end Cadvisor
