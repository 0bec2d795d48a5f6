import Cadvisor.Lib.Grouping
import Cadvisor.Lib.Run
import Cadvisor.Manager.Disks

/-!
# Concurrent samples and re-scans of the disk map

Many housekeeping tasks run `note_disks` at the same time, beside the refresh of
the machine info.  The map and the set of misses have a lock each, so a call
goes on by one lock-protected step at a time and everything else may happen
between two of its steps.
-/

set_option autoImplicit false

namespace Cadvisor

open Representatives

/-- What a call of `note_disks` or of `refresh_machine_info` does next. -/
inductive DiskCall where
  | lookUp (entries : List PerDiskStats)
  | extend (unknown : List String)
  | scan
  | storeMap (map : SortedMap String DiskInfo)
  | read
  | replace (info : MachineInfo)
  | clear
  | returned

/-- `decided` lists the calls that have decided to scan, each with what was unknown to it. -/
structure Rescans where
  disks : DiskState
  calls : List DiskCall
  decided : List (Nat × List String)

/-- A device comes or goes, a call begins, or the call `i` takes its next step;
`rest` is what reading the machine info gives apart from the disks. -/
inductive RescanStep where
  | change (sysBlock : SysBlock)
  | sample (entries : List PerDiskStats)
  | refresh
  | goOn (i : Nat) (rest : Option MachineInfo)

namespace Rescans

def new (sysBlock : SysBlock) (rest : MachineInfo) : Rescans := ⟨.new sysBlock rest, [], []⟩

def enter (s : Rescans) (i : Nat) (call : DiskCall) : Rescans :=
  { s with calls := s.calls.set i call }

def withMap (s : Rescans) (map : SortedMap String DiskInfo) : Rescans :=
  { s with disks := { s.disks with machineInfo := { s.disks.machineInfo with diskMap := map } } }

/-- The second step of `note_disks`, under the lock of the misses. -/
def extendMisses (s : Rescans) (i : Nat) (unknown : List String) : Rescans :=
  let misses := SortedSet.extend s.disks.diskMisses unknown
  let next := { s with disks := { s.disks with diskMisses := misses } }
  if misses.keys.length = s.disks.diskMisses.keys.length then next.enter i .returned
  else { next with decided := s.decided ++ [(i, unknown)] }.enter i .scan

def callStep (s : Rescans) (i : Nat) (rest : Option MachineInfo) : DiskCall → Option Rescans
  | .lookUp entries =>
      let unknown := unknownDisks entries s.disks.machineInfo.diskMap
      some (s.enter i (if unknown.isEmpty then .returned else .extend unknown))
  | .extend unknown => some (s.extendMisses i unknown)
  | .scan => some (s.enter i (.storeMap (diskMapAt s.disks.sysBlock)))
  | .storeMap map => some ((s.withMap map).enter i .returned)
  | .read =>
      match rest with
      | none => some (s.enter i .returned)
      | some rest => some (s.enter i (.replace (DiskState.readMachineInfo s.disks.sysBlock rest)))
  | .replace info => some ({ s with disks := { s.disks with machineInfo := info } }.enter i .clear)
  | .clear =>
      some ({ s with disks := { s.disks with diskMisses := SortedMap.empty } }.enter i .returned)
  | .returned => none

def step (s : Rescans) : RescanStep → Option Rescans
  | .change sysBlock => some { s with disks := { s.disks with sysBlock } }
  | .sample entries => some { s with calls := s.calls ++ [.lookUp entries] }
  | .refresh => some { s with calls := s.calls ++ [.read] }
  | .goOn i rest => s.calls[i]?.bind fun call => s.callStep i rest call

def Clears (s : Rescans) : RescanStep → Prop
  | .goOn i _ => s.calls[i]? = some .clear
  | _ => False

theorem goOn_eq {s : Rescans} {i : Nat} {call : DiskCall} (here : s.calls[i]? = some call)
    (rest : Option MachineInfo) : s.step (.goOn i rest) = s.callStep i rest call := by
  rw [step, here]
  rfl

theorem enter_self {s : Rescans} {i : Nat} (bound : i < s.calls.length) (call : DiskCall) :
    (s.enter i call).calls[i]? = some call :=
  List.getElem?_set_self bound

/-! ## One call alone -/

/-- With nothing between its steps, the call `i` returns and leaves `disks`. -/
def Finishes (s : Rescans) (i : Nat) (disks : DiskState) : Prop :=
  ∃ n final, Run.exec step s (List.replicate n (.goOn i none)) = some final ∧
    final.disks = disks ∧ final.calls[i]? = some .returned

theorem finishes_returned {s : Rescans} {i : Nat} (bound : i < s.calls.length) :
    Finishes (s.enter i .returned) i s.disks :=
  ⟨0, s.enter i .returned, rfl, rfl, enter_self bound _⟩

theorem Finishes.step {s next : Rescans} {i : Nat} {call : DiskCall} {disks : DiskState}
    (here : s.calls[i]? = some call) (goes : s.callStep i none call = some next)
    (later : Finishes next i disks) : Finishes s i disks := by
  obtain ⟨n, final, run, disksAre, returned⟩ := later
  refine ⟨n + 1, final, ?_, disksAre, returned⟩
  rw [List.replicate_succ, Run.exec_cons, goOn_eq here, goes]
  exact run

theorem enter_length (s : Rescans) (i : Nat) (call : DiskCall) :
    (s.enter i call).calls.length = s.calls.length :=
  List.length_set ..

theorem finishes_scan {s : Rescans} {i : Nat} (bound : i < s.calls.length) :
    Finishes (s.enter i .scan) i (s.withMap (diskMapAt s.disks.sysBlock)).disks := by
  refine Finishes.step (enter_self bound _) rfl ?_
  have stillBound : i < (s.enter i .scan).calls.length := (enter_length s i _).symm ▸ bound
  refine Finishes.step (enter_self stillBound _) rfl ?_
  apply finishes_returned
  simpa [withMap, enter] using bound

theorem finishes_extendMisses {s : Rescans} {i : Nat} (bound : i < s.calls.length)
    (entries : List PerDiskStats)
    (known : ¬ (unknownDisks entries s.disks.machineInfo.diskMap).isEmpty = true) :
    Finishes (s.extendMisses i (unknownDisks entries s.disks.machineInfo.diskMap)) i
      (s.disks.noteDisks entries) := by
  unfold extendMisses DiskState.noteDisks
  dsimp only
  rw [if_neg known]
  split_ifs
  · exact finishes_returned bound
  · exact finishes_scan bound

theorem noteDisks_alone (s : Rescans) (entries : List PerDiskStats) :
    ∃ began, s.step (.sample entries) = some began ∧
      Finishes began s.calls.length (s.disks.noteDisks entries) := by
  refine ⟨_, rfl, Finishes.step (List.getElem?_concat_length ..) rfl ?_⟩
  have bound : s.calls.length < (s.calls ++ [DiskCall.lookUp entries]).length := by simp
  split_ifs with nothing
  · have unchanged : s.disks.noteDisks entries = s.disks := by
      unfold DiskState.noteDisks
      exact if_pos nothing
    rw [unchanged]
    exact finishes_returned bound
  · refine Finishes.step (enter_self bound _) rfl ?_
    exact finishes_extendMisses ((enter_length ..).symm ▸ bound) entries nothing

/-! ## Scans between two clears -/

/-- Since `cleared`, each scan that was decided on has a key of its own among what
was unknown to it, and that key is a miss. -/
def Assigned (cleared s : Rescans) : Prop :=
  ∃ scans keys, s.decided = cleared.decided ++ scans ∧ Represents keys (scans.map Prod.snd) ∧
    ∀ key ∈ keys, key ∈ s.disks.diskMisses.keys

theorem assigned_self (s : Rescans) : Assigned s s :=
  ⟨[], [], (List.append_nil _).symm, .nil, fun _ member => by cases member⟩

theorem Assigned.of_same {cleared s next : Rescans} (assigned : Assigned cleared s)
    (decided : next.decided = s.decided)
    (misses : ∀ key ∈ s.disks.diskMisses.keys, key ∈ next.disks.diskMisses.keys) :
    Assigned cleared next := by
  obtain ⟨scans, keys, split, rep, missed⟩ := assigned
  exact ⟨scans, keys, decided.trans split, rep, fun key member => misses key (missed key member)⟩

theorem Assigned.extendMisses {cleared s : Rescans} (assigned : Assigned cleared s) (i : Nat)
    (unknown : List String) : Assigned cleared (s.extendMisses i unknown) := by
  have grows : ∀ key ∈ s.disks.diskMisses.keys,
      key ∈ (SortedSet.extend s.disks.diskMisses unknown).keys := fun key member =>
    (SortedSet.mem_keys_extend ..).mpr (Or.inl member)
  unfold Rescans.extendMisses
  dsimp only
  split_ifs with old
  · exact assigned.of_same rfl grows
  · rw [SortedSet.length_extend_eq_iff] at old
    push Not at old
    obtain ⟨fresh, member, isNew⟩ := old
    obtain ⟨scans, keys, split, rep, missed⟩ := assigned
    refine ⟨scans ++ [(i, unknown)], keys ++ [fresh], ?_, ?_, ?_⟩
    · rw [← List.append_assoc, ← split]
      rfl
    · rw [List.map_append]
      exact rep.concat member fun earlier => isNew (missed fresh earlier)
    · intro key assignedKey
      rcases List.mem_append.mp assignedKey with earlier | last
      · exact grows key (missed key earlier)
      · rw [List.mem_singleton.mp last]
        exact (SortedSet.mem_keys_extend ..).mpr (Or.inr member)

theorem Assigned.callStep {cleared s next : Rescans} (assigned : Assigned cleared s) {i : Nat}
    {rest : Option MachineInfo} {call : DiskCall} (keeps : call ≠ .clear)
    (stepIs : s.callStep i rest call = some next) : Assigned cleared next := by
  cases call with
  | lookUp entries =>
      cases stepIs
      exact assigned.of_same rfl fun _ => id
  | extend unknown =>
      cases stepIs
      exact assigned.extendMisses i unknown
  | scan =>
      cases stepIs
      exact assigned.of_same rfl fun _ => id
  | storeMap map =>
      cases stepIs
      exact assigned.of_same rfl fun _ => id
  | read =>
      cases rest with
      | none =>
          cases stepIs
          exact assigned.of_same rfl fun _ => id
      | some rest =>
          cases stepIs
          exact assigned.of_same rfl fun _ => id
  | replace info =>
      cases stepIs
      exact assigned.of_same rfl fun _ => id
  | clear => exact absurd rfl keeps
  | returned => cases stepIs

theorem Assigned.step {cleared s next : Rescans} (assigned : Assigned cleared s) {a : RescanStep}
    (keeps : ¬ s.Clears a) (stepIs : s.step a = some next) : Assigned cleared next := by
  cases a with
  | change sysBlock =>
      cases stepIs
      exact assigned.of_same rfl fun _ => id
  | sample entries =>
      cases stepIs
      exact assigned.of_same rfl fun _ => id
  | refresh =>
      cases stepIs
      exact assigned.of_same rfl fun _ => id
  | goOn i rest =>
      obtain ⟨call, here, goes⟩ := Option.bind_eq_some_iff.mp stepIs
      refine assigned.callStep (fun isClear => keeps ?_) goes
      rw [Clears, here, isClear]

/-! ## Where the keys come from -/

/-- In the run, the call `i` has looked its entries up in the disk map, which
lacked `unknown`. -/
def Reported (start : Rescans) (steps : List RescanStep) (i : Nat) (unknown : List String) : Prop :=
  ∃ earlier entries s, earlier <+: steps ∧ Run.exec step start earlier = some s ∧
    s.calls[i]? = some (.lookUp entries) ∧
    unknown = unknownDisks entries s.disks.machineInfo.diskMap

theorem Reported.concat {start : Rescans} {steps : List RescanStep} {i : Nat}
    {unknown : List String} (reported : Reported start steps i unknown) (last : RescanStep) :
    Reported start (steps ++ [last]) i unknown := by
  obtain ⟨earlier, entries, s, before, rest⟩ := reported
  exact ⟨earlier, entries, s, before.trans (List.prefix_append ..), rest⟩

/-- Whatever has been decided on, or is about to be, has been reported unknown. -/
def AllReported (start : Rescans) (steps : List RescanStep) (s : Rescans) : Prop :=
  (∀ scan ∈ s.decided, Reported start steps scan.1 scan.2) ∧
    ∀ i unknown, s.calls[i]? = some (.extend unknown) → Reported start steps i unknown

theorem of_enter_extend {s : Rescans} {i j : Nat} {call : DiskCall} {unknown : List String}
    (found : (s.enter i call).calls[j]? = some (.extend unknown)) :
    (j = i ∧ call = .extend unknown) ∨ s.calls[j]? = some (.extend unknown) := by
  unfold enter at found
  rw [List.getElem?_set] at found
  split_ifs at found with same bound
  · exact Or.inl ⟨same.symm, Option.some.inj found⟩
  · exact Or.inr found

theorem AllReported.enter {start s : Rescans} {steps : List RescanStep}
    (all : AllReported start steps s) (i : Nat) {call : DiskCall} (disks : DiskState)
    (reported : ∀ unknown, call = .extend unknown → Reported start steps i unknown) :
    AllReported start steps ({ s with disks }.enter i call) := by
  refine ⟨all.1, fun j unknown found => ?_⟩
  rcases of_enter_extend found with ⟨rfl, isExtend⟩ | old
  · exact reported unknown isExtend
  · exact all.2 j unknown old

theorem AllReported.append {start s : Rescans} {steps : List RescanStep}
    (all : AllReported start steps s) {call : DiskCall}
    (plain : ∀ unknown, call ≠ .extend unknown) :
    AllReported start steps { s with calls := s.calls ++ [call] } := by
  refine ⟨all.1, fun j unknown found => ?_⟩
  rcases (Run.getElem?_concat _ _ _ _).mp found with old | ⟨_, isLast⟩
  · exact all.2 j unknown old
  · exact absurd isLast.symm (plain unknown)

theorem AllReported.callStep {start s next : Rescans} {steps : List RescanStep}
    (all : AllReported start steps s) (run : Run.exec Rescans.step start steps = some s) {i : Nat}
    {call : DiskCall} (here : s.calls[i]? = some call) {rest : Option MachineInfo}
    (stepIs : s.callStep i rest call = some next) : AllReported start steps next := by
  cases call with
  | lookUp entries =>
      cases stepIs
      refine all.enter i s.disks fun unknown isExtend => ?_
      split_ifs at isExtend
      cases isExtend
      exact ⟨steps, entries, s, List.prefix_refl steps, run, here, rfl⟩
  | extend unknown =>
      cases stepIs
      unfold Rescans.extendMisses
      dsimp only
      split_ifs
      · exact all.enter i _ fun _ => nofun
      · have decided :
            AllReported start steps { s with decided := s.decided ++ [(i, unknown)] } := by
          refine ⟨fun scan member => ?_, all.2⟩
          rcases List.mem_append.mp member with earlier | last
          · exact all.1 scan earlier
          · rw [List.mem_singleton.mp last]
            exact all.2 i unknown here
        exact decided.enter i _ fun _ => nofun
  | scan =>
      cases stepIs
      exact all.enter i s.disks fun _ => nofun
  | storeMap map =>
      cases stepIs
      exact all.enter i _ fun _ => nofun
  | read =>
      cases rest with
      | none =>
          cases stepIs
          exact all.enter i s.disks fun _ => nofun
      | some rest =>
          cases stepIs
          exact all.enter i s.disks fun _ => nofun
  | replace info =>
      cases stepIs
      exact all.enter i _ fun _ => nofun
  | clear =>
      cases stepIs
      exact all.enter i _ fun _ => nofun
  | returned => cases stepIs

theorem run_reported (sysBlock : SysBlock) (rest : MachineInfo) (steps : List RescanStep)
    {s : Rescans} (run : Run.exec step (new sysBlock rest) steps = some s) :
    AllReported (new sysBlock rest) steps s := by
  induction steps using List.reverseRecOn generalizing s with
  | nil =>
      cases run
      refine ⟨fun scan impossible => ?_, fun i unknown impossible => ?_⟩ <;> cases impossible
  | append_singleton steps a ih =>
      rw [Run.exec, List.foldlM_append] at run
      obtain ⟨before, earlier, last⟩ := Option.bind_eq_some_iff.mp run
      have stepIs : before.step a = some s := by simpa using last
      have all := ih earlier
      have stepped : AllReported (new sysBlock rest) steps s := by
        cases a with
        | change sysBlock =>
            cases stepIs
            exact all
        | sample entries =>
            cases stepIs
            refine all.append fun unknown impossible => ?_
            cases impossible
        | refresh =>
            cases stepIs
            refine all.append fun unknown impossible => ?_
            cases impossible
        | goOn i answer =>
            obtain ⟨call, here, goes⟩ := Option.bind_eq_some_iff.mp stepIs
            exact all.callStep earlier here goes
      exact ⟨fun scan member => (stepped.1 scan member).concat a,
        fun i unknown found => (stepped.2 i unknown found).concat a⟩

/-- Whatever calls and devices do between two clears of the misses, the scans that
are decided on can be assigned distinct keys, each unknown to the call that
decided; there are no more scans than unknown keys, and at most `n` of them
look for keys of a set of `n` alone. -/
theorem rescans_assigned (sysBlock : SysBlock) (rest : MachineInfo)
    {before between : List RescanStep} {cleared final : Rescans}
    (reached : Run.exec step (new sysBlock rest) before = some cleared)
    (unclear : Run.Allowed step (fun s a => ¬ s.Clears a) cleared between)
    (run : Run.exec step cleared between = some final) :
    ∃ scans, final.decided = cleared.decided ++ scans ∧
      (∀ scan ∈ scans, Reported (new sysBlock rest) (before ++ between) scan.1 scan.2) ∧
      (∃ keys : List String, keys.Nodup ∧
        List.Forall₂ (fun key scan => key ∈ scan.2) keys scans) ∧
      scans.length ≤ (scans.flatMap Prod.snd).toFinset.card ∧
      ∀ devices : Finset String,
        (scans.filter fun scan => ∀ key ∈ scan.2, key ∈ devices).length ≤ devices.card := by
  have kept : Assigned cleared final :=
    Run.exec_keeps (fun s a next assigned keeps stepIs => Assigned.step assigned keeps stepIs)
      (assigned_self cleared) unclear run
  obtain ⟨scans, keys, split, rep, _⟩ := kept
  have whole : Run.exec step (new sysBlock rest) (before ++ between) = some final := by
    rw [Run.exec, List.foldlM_append]
    exact Option.bind_eq_some_iff.mpr ⟨cleared, reached, run⟩
  have all := run_reported sysBlock rest _ whole
  refine ⟨scans, split, fun scan member => all.1 scan ?_, ⟨keys, rep.1, ?_⟩, ?_, ?_⟩
  · rw [split]
    exact List.mem_append_right _ member
  · exact List.forall₂_map_right_iff.mp rep.2
  · rw [← List.length_map Prod.snd, List.flatMap_def]
    refine rep.length_le_card fun list member key inList => ?_
    exact List.mem_toFinset.mpr (List.mem_flatten.mpr ⟨list, member, inList⟩)
  · intro devices
    have bound := rep.filter_length_le_card devices
    rw [List.filter_map, List.length_map] at bound
    exact bound

/-- A row of `io.stat` for a loop device, which no disk map has. -/
def loopEntries : List PerDiskStats := [{ major := 7, minor := 0 }]

/-- Two calls look the same loop device up before either adds it to the misses. -/
def bothLookUp : List RescanStep :=
  [.sample loopEntries, .sample loopEntries, .goOn 0 none, .goOn 1 none, .goOn 1 none,
    .goOn 0 none]

theorem one_scan_for_loop :
    ∃ final, Run.exec step (new none {}) bothLookUp = some final ∧
      final.decided.map Prod.snd = [["7:0"]] ∧
      (final.decided.filter fun scan => ∀ key ∈ scan.2, key ∈ ({"7:0"} : Finset String)).length ≤
        1 := by
  obtain ⟨final, run, decided⟩ : ∃ final,
      Run.exec step (new none {}) bothLookUp = some final ∧
        final.decided.map Prod.snd = [["7:0"]] :=
    ⟨_, rfl, by decide +kernel⟩
  have unclear : Run.Allowed step (fun s a => ¬ s.Clears a) (new none {}) bothLookUp := by
    unfold bothLookUp
    refine (Run.allowed_cons rfl).mpr ⟨id, (Run.allowed_cons rfl).mpr ⟨id, ?_⟩⟩
    refine (Run.allowed_cons rfl).mpr ⟨nofun, (Run.allowed_cons rfl).mpr ⟨nofun, ?_⟩⟩
    exact (Run.allowed_cons rfl).mpr ⟨nofun, (Run.allowed_cons rfl).mpr ⟨nofun, trivial⟩⟩
  obtain ⟨scans, split, _, _, _, bounds⟩ :=
    rescans_assigned none {} (show Run.exec step _ [] = some _ from rfl) unclear run
  refine ⟨final, run, decided, ?_⟩
  rw [split]
  exact bounds {"7:0"}

end Rescans

end Cadvisor
