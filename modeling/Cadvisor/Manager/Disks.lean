import Cadvisor.Host.Machine
import Cadvisor.Host.Parse
import Mathlib.Data.List.Induction

/-!
# Naming block devices

`io.stat` names devices by number; the disk map gives them their names.  It is
read again when a sample names a device it lacks, but only once per device: the
set of misses remembers what has been looked for since the last refresh.  A
device that leaves, is dropped by another device's scan, and returns, is in
that set, and nothing looks for it.
-/

set_option autoImplicit false

namespace Cadvisor

/-- `/sys/block`, and the parts of the manager that follow it. -/
structure DiskState where
  sysBlock : SysBlock
  machineInfo : MachineInfo
  diskMisses : SortedSet String

def diskKey (entry : PerDiskStats) : String :=
  toString entry.major.toNat ++ ":" ++ toString entry.minor.toNat

def unknownDisks (entries : List PerDiskStats) (map : SortedMap String DiskInfo) : List String :=
  ((entries.filter fun e => e.device = "").map diskKey).filter fun k => ¬ map.contains k

namespace DiskState

/-- `machine_info`, with `rest` for what it reads elsewhere. -/
def readMachineInfo (sysBlock : SysBlock) (rest : MachineInfo) : MachineInfo :=
  { rest with diskMap := diskMapAt sysBlock }

/-- `Manager::new`. -/
def new (sysBlock : SysBlock) (rest : MachineInfo) : DiskState :=
  ⟨sysBlock, readMachineInfo sysBlock rest, SortedMap.empty⟩

/-- `none` is a machine whose other files could not be read. -/
def refreshMachineInfo (m : DiskState) (rest : Option MachineInfo) : DiskState :=
  match rest with
  | some rest =>
      { m with
        machineInfo := readMachineInfo m.sysBlock rest
        diskMisses := SortedMap.empty }
  | none => m

def noteDisks (m : DiskState) (entries : List PerDiskStats) : DiskState :=
  let unknown := unknownDisks entries m.machineInfo.diskMap
  if unknown.isEmpty then m
  else
    let misses := SortedSet.extend m.diskMisses unknown
    if misses.keys.length = m.diskMisses.keys.length then { m with diskMisses := misses }
    else
      { m with
        diskMisses := misses
        machineInfo := { m.machineInfo with diskMap := diskMapAt m.sysBlock } }

/-! ## Runs -/

end DiskState

/-- A device appears or disappears, a container is sampled, the timer fires. -/
inductive DiskStep where
  | attach (device : BlockDevice)
  | detach (fileName : String)
  | sample (ioStat : String)
  | refresh (rest : Option MachineInfo)

namespace DiskState

def step (m : DiskState) : DiskStep → DiskState
  | .attach device =>
      { m with sysBlock := m.sysBlock.map fun devices =>
          (devices.filter fun d => d.fileName ≠ device.fileName) ++ [device] }
  | .detach fileName =>
      { m with sysBlock := m.sysBlock.map fun devices =>
          devices.filter fun d => d.fileName ≠ fileName }
  | .sample ioStat => m.noteDisks (Parse.diskIo ioStat).ioServiceBytes
  | .refresh rest => m.refreshMachineInfo rest

def run (start : DiskState) (steps : List DiskStep) : DiskState := steps.foldl step start

@[simp] theorem run_concat (start : DiskState) (steps : List DiskStep) (last : DiskStep) :
    run start (steps ++ [last]) = step (run start steps) last := by
  simp [run]

def namedDisks (ioStat : String) : List String :=
  (Parse.diskIo ioStat).ioServiceBytes.map diskKey

def unknown (m : DiskState) (ioStat : String) : List String :=
  unknownDisks (Parse.diskIo ioStat).ioServiceBytes m.machineInfo.diskMap

def NamesAttached (m : DiskState) (ioStat : String) : Prop :=
  ∀ key ∈ namedDisks ioStat, Attached m.sysBlock key → key ∈ m.machineInfo.diskMap.keys

theorem mem_unknown (m : DiskState) (ioStat : String) (key : String) :
    key ∈ m.unknown ioStat ↔ key ∈ namedDisks ioStat ∧ key ∉ m.machineInfo.diskMap.keys := by
  have unnamed : (Parse.diskIo ioStat).ioServiceBytes.filter (fun e => e.device = "") =
      (Parse.diskIo ioStat).ioServiceBytes := by
    rw [List.filter_eq_self]
    intro entry member
    simpa using Parse.diskIo_unnamed ioStat entry member
  simp only [unknown, unknownDisks, unnamed, namedDisks, List.mem_filter,
    SortedMap.contains_iff_mem_keys, decide_eq_true_eq]

theorem noteDisks_sysBlock (m : DiskState) (entries : List PerDiskStats) :
    (m.noteDisks entries).sysBlock = m.sysBlock := by
  unfold noteDisks
  dsimp only
  split_ifs <;> rfl

theorem mem_diskMisses_sample (m : DiskState) (ioStat : String) (key : String) :
    key ∈ (m.step (.sample ioStat)).diskMisses.keys ↔
      key ∈ m.diskMisses.keys ∨ key ∈ m.unknown ioStat := by
  unfold step noteDisks unknown
  dsimp only
  split_ifs with nothing old
  · rw [List.isEmpty_iff.mp nothing]
    simp
  · exact SortedSet.mem_keys_extend ..
  · exact SortedSet.mem_keys_extend ..

/-- A sample leaves an attached device without a name exactly when it looks for
none: all it lacks is in the misses. -/
theorem namesAttached_sample_iff (m : DiskState) (ioStat : String) :
    NamesAttached (m.step (.sample ioStat)) ioStat ↔
      ((∃ key ∈ m.unknown ioStat, Attached m.sysBlock key) →
        ∃ key ∈ m.unknown ioStat, key ∉ m.diskMisses.keys) := by
  have missing := mem_unknown m ioStat
  unfold NamesAttached step
  rw [noteDisks_sysBlock]
  unfold noteDisks
  dsimp only
  split_ifs with nothing old
  · rw [List.isEmpty_iff] at nothing
    have none : m.unknown ioStat = [] := nothing
    constructor
    · rintro _ ⟨key, member, _⟩
      simp [none] at member
    · intro _ key member _
      by_contra lacking
      have listed := (missing key).mpr ⟨member, lacking⟩
      simp [none] at listed
  · have known : ∀ key ∈ m.unknown ioStat, key ∈ m.diskMisses.keys :=
      (SortedSet.length_extend_eq_iff _ _).mp old
    constructor
    · rintro named ⟨key, member, attached⟩
      obtain ⟨inSample, lacking⟩ := (missing key).mp member
      exact absurd (named key inSample attached) lacking
    · intro looked key inSample attached
      by_contra lacking
      obtain ⟨other, member, fresh⟩ :=
        looked ⟨key, (missing key).mpr ⟨inSample, lacking⟩, attached⟩
      exact fresh (known other member)
  · constructor
    · intro _ _
      by_contra all
      push Not at all
      exact old ((SortedSet.length_extend_eq_iff _ _).mpr all)
    · intro _ entry _ attached
      exact (mem_keys_diskMapAt _ _).mpr attached

/-- Whether `key` was found unknown by a sample and no refresh has succeeded since. -/
def FoundUnknown (start : DiskState) (steps : List DiskStep) (key : String) : Prop :=
  ∃ before ioStat after, steps = before ++ .sample ioStat :: after ∧
    key ∈ (run start before).unknown ioStat ∧ ∀ rest, DiskStep.refresh (some rest) ∉ after

theorem foundUnknown_concat (start : DiskState) (steps : List DiskStep) (last : DiskStep)
    (key : String) :
    FoundUnknown start (steps ++ [last]) key ↔
      (∃ ioStat, last = .sample ioStat ∧ key ∈ (run start steps).unknown ioStat) ∨
        (∀ rest, last ≠ .refresh (some rest)) ∧ FoundUnknown start steps key := by
  constructor
  · rintro ⟨before, ioStat, after, split, missed, kept⟩
    induction after using List.reverseRecOn with
    | nil =>
        obtain ⟨rfl, same⟩ := List.append_inj' split rfl
        cases same
        exact Or.inl ⟨ioStat, rfl, missed⟩
    | append_singleton after final _ =>
        have shape : steps ++ [last] = (before ++ .sample ioStat :: after) ++ [final] := by
          simp [split]
        obtain ⟨rfl, same⟩ := List.append_inj' shape rfl
        cases same
        refine Or.inr ⟨fun rest is => kept rest (by simp [is]), before, ioStat, after, rfl,
          missed, fun rest member => kept rest (by simp [member])⟩
  · rintro (⟨ioStat, rfl, missed⟩ | ⟨keeps, before, ioStat, after, rfl, missed, kept⟩)
    · exact ⟨steps, ioStat, [], rfl, missed, by simp⟩
    · refine ⟨before, ioStat, after ++ [last], by simp, missed, fun rest member => ?_⟩
      rcases List.mem_append.mp member with earlier | isLast
      · exact kept rest earlier
      · exact keeps rest (List.mem_singleton.mp isLast).symm

theorem mem_diskMisses_run (sysBlock : SysBlock) (rest : MachineInfo) (steps : List DiskStep)
    (key : String) :
    key ∈ (run (new sysBlock rest) steps).diskMisses.keys ↔
      FoundUnknown (new sysBlock rest) steps key := by
  induction steps using List.reverseRecOn with
  | nil => simp [run, new, FoundUnknown]
  | append_singleton steps last ih =>
      rw [run_concat, foundUnknown_concat, ← ih]
      cases last with
      | attach device => simp [step]
      | detach fileName => simp [step]
      | sample ioStat => simp [mem_diskMisses_sample, or_comm]
      | refresh read => cases read <;> simp [step, refreshMachineInfo]

/-- In a run every sample names what is attached exactly when every sample that
finds an attached device unknown also finds one that no sample has found
unknown since the last refresh. -/
theorem namesAttached_run_iff (sysBlock : SysBlock) (rest : MachineInfo)
    (steps : List DiskStep) :
    (∀ before ioStat after, steps = before ++ .sample ioStat :: after →
        NamesAttached (run (new sysBlock rest) (before ++ [.sample ioStat])) ioStat) ↔
      ∀ before ioStat after, steps = before ++ .sample ioStat :: after →
        (∃ key ∈ (run (new sysBlock rest) before).unknown ioStat,
          Attached (run (new sysBlock rest) before).sysBlock key) →
        ∃ key ∈ (run (new sysBlock rest) before).unknown ioStat,
          ¬ FoundUnknown (new sysBlock rest) before key := by
  simp only [run_concat, namesAttached_sample_iff, mem_diskMisses_run]

/-- A volume is attached and named, leaves, is dropped from the map by the scan
for a loop device, and returns: it stays without a name. -/
theorem returning_disk_unnamed :
    ¬ ∀ (sysBlock : SysBlock) (rest : MachineInfo) (steps : List DiskStep) before ioStat after,
      steps = before ++ .sample ioStat :: after →
      NamesAttached (run (new sysBlock rest) (before ++ [.sample ioStat])) ioStat := by
  intro claimed
  have named := claimed (some []) {}
    [.attach ⟨"sdb", some "8:16\n", some "2048\n", none⟩, .sample "8:16 rbytes=1\n",
      .detach "sdb", .sample "7:0 rbytes=1\n",
      .attach ⟨"sdb", some "8:16\n", some "2048\n", none⟩, .sample "8:16 rbytes=1\n"]
    [.attach ⟨"sdb", some "8:16\n", some "2048\n", none⟩, .sample "8:16 rbytes=1\n",
      .detach "sdb", .sample "7:0 rbytes=1\n",
      .attach ⟨"sdb", some "8:16\n", some "2048\n", none⟩]
    "8:16 rbytes=1\n" [] rfl
  have listed := named "8:16" (by decide +kernel)
    ⟨[⟨"sdb", some "8:16\n", some "2048\n", none⟩], by decide +kernel, _,
      List.mem_singleton.mpr rfl, by decide +kernel, by decide +kernel, by decide +kernel⟩
  exact absurd listed (by decide +kernel)

end DiskState

end Cadvisor
