import Cadvisor.Host.Cgroup
import Cadvisor.Lib.Fallible

/-!
# The readers in a build that checks its arithmetic

The same readers, with every sum, difference and product of 64-bit numbers
checked.  Such a build panics where a release build wraps.  A checked reader
gives what the release build gives exactly if the numbers of the file stay below
a bound of their own, which the parsers do not ask for.
-/

set_option autoImplicit false

namespace Cadvisor

/-- What ends a checked reader early: an error of the host, or the panic. -/
inductive Halt where
  | host (e : HostError)
  | overflow
  deriving DecidableEq

def Halt.arith {α : Type} : Option α → Except Halt α
  | none => .error .overflow
  | some a => .ok a

namespace Parse

def checkedCpuWeightToShares (weight : UInt64) : Option UInt64 :=
  if weight = 0 then some 0
  else do
    let less ← Checked.sub weight 1
    let scaled ← Checked.mul less 262142
    Checked.add 2 (scaled / 9999)

def checkedMeminfoLine (out : MemInfo) (line : String) : Option MemInfo :=
  match Str.splitWhitespace line with
  | key :: rest =>
      let v := (rest.head?.map u64Field).getD 0
      if key = "MemTotal:" then
        (Checked.mul v 1024).map fun totalBytes => { out with totalBytes }
      else if key = "SwapTotal:" then
        (Checked.mul v 1024).map fun swapBytes => { out with swapBytes }
      else some out
  | [] => some out

def checkedMeminfo (content : String) : Option MemInfo :=
  (Str.lines content).foldlM checkedMeminfoLine {}

/-! ## Where they do not panic -/

def lastValue (content key : String) : UInt64 :=
  (((flatKeyed content).reverse.find? fun e => e.1 = key).map fun e => u64Field e.2).getD 0

/-- The four times of `cpu.stat` fit in nanoseconds. -/
def CpuStatFits (content : String) : Prop :=
  ∀ key ∈ ["usage_usec", "user_usec", "system_usec", "throttled_usec"],
    (lastValue content key).toNat * 1000 < 2 ^ 64

/-- A weight `w` other than 0 fits if `(w - 1) * 262142` does. -/
def WeightFits (content : String) : Prop := ((u64OrMax content).toNat - 1) * 262142 < 2 ^ 64

/-- The total on a line of `/proc/meminfo` fits in bytes. -/
def MeminfoLineFits (line : String) : Prop :=
  ∀ key value rest, Str.splitWhitespace line = key :: value :: rest →
    key = "MemTotal:" ∨ key = "SwapTotal:" → (u64Field value).toNat * 1024 < 2 ^ 64

/-- Every such line does, also one that a later line overrides. -/
def MeminfoFits (content : String) : Prop := ∀ line ∈ Str.lines content, MeminfoLineFits line

theorem lastValue_of_fold {β : Type} (get : β → UInt64) (step : β → String × String → β)
    (key : String) {start : β} (zero : get start = 0)
    (stepIs : ∀ out e, get (step out e) = if e.1 = key then u64Field e.2 else get out)
    (entries : List (String × String)) :
    get (entries.foldl step start) =
      ((entries.reverse.find? fun e => e.1 = key).map fun e => u64Field e.2).getD 0 := by
  induction entries using List.reverseRecOn with
  | nil => exact zero
  | append_singleton entries e ih =>
      rw [List.foldl_append, List.foldl_cons, List.foldl_nil, stepIs, List.reverse_append,
        List.reverse_singleton, List.singleton_append, List.find?_cons]
      by_cases same : e.1 = key
      · simp [same]
      · simp [same, ih]

theorem sub_one {weight : UInt64} (positive : weight ≠ 0) :
    Checked.sub weight 1 = some (weight - 1) ∧ (weight - 1).toNat = weight.toNat - 1 := by
  have one : (1 : UInt64) ≤ weight := by
    rw [UInt64.le_iff_toNat_le]
    exact Nat.one_le_iff_ne_zero.mpr fun same => positive (UInt64.toNat_inj.mp same)
  exact ⟨Checked.sub_of_le one, UInt64.toNat_sub_of_le _ _ one⟩

theorem checkedCpuWeightToShares_eq {weight : UInt64}
    (fits : (weight.toNat - 1) * 262142 < 2 ^ 64) :
    checkedCpuWeightToShares weight = some (cpuWeightToShares weight) := by
  unfold checkedCpuWeightToShares cpuWeightToShares
  by_cases zero : weight = 0
  · rw [if_pos zero, if_pos zero]
  · obtain ⟨diminished, less⟩ := sub_one zero
    have factor : (262142 : UInt64).toNat = 262142 := rfl
    have scaled : Checked.mul (weight - 1) 262142 = some ((weight - 1) * 262142) :=
      Checked.mul_of_lt (by rw [less, factor]; exact fits)
    have divided : (((weight - 1) * 262142) / 9999).toNat ≤ ((weight - 1) * 262142).toNat / 2 := by
      rw [UInt64.toNat_div]
      exact Nat.div_le_div_left (by decide) (by decide)
    have bound := ((weight - 1) * 262142).toNat_lt
    have two : (2 : UInt64).toNat = 2 := rfl
    rw [if_neg zero, if_neg zero, diminished, Option.bind_eq_bind, Option.bind_some, scaled,
      Option.bind_some, Checked.add_of_lt]
    omega

theorem checkedCpuWeightToShares_eq_none {weight : UInt64}
    (overflows : ¬ (weight.toNat - 1) * 262142 < 2 ^ 64) :
    checkedCpuWeightToShares weight = none := by
  unfold checkedCpuWeightToShares
  by_cases zero : weight = 0
  · rw [zero] at overflows
    exact absurd (by decide) overflows
  · obtain ⟨diminished, less⟩ := sub_one zero
    have factor : (262142 : UInt64).toNat = 262142 := rfl
    have failed : Checked.mul (weight - 1) 262142 = none :=
      Checked.mul_of_not_lt (by rw [less, factor]; exact overflows)
    rw [if_neg zero, diminished, Option.bind_eq_bind, Option.bind_some, failed]
    rfl

theorem checkedMeminfoLine_eq (out : MemInfo) {line : String} (fits : MeminfoLineFits line) :
    checkedMeminfoLine out line = some (meminfoLine out line) := by
  unfold checkedMeminfoLine meminfoLine
  cases words : Str.splitWhitespace line with
  | nil => rfl
  | cons key rest =>
      have factor : (1024 : UInt64).toNat = 1024 := rfl
      have product : key = "MemTotal:" ∨ key = "SwapTotal:" →
          Checked.mul ((rest.head?.map u64Field).getD 0) 1024 =
            some ((rest.head?.map u64Field).getD 0 * 1024) := by
        intro total
        apply Checked.mul_of_lt
        rw [factor]
        cases rest with
        | nil =>
            rw [List.head?_nil, Option.map_none, Option.getD_none]
            decide
        | cons value rest => exact fits key value rest words total
      dsimp only
      by_cases memory : key = "MemTotal:"
      · rw [if_pos memory, if_pos memory, product (Or.inl memory)]
        rfl
      · rw [if_neg memory, if_neg memory]
        by_cases swap : key = "SwapTotal:"
        · rw [if_pos swap, if_pos swap, product (Or.inr swap)]
          rfl
        · rw [if_neg swap, if_neg swap]

theorem checkedMeminfoLine_eq_none (out : MemInfo) {line : String}
    (overflows : ¬ MeminfoLineFits line) : checkedMeminfoLine out line = none := by
  unfold MeminfoLineFits at overflows
  push Not at overflows
  obtain ⟨key, value, rest, words, total, large⟩ := overflows
  have factor : (1024 : UInt64).toNat = 1024 := rfl
  have failed : Checked.mul (u64Field value) 1024 = none :=
    Checked.mul_of_not_lt (by rw [factor]; exact Nat.not_lt.mpr large)
  unfold checkedMeminfoLine
  rw [words]
  dsimp only [List.head?_cons, Option.map_some, Option.getD_some]
  rw [failed]
  rcases total with memory | swap
  · rw [if_pos memory]
    rfl
  · rw [if_neg (by rw [swap]; decide), if_pos swap]
    rfl

end Parse

namespace CgroupReader

open Parse

def checkedReadCpu (files : Files) : Except Halt CpuStats := do
  let content ← (readOpt files "cpu.stat").mapError .host
  match content with
  | none => .ok {}
  | some content =>
      let c := Parse.cpuStat content
      let total ← Halt.arith (Checked.mul c.usageUsec 1000)
      let user ← Halt.arith (Checked.mul c.userUsec 1000)
      let system ← Halt.arith (Checked.mul c.systemUsec 1000)
      let throttledTime ← Halt.arith (Checked.mul c.throttledUsec 1000)
      .ok
        { usage := { total, user, system }
          cfs := { periods := c.nrPeriods, throttledPeriods := c.nrThrottled, throttledTime } }

/-- The memory part subtracts with saturation only. -/
def checkedReadStats (files : Files) (timestamp : GoTime) : Except Halt ContainerStats := do
  let cpu ← checkedReadCpu files
  let memory ← (readMemory files).mapError .host
  let events ← (readOpt files "memory.events").mapError .host
  let io ← (readOpt files "io.stat").mapError .host
  .ok
    { timestamp
      cpu
      memory
      oomEvents := (events.map Parse.oomKill).getD 0
      diskIo := (io.map Parse.diskIo).getD {} }

def checkedReadSpec (access : SpecAccess) (cgroup : String) : Except Halt CgroupSpec := do
  let creationTime ← access.metadata.mapError .host
  let weight ← (readU64OrMax access.files "cpu.weight").mapError .host
  let cpuShares ← Halt.arith ((weight.map checkedCpuWeightToShares).getD (some 0))
  let max ← (readOpt access.files "cpu.max").mapError .host
  let mask ← (readOpt access.files "cpuset.cpus.effective").mapError .host
  let memoryLimit ← (readU64OrMax access.files "memory.max").mapError .host
  let swapLimit ← (readU64OrMax access.files "memory.swap.max").mapError .host
  let memoryReservation ← (readU64OrMax access.files "memory.low").mapError .host
  let pidsLimit ← (readU64OrMax access.files "pids.max").mapError .host
  .ok
    { creationTime
      hasCpu := true
      hasMemory := access.memoryMaxExists || cgroup = "/"
      hasProcesses := true
      hasDiskIo := true
      cpuShares
      cpuQuota := (max.map fun content => (Parse.cpuMax content).1).getD none
      cpuPeriod := (max.map fun content => (Parse.cpuMax content).2).getD 0
      cpuMask := (mask.map Str.trim).getD ""
      memoryLimit := memoryLimit.getD 0
      swapLimit := swapLimit.getD 0
      memoryReservation := memoryReservation.getD 0
      pidsLimit := pidsLimit.getD 0 }

/-! ## The bounds of a file that is read -/

def StatsFit (files : Files) : Prop :=
  ∀ content, files "cpu.stat" = .content content → CpuStatFits content

def SpecFits (access : SpecAccess) : Prop :=
  ∀ modified content, access.metadata = .ok modified →
    access.files "cpu.weight" = .content content → WeightFits content

theorem cpuStat_eq (content : String) :
    (Parse.cpuStat content).usageUsec = lastValue content "usage_usec" ∧
      (Parse.cpuStat content).userUsec = lastValue content "user_usec" ∧
      (Parse.cpuStat content).systemUsec = lastValue content "system_usec" ∧
      (Parse.cpuStat content).throttledUsec = lastValue content "throttled_usec" := by
  refine ⟨?_, ?_, ?_, ?_⟩
  · apply lastValue_of_fold CpuStatFile.usageUsec cpuStatLine "usage_usec" rfl
    intro out e
    unfold cpuStatLine
    grind
  · apply lastValue_of_fold CpuStatFile.userUsec cpuStatLine "user_usec" rfl
    intro out e
    unfold cpuStatLine
    grind
  · apply lastValue_of_fold CpuStatFile.systemUsec cpuStatLine "system_usec" rfl
    intro out e
    unfold cpuStatLine
    grind
  · apply lastValue_of_fold CpuStatFile.throttledUsec cpuStatLine "throttled_usec" rfl
    intro out e
    unfold cpuStatLine
    grind

theorem arith_nanos (usec : UInt64) :
    (usec.toNat * 1000 < 2 ^ 64 → Halt.arith (Checked.mul usec 1000) = .ok (usec * 1000)) ∧
      (¬ usec.toNat * 1000 < 2 ^ 64 → Halt.arith (Checked.mul usec 1000) = .error .overflow) := by
  have factor : (1000 : UInt64).toNat = 1000 := rfl
  constructor
  · intro fits
    rw [Checked.mul_of_lt (by rw [factor]; exact fits)]
    rfl
  · intro overflows
    rw [Checked.mul_of_not_lt (by rw [factor]; exact overflows)]
    rfl

theorem checkedReadCpu_of_fits {files : Files} (fits : StatsFit files) :
    checkedReadCpu files = (readCpu files).mapError .host := by
  unfold checkedReadCpu readCpu
  rw [readOpt_eq]
  cases content : files "cpu.stat" with
  | notFound => rfl
  | failed => rfl
  | content text =>
      obtain ⟨usage, user, system, throttled⟩ := cpuStat_eq text
      have bound := fits text content
      dsimp only [Except.mapError, bind, Except.bind]
      rw [(arith_nanos _).1 (usage ▸ bound "usage_usec" (by simp)),
        (arith_nanos _).1 (user ▸ bound "user_usec" (by simp)),
        (arith_nanos _).1 (system ▸ bound "system_usec" (by simp)),
        (arith_nanos _).1 (throttled ▸ bound "throttled_usec" (by simp))]

theorem checkedReadCpu_of_not_fits {files : Files} (overflows : ¬ StatsFit files) :
    checkedReadCpu files = .error .overflow := by
  unfold StatsFit CpuStatFits at overflows
  push Not at overflows
  obtain ⟨text, content, key, member, large⟩ := overflows
  obtain ⟨usage, user, system, throttled⟩ := cpuStat_eq text
  have failed := (arith_nanos (lastValue text key)).2 (Nat.not_lt.mpr large)
  have alternative : ∀ usec : UInt64, Halt.arith (Checked.mul usec 1000) = .ok (usec * 1000) ∨
      Halt.arith (Checked.mul usec 1000) = .error .overflow := fun usec =>
    (em (usec.toNat * 1000 < 2 ^ 64)).imp (arith_nanos usec).1 (arith_nanos usec).2
  unfold checkedReadCpu
  rw [readOpt_eq, content]
  dsimp only [Except.mapError, bind, Except.bind]
  rw [usage, user, system, throttled]
  rcases alternative (lastValue text "usage_usec") with first | first <;> rw [first]
  rcases alternative (lastValue text "user_usec") with second | second <;> rw [second]
  rcases alternative (lastValue text "system_usec") with third | third <;> rw [third]
  rcases alternative (lastValue text "throttled_usec") with fourth | fourth <;> rw [fourth]
  simp only [List.mem_cons, List.not_mem_nil, or_false] at member
  rcases member with rfl | rfl | rfl | rfl
  · rw [first] at failed
    cases failed
  · rw [second] at failed
    cases failed
  · rw [third] at failed
    cases failed
  · rw [fourth] at failed
    cases failed

theorem checkedReadStats_of_fits {files : Files} (fits : StatsFit files) (timestamp : GoTime) :
    checkedReadStats files timestamp = (readStats files timestamp).mapError .host := by
  unfold checkedReadStats readStats
  simp only [checkedReadCpu_of_fits fits, Checked.mapError_bind]
  rfl

theorem checkedReadStats_of_not_fits {files : Files} (overflows : ¬ StatsFit files)
    (timestamp : GoTime) : checkedReadStats files timestamp = .error .overflow := by
  unfold checkedReadStats
  rw [checkedReadCpu_of_not_fits overflows]
  rfl

theorem checkedReadSpec_of_fits {access : SpecAccess} (fits : SpecFits access) (cgroup : String) :
    checkedReadSpec access cgroup = (readSpec access cgroup).mapError .host := by
  unfold checkedReadSpec readSpec
  cases metadata : access.metadata with
  | error e => rfl
  | ok modified =>
      have shares : ∀ weight, readU64OrMax access.files "cpu.weight" = .ok weight →
          Halt.arith ((weight.map checkedCpuWeightToShares).getD (some 0)) =
            .ok ((weight.map cpuWeightToShares).getD 0) := by
        intro weight read
        unfold readU64OrMax at read
        rw [readOpt_eq] at read
        cases content : access.files "cpu.weight" with
        | failed =>
            rw [content] at read
            cases read
        | notFound =>
            rw [content] at read
            cases read
            rfl
        | content text =>
            rw [content] at read
            cases read
            simp only [Option.map_some, Option.getD_some,
              checkedCpuWeightToShares_eq (fits modified text metadata content)]
            rfl
      cases read : readU64OrMax access.files "cpu.weight" with
      | error e => rfl
      | ok weight =>
          simp only [Checked.mapError_bind]
          dsimp only [Except.mapError, bind, Except.bind]
          rw [shares weight read]

theorem checkedReadSpec_of_not_fits {access : SpecAccess} (overflows : ¬ SpecFits access)
    (cgroup : String) : checkedReadSpec access cgroup = .error .overflow := by
  unfold SpecFits at overflows
  push Not at overflows
  obtain ⟨modified, text, metadata, content, large⟩ := overflows
  have read : readU64OrMax access.files "cpu.weight" = .ok (some (u64OrMax text)) := by
    rw [readU64OrMax, readOpt_eq, content]
    rfl
  unfold checkedReadSpec
  rw [metadata, read]
  dsimp only [Except.mapError, bind, Except.bind, Option.map_some, Option.getD_some]
  rw [checkedCpuWeightToShares_eq_none large]
  rfl

/-- A checked build of the reader does not panic, and a release build, giving
the same result, does not wrap. -/
def NoOverflow {α : Type} (checked : Except Halt α) (release : Except HostError α) : Prop :=
  checked ≠ .error .overflow ∧ checked = release.mapError .host

theorem noOverflow_of_eq {α : Type} {checked : Except Halt α} {release : Except HostError α}
    (same : checked = release.mapError .host) : NoOverflow checked release := by
  refine ⟨?_, same⟩
  rw [same]
  cases release <;> simp [Except.mapError]

theorem checkedMeminfo_of_fits {content : String} (fits : MeminfoFits content) :
    checkedMeminfo content = some (meminfo content) := by
  have step : ∀ out line, MeminfoLineFits line →
      checkedMeminfoLine out line = some (meminfoLine out line) :=
    fun out _ => checkedMeminfoLine_eq out
  exact Checked.foldlM_eq step fits {}

theorem checkedMeminfo_of_not_fits {content : String} (overflows : ¬ MeminfoFits content) :
    checkedMeminfo content = none := by
  unfold MeminfoFits at overflows
  push Not at overflows
  obtain ⟨line, member, large⟩ := overflows
  have step : ∀ out line, ¬ MeminfoLineFits line → checkedMeminfoLine out line = none :=
    fun out _ => checkedMeminfoLine_eq_none out
  exact Checked.foldlM_eq_none step member large {}

/-- None of the three readers overflows on files whose numbers keep their bounds, and
each of them overflows on every other content. -/
theorem noOverflow_iff (files : Files) (timestamp : GoTime) (access : SpecAccess)
    (cgroup meminfoContent : String) :
    (NoOverflow (checkedReadStats files timestamp) (readStats files timestamp) ↔ StatsFit files) ∧
      (NoOverflow (checkedReadSpec access cgroup) (readSpec access cgroup) ↔ SpecFits access) ∧
      (checkedMeminfo meminfoContent = some (meminfo meminfoContent) ↔
        MeminfoFits meminfoContent) := by
  refine ⟨⟨fun safe => ?_, fun fits => ?_⟩, ⟨fun safe => ?_, fun fits => ?_⟩,
    fun safe => ?_, fun fits => ?_⟩
  · by_contra overflows
    exact safe.1 (checkedReadStats_of_not_fits overflows timestamp)
  · exact noOverflow_of_eq (checkedReadStats_of_fits fits timestamp)
  · by_contra overflows
    exact safe.1 (checkedReadSpec_of_not_fits overflows cgroup)
  · exact noOverflow_of_eq (checkedReadSpec_of_fits fits cgroup)
  · by_contra overflows
    rw [checkedMeminfo_of_not_fits overflows] at safe
    cases safe
  · exact checkedMeminfo_of_fits fits

/-- The weight `max`, which `parse_u64_or_max` reads as the greatest number. -/
theorem weight_max_overflows :
    ¬ ∀ (files : Files) (timestamp : GoTime) (access : SpecAccess)
      (cgroup meminfoContent : String),
      NoOverflow (checkedReadStats files timestamp) (readStats files timestamp) ∧
        NoOverflow (checkedReadSpec access cgroup) (readSpec access cgroup) ∧
        checkedMeminfo meminfoContent = some (meminfo meminfoContent) := by
  intro claimed
  have safe := (claimed (fun _ => .notFound) .zero
    ⟨.ok none, false, fun file => if file = "cpu.weight" then .content "max\n" else .notFound⟩
    "/a" "").2.1.1
  have large : ¬ WeightFits "max\n" := by
    have value : u64OrMax "max\n" = UInt64.ofNat (2 ^ 64 - 1) := by decide +kernel
    unfold WeightFits
    rw [value]
    decide
  exact safe (checkedReadSpec_of_not_fits (fun fits => large (fits none _ rfl rfl)) "/a")

end CgroupReader

end Cadvisor
