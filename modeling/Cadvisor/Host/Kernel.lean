import Cadvisor.Host.Cgroup
import Cadvisor.Lib.Fields

/-!
# Reading what the kernel prints

The files of a cgroup directory as the kernel prints them: counters by name in any
order and with any others among them, one number alone, a row of counters for each
device.  A sample read from them has the kernel's numbers, in the sample's units.
-/

set_option autoImplicit false

namespace Cadvisor

open Parse CgroupReader

namespace Kernel

abbrev Counters := List (String × UInt64)

/-- A name without white space, and no separator of an `io.stat` field either. -/
def Name (s : String) : Prop := s ≠ "" ∧ ∀ c ∈ s.toList, Str.isWhitespace c = false ∧ c ≠ '='

instance (s : String) : Decidable (Name s) :=
  @instDecidableAnd _ _ inferInstance (List.decidableBAll _ s.toList)

/-- Of counters with one name the last is the one that counts; the kernel prints each once. -/
def value (counters : Counters) (name : String) : UInt64 :=
  (SortedMap.lastValue name counters).getD 0

def number (n : UInt64) : List Char := (toString n.toNat).toList

def flatFile (counters : Counters) : String :=
  String.ofList ((counters.map fun c => c.1.toList ++ ' ' :: number c.2).flatMap (· ++ ['\n']))

def numberFile (n : UInt64) : String := String.ofList (number n ++ ['\n'])

structure Device where
  major : UInt64
  minor : UInt64
  counters : Counters

def Device.fields (d : Device) : List (List Char) :=
  d.counters.map fun c => c.1.toList ++ '=' :: number c.2

def Device.line (d : Device) : List Char :=
  number d.major ++ ':' :: number d.minor ++ Str.spaced d.fields

def ioFile (devices : List Device) : String :=
  String.ofList ((devices.map Device.line).flatMap (· ++ ['\n']))

/-- What a cgroup's controllers have; `none` where a file is missing. -/
structure Cgroup where
  cpu : Option Counters
  current : Option UInt64
  peak : Option UInt64
  swap : Option UInt64
  stat : Option Counters
  events : Option Counters
  io : Option (List Device)

structure Memory where
  current : UInt64
  peak : Option UInt64
  swap : Option UInt64
  stat : Option Counters

/-- The memory that is accounted to the cgroup.  The root has a `memory.stat` without it. -/
def Cgroup.memory (k : Cgroup) : Option Memory :=
  k.current.map fun current => ⟨current, k.peak, k.swap, k.stat⟩

def present : Option String → FileRead
  | some text => .content text
  | none => .notFound

/-- A directory has this in the files that a sample is read from, and others beside them. -/
structure Cgroup.Shows (k : Cgroup) (files : Files) : Prop where
  cpu : files "cpu.stat" = present (k.cpu.map flatFile)
  current : files "memory.current" = present (k.current.map numberFile)
  peak : files "memory.peak" = present (k.peak.map numberFile)
  swap : files "memory.swap.current" = present (k.swap.map numberFile)
  stat : files "memory.stat" = present (k.stat.map flatFile)
  events : files "memory.events" = present (k.events.map flatFile)
  io : files "io.stat" = present (k.io.map ioFile)

structure Cgroup.Named (k : Cgroup) : Prop where
  cpu : ∀ counters ∈ k.cpu, ∀ c ∈ counters, Name c.1
  stat : ∀ counters ∈ k.stat, ∀ c ∈ counters, Name c.1
  events : ∀ counters ∈ k.events, ∀ c ∈ counters, Name c.1
  io : ∀ devices ∈ k.io, ∀ d ∈ devices, ∀ c ∈ d.counters, Name c.1

/-! ## Numbers -/

theorem number_ne_nil (n : UInt64) : number n ≠ [] := Str.toString_nat_ne_nil n.toNat

theorem number_black (n : UInt64) : ∀ c ∈ number n, Str.isWhitespace c = false :=
  Str.toString_black n.toNat

theorem parseU64_number (n : UInt64) : Str.parseU64 (String.ofList (number n)) = some n := by
  rw [number, String.ofList_toList]
  exact Str.parseU64_toString n

theorem u64Field_number (n : UInt64) : u64Field (String.ofList (number n)) = n := by
  rw [u64Field, parseU64_number]
  rfl

theorem trim_number (n : UInt64) :
    Str.trim (String.ofList (number n ++ ['\n'])) = String.ofList (number n) :=
  Str.trim_black ['\n'] (number_black n) Str.newline_white

theorem number_ne_max (n : UInt64) : String.ofList (number n) ≠ "max" := by
  intro same
  have digits := Str.digits_of_toString n.toNat
  have chars : number n = "max".toList := by rw [← same, String.toList_ofList]
  rw [number] at chars
  rw [chars] at digits
  exact absurd (digits 'm' (List.mem_cons_self ..)) (by decide)

theorem u64OrMax_number (n : UInt64) : u64OrMax (numberFile n) = n := by
  rw [u64OrMax, numberFile, trim_number, if_neg (number_ne_max n), parseU64_number]
  rfl

/-! ## Counters -/

theorem notMem_of_name {s : String} (name : Name s) {c : Char}
    (apart : Str.isWhitespace c = true ∨ c = '=') : c ∉ s.toList := by
  intro member
  obtain ⟨black, notEquals⟩ := name.2 c member
  rcases apart with white | isEquals
  · rw [black] at white
    cases white
  · exact notEquals isEquals

theorem flatKeyed_flatFile {counters : Counters} (named : ∀ c ∈ counters, Name c.1) :
    flatKeyed (flatFile counters) = counters.map fun c => (c.1, String.ofList (number c.2)) := by
  have plain : ∀ line ∈ counters.map fun c => c.1.toList ++ ' ' :: number c.2, '\n' ∉ line := by
    refine List.forall_mem_map.mpr fun c member inLine => ?_
    rcases List.mem_append.mp inLine with inName | behind
    · exact notMem_of_name (named c member) (Or.inl (by decide)) inName
    · rcases List.mem_cons.mp behind with isSpace | inNumber
      · exact absurd isSpace (by decide)
      · exact Str.white_notMem_of_black (by decide) (number_black c.2) inNumber
  have kept : ∀ c : String × UInt64,
      Str.dropCarriageReturn (c.1.toList ++ ' ' :: number c.2) =
        c.1.toList ++ ' ' :: number c.2 := by
    intro c
    rw [Str.dropCarriageReturn, if_neg]
    intro ends
    rw [List.getLast?_append_cons, List.getLast?_cons_of_ne_nil (number_ne_nil c.2)] at ends
    exact Str.white_notMem_of_black (by decide) (number_black c.2) (List.mem_of_getLast? ends)
  rw [flatKeyed, flatFile, Str.lines_terminated plain, List.map_map, List.map_map,
    ← List.filterMap_eq_map, List.filterMap_filterMap, ← List.filterMap_eq_map]
  refine List.filterMap_congr fun c member => ?_
  have cut : Str.splitOnce (String.ofList (c.1.toList ++ ' ' :: number c.2)) ' ' =
      some (c.1, String.ofList (number c.2)) := by
    rw [Str.splitOnce_eq_some_iff, String.toList_ofList, String.toList_ofList]
    exact ⟨rfl, notMem_of_name (named c member) (Or.inl (by decide))⟩
  simp only [Function.comp_apply, kept, Option.bind_some, cut]

theorem value_concat (counters : Counters) (c : String × UInt64) (name : String) :
    value (counters ++ [c]) name = if name = c.1 then c.2 else value counters name := by
  rw [value, SortedMap.lastValue_append, SortedMap.lastValue, SortedMap.lastValue, Option.none_or]
  split_ifs <;> rfl

theorem cpuStat_flatFile {counters : Counters} (named : ∀ c ∈ counters, Name c.1) :
    cpuStat (flatFile counters) =
      { usageUsec := value counters "usage_usec"
        userUsec := value counters "user_usec"
        systemUsec := value counters "system_usec"
        nrPeriods := value counters "nr_periods"
        nrThrottled := value counters "nr_throttled"
        throttledUsec := value counters "throttled_usec" } := by
  rw [cpuStat, flatKeyed_flatFile named]
  clear named
  induction counters using List.reverseRecOn with
  | nil => rfl
  | append_singleton counters c ih =>
      rw [List.map_append, List.map_singleton, List.foldl_concat, ih]
      simp only [cpuStatLine, u64Field_number, value_concat, eq_comm (b := c.1)]
      split_ifs <;> simp_all

theorem memoryStat_flatFile {counters : Counters} (named : ∀ c ∈ counters, Name c.1) :
    memoryStat (flatFile counters) =
      { anon := value counters "anon"
        file := value counters "file"
        fileMapped := value counters "file_mapped"
        inactiveFile := value counters "inactive_file"
        pgfault := value counters "pgfault"
        pgmajfault := value counters "pgmajfault" } := by
  rw [memoryStat, flatKeyed_flatFile named]
  clear named
  induction counters using List.reverseRecOn with
  | nil => rfl
  | append_singleton counters c ih =>
      rw [List.map_append, List.map_singleton, List.foldl_concat, ih]
      simp only [memoryStatLine, u64Field_number, value_concat, eq_comm (b := c.1)]
      split_ifs <;> simp_all

theorem oomKill_flatFile {counters : Counters} (named : ∀ c ∈ counters, Name c.1) :
    oomKill (flatFile counters) = value counters "oom_kill" := by
  rw [oomKill, flatKeyed_flatFile named]
  clear named
  induction counters using List.reverseRecOn with
  | nil => rfl
  | append_singleton counters c ih =>
      have trimmed : Str.trim (String.ofList (number c.2)) = String.ofList (number c.2) := by
        have alone := Str.trim_black [] (number_black c.2) (List.forall_mem_nil _)
        rwa [List.append_nil] at alone
      rw [List.map_append, List.map_singleton, List.foldl_concat, ih, value_concat]
      simp only [trimmed, parseU64_number, Option.getD_some, eq_comm (b := c.1)]

/-! ## Devices -/

theorem ioStatField_number (row : IoDevStat) {c : String × UInt64} (name : Name c.1) :
    ioStatField row (String.ofList (c.1.toList ++ '=' :: number c.2)) =
      if c.1 = "rbytes" then { row with rbytes := c.2 }
      else if c.1 = "wbytes" then { row with wbytes := c.2 }
      else if c.1 = "rios" then { row with rios := c.2 }
      else if c.1 = "wios" then { row with wios := c.2 }
      else row := by
  have cut : Str.splitOnce (String.ofList (c.1.toList ++ '=' :: number c.2)) '=' =
      some (c.1, String.ofList (number c.2)) := by
    rw [Str.splitOnce_eq_some_iff, String.toList_ofList, String.toList_ofList]
    exact ⟨rfl, notMem_of_name name (Or.inr rfl)⟩
  rw [ioStatField, cut]
  simp only [u64Field_number]

def Device.row (d : Device) : IoDevStat where
  major := d.major
  minor := d.minor
  rbytes := value d.counters "rbytes"
  wbytes := value d.counters "wbytes"
  rios := value d.counters "rios"
  wios := value d.counters "wios"

theorem foldl_ioStatField {counters : Counters} (named : ∀ c ∈ counters, Name c.1)
    (major minor : UInt64) :
    (counters.map fun c => String.ofList (c.1.toList ++ '=' :: number c.2)).foldl ioStatField
        { major, minor } = Device.row ⟨major, minor, counters⟩ := by
  induction counters using List.reverseRecOn with
  | nil => rfl
  | append_singleton counters c ih =>
      obtain ⟨others, last⟩ := List.forall_mem_append.mp named
      rw [List.map_append, List.map_singleton, List.foldl_concat, ih others,
        ioStatField_number _ (last c (List.mem_singleton_self c))]
      simp only [Device.row, value_concat, eq_comm (b := c.1)]
      split_ifs <;> simp_all

theorem field_black {c : String × UInt64} (name : Name c.1) :
    ∀ x ∈ c.1.toList ++ '=' :: number c.2, Str.isWhitespace x = false := by
  refine List.forall_mem_append.mpr ⟨fun x member => (name.2 x member).1, ?_⟩
  exact List.forall_mem_cons.mpr ⟨by decide, number_black c.2⟩

theorem ioStatRow_line {d : Device} (named : ∀ c ∈ d.counters, Name c.1) :
    ioStatRow (String.ofList d.line) = some d.row := by
  have devBlack : ∀ x ∈ number d.major ++ ':' :: number d.minor, Str.isWhitespace x = false :=
    List.forall_mem_append.mpr ⟨number_black d.major,
      List.forall_mem_cons.mpr ⟨by decide, number_black d.minor⟩⟩
  have each : d.fields.flatMap Str.words = d.fields := by
    calc d.fields.flatMap Str.words = d.fields.flatMap fun field => [field] := by
          refine List.flatMap_congr fun field member => ?_
          obtain ⟨c, inCounters, rfl⟩ := List.mem_map.mp member
          exact Str.words_of_plain (by simp) (field_black (named c inCounters))
      _ = d.fields := List.flatMap_singleton' d.fields
  have words : Str.splitWhitespace (String.ofList d.line) =
      String.ofList (number d.major ++ ':' :: number d.minor) ::
        d.counters.map fun c => String.ofList (c.1.toList ++ '=' :: number c.2) := by
    rw [Str.splitWhitespace_eq, String.toList_ofList, Device.line, Str.words_append_spaced,
      Str.words_of_plain (by simp) devBlack, each, Device.fields, List.map_append, List.map_map]
    rfl
  have cut : Str.splitOnce (String.ofList (number d.major ++ ':' :: number d.minor)) ':' =
      some (String.ofList (number d.major), String.ofList (number d.minor)) := by
    rw [Str.splitOnce_eq_some_iff, String.toList_ofList, String.toList_ofList, String.toList_ofList]
    refine ⟨rfl, fun member => ?_⟩
    have digit := Str.digits_of_toString d.major.toNat ':' member
    exact absurd digit (by decide)
  rw [ioStatRow, words]
  dsimp only
  rw [cut]
  dsimp only
  rw [u64Field_number, u64Field_number, foldl_ioStatField named]

theorem ioStat_ioFile {devices : List Device} (named : ∀ d ∈ devices, ∀ c ∈ d.counters, Name c.1) :
    ioStat (ioFile devices) = devices.map Device.row := by
  have fieldsPlain : ∀ d ∈ devices, ∀ x ∈ d.line, x = ' ' ∨ Str.isWhitespace x = false := by
    intro d member x inLine
    rcases List.mem_append.mp inLine with inDev | inFields
    · refine Or.inr ?_
      rcases List.mem_append.mp inDev with inMajor | behind
      · exact number_black d.major x inMajor
      · rcases List.mem_cons.mp behind with isColon | inMinor
        · rw [isColon]
          decide
        · exact number_black d.minor x inMinor
    · obtain ⟨field, isField, inField⟩ := List.mem_flatMap.mp inFields
      obtain ⟨c, inCounters, rfl⟩ := List.mem_map.mp isField
      rcases List.mem_cons.mp inField with isSpace | behind
      · exact Or.inl isSpace
      · exact Or.inr (field_black (named d member c inCounters) x behind)
  have apart : ∀ {w : Char}, Str.isWhitespace w = true → w ≠ ' ' →
      ∀ d ∈ devices, w ∉ d.line := by
    intro w white notSpace d member inLine
    rcases fieldsPlain d member w inLine with isSpace | black
    · exact notSpace isSpace
    · rw [black] at white
      cases white
  have kept : ∀ d ∈ devices, Str.dropCarriageReturn d.line = d.line := by
    intro d member
    rw [Str.dropCarriageReturn, if_neg]
    intro ends
    exact apart (by decide) (by decide) d member (List.mem_of_getLast? ends)
  rw [ioStat, ioFile,
    Str.lines_terminated (List.forall_mem_map.mpr (apart (by decide) (by decide))),
    List.map_map, List.map_map, ← List.filterMap_eq_map, List.filterMap_filterMap,
    ← List.filterMap_eq_map]
  refine List.filterMap_congr fun d member => ?_
  simp only [Function.comp_apply, kept d member, Option.bind_some, ioStatRow_line (named d member)]

/-! ## A sample -/

theorem readOpt_present {files : Files} {name : String} {text : Option String}
    (isFile : files name = present text) : readOpt files name = .ok text := by
  cases text with
  | none =>
      rw [readOpt, CgroupReader.read, isFile]
      rfl
  | some text =>
      rw [readOpt, CgroupReader.read, isFile]
      rfl

theorem readU64OrMax_present {files : Files} {name : String} {n : Option UInt64}
    (isFile : files name = present (n.map numberFile)) : readU64OrMax files name = .ok n := by
  rw [readU64OrMax, readOpt_present isFile]
  cases n with
  | none => rfl
  | some n => exact congrArg (fun m => Except.ok (some m)) (u64OrMax_number n)

def counter (counters : Option Counters) (name : String) : UInt64 :=
  (counters.map fun counters => value counters name).getD 0

/-- What a sample has of a cgroup: nanoseconds for the kernel's microseconds, the memory in
use less the inactive file cache, and two entries for each device.  What comes from
elsewhere is left alone. -/
structure Sampled (k : Cgroup) (timestamp : GoTime) (s : ContainerStats) : Prop where
  timestamp : s.timestamp = timestamp
  total : s.cpu.usage.total.toNat = 1000 * (counter k.cpu "usage_usec").toNat
  user : s.cpu.usage.user.toNat = 1000 * (counter k.cpu "user_usec").toNat
  system : s.cpu.usage.system.toNat = 1000 * (counter k.cpu "system_usec").toNat
  perCpu : s.cpu.usage.perCpu = []
  periods : s.cpu.cfs.periods = counter k.cpu "nr_periods"
  throttledPeriods : s.cpu.cfs.throttledPeriods = counter k.cpu "nr_throttled"
  throttledTime : s.cpu.cfs.throttledTime.toNat = 1000 * (counter k.cpu "throttled_usec").toNat
  usage : s.memory.usage = (k.memory.map Memory.current).getD 0
  maxUsage : s.memory.maxUsage = (k.memory.bind Memory.peak).getD 0
  swap : s.memory.swap = (k.memory.bind Memory.swap).getD 0
  cache : s.memory.cache = counter (k.memory.bind Memory.stat) "file"
  rss : s.memory.rss = counter (k.memory.bind Memory.stat) "anon"
  mappedFile : s.memory.mappedFile = counter (k.memory.bind Memory.stat) "file_mapped"
  workingSet : s.memory.workingSet.toNat =
    s.memory.usage.toNat - (counter (k.memory.bind Memory.stat) "inactive_file").toNat
  faults : s.memory.containerData = s.memory.hierarchicalData ∧
    s.memory.containerData.pgfault = counter (k.memory.bind Memory.stat) "pgfault" ∧
    s.memory.containerData.pgmajfault = counter (k.memory.bind Memory.stat) "pgmajfault"
  oomEvents : s.oomEvents = counter k.events "oom_kill"
  serviceBytes : s.diskIo.ioServiceBytes = (k.io.getD []).map fun d =>
    perDisk d.row (value d.counters "rbytes") (value d.counters "wbytes")
  serviced : s.diskIo.ioServiced = (k.io.getD []).map fun d =>
    perDisk d.row (value d.counters "rios") (value d.counters "wios")
  elsewhere : s.network = {} ∧ s.filesystem = [] ∧ s.taskStats = {} ∧ s.processes = {}

/-- The kernel's times fit in a sample: they are below 584 years. -/
def TimesFit (k : Cgroup) : Prop :=
  ∀ name ∈ ["usage_usec", "user_usec", "system_usec", "throttled_usec"],
    1000 * (counter k.cpu name).toNat < 2 ^ 64

section

variable {k : Cgroup} {files : Files}

theorem readCpu_files (shows : k.Shows files) (named : k.Named) :
    readCpu files = .ok
      { usage :=
          { total := counter k.cpu "usage_usec" * 1000
            user := counter k.cpu "user_usec" * 1000
            system := counter k.cpu "system_usec" * 1000 }
        cfs :=
          { periods := counter k.cpu "nr_periods"
            throttledPeriods := counter k.cpu "nr_throttled"
            throttledTime := counter k.cpu "throttled_usec" * 1000 } } := by
  rw [readCpu, readOpt_present shows.cpu]
  cases cpu : k.cpu with
  | none => rfl
  | some counters =>
      have content := cpuStat_flatFile (named.cpu counters cpu)
      simp only [Option.map_some, counter, Option.getD_some, bind, Except.bind, content]

theorem readMemory_files (shows : k.Shows files) (named : k.Named) :
    ∃ m, readMemory files = .ok m ∧ m.usage = (k.memory.map Memory.current).getD 0 ∧
      m.maxUsage = (k.memory.bind Memory.peak).getD 0 ∧
      m.swap = (k.memory.bind Memory.swap).getD 0 ∧
      m.cache = counter (k.memory.bind Memory.stat) "file" ∧
      m.rss = counter (k.memory.bind Memory.stat) "anon" ∧
      m.mappedFile = counter (k.memory.bind Memory.stat) "file_mapped" ∧
      m.workingSet.toNat =
        m.usage.toNat - (counter (k.memory.bind Memory.stat) "inactive_file").toNat ∧
      m.containerData = m.hierarchicalData ∧
      m.containerData.pgfault = counter (k.memory.bind Memory.stat) "pgfault" ∧
      m.containerData.pgmajfault = counter (k.memory.bind Memory.stat) "pgmajfault" := by
  rw [readMemory, readU64OrMax_present shows.current]
  cases isCurrent : k.current with
  | none =>
      have memory : k.memory = none := by rw [Cgroup.memory, isCurrent, Option.map_none]
      rw [memory]
      exact ⟨{}, rfl, rfl, rfl, rfl, rfl, rfl, rfl, rfl, rfl, rfl, rfl⟩
  | some current =>
      have memory : k.memory = some ⟨current, k.peak, k.swap, k.stat⟩ := by
        rw [Cgroup.memory, isCurrent, Option.map_some]
      have peak := readU64OrMax_present shows.peak
      have swap := readU64OrMax_present shows.swap
      have stat := readOpt_present shows.stat
      simp only [memory, bind, Except.bind, peak, swap, stat]
      cases isStat : k.stat with
      | none =>
          refine ⟨_, rfl, rfl, rfl, rfl, ?_⟩
          simp [counter]
      | some counters =>
          have content := memoryStat_flatFile (named.stat counters isStat)
          refine ⟨_, rfl, rfl, rfl, rfl, ?_⟩
          simp only [Option.bind_some, counter, Option.map_some, Option.getD_some, content,
            true_and, and_true]
          split_ifs with fits
          · rw [UInt64.toNat_sub_of_le _ _ fits]
          · have less : current.toNat ≤ (value counters "inactive_file").toNat :=
              Nat.le_of_lt (UInt64.lt_iff_toNat_lt.mp (UInt64.not_le.mp fits))
            rw [Nat.sub_eq_zero_of_le less]
            rfl

theorem toNat_times {n : UInt64} (fits : 1000 * n.toNat < 2 ^ 64) :
    (n * 1000).toNat = 1000 * n.toNat := by
  rw [UInt64.toNat_mul, Nat.mul_comm]
  exact Nat.mod_eq_of_lt fits

/-- Reading a cgroup succeeds, whichever of its controllers are there, and the sample has what
the kernel printed. -/
theorem readStats_files (shows : k.Shows files) (named : k.Named) (fit : TimesFit k)
    (timestamp : GoTime) :
    ∃ s, readStats files timestamp = .ok s ∧ Sampled k timestamp s := by
  obtain ⟨m, memory, usage, maxUsage, swap, cache, rss, mappedFile, workingSet, faults⟩ :=
    readMemory_files shows named
  have events := readOpt_present shows.events
  have io := readOpt_present shows.io
  have oom : ((k.events.map flatFile).map oomKill).getD 0 = counter k.events "oom_kill" := by
    cases isEvents : k.events with
    | none => rfl
    | some counters =>
        exact oomKill_flatFile (named.events counters isEvents)
  have devices : ((k.io.map ioFile).map diskIo).getD {} =
      { ioServiceBytes := (k.io.getD []).map fun d =>
          perDisk d.row (value d.counters "rbytes") (value d.counters "wbytes")
        ioServiced := (k.io.getD []).map fun d =>
          perDisk d.row (value d.counters "rios") (value d.counters "wios") } := by
    cases isIo : k.io with
    | none => rfl
    | some rows =>
        have rowsAre := ioStat_ioFile (named.io rows isIo)
        simp only [Option.map_some, Option.getD_some, diskIo, rowsAre, List.map_map]
        rfl
  have cpu := readCpu_files shows named
  refine ⟨_, by simp only [readStats, cpu, memory, events, io, bind, Except.bind]; rfl, ?_⟩
  constructor
  case timestamp => rfl
  case total => exact toNat_times (fit _ (by simp))
  case user => exact toNat_times (fit _ (by simp))
  case system => exact toNat_times (fit _ (by simp))
  case perCpu => rfl
  case periods => rfl
  case throttledPeriods => rfl
  case throttledTime => exact toNat_times (fit _ (by simp))
  case usage => exact usage
  case maxUsage => exact maxUsage
  case swap => exact swap
  case cache => exact cache
  case rss => exact rss
  case mappedFile => exact mappedFile
  case workingSet => exact workingSet
  case faults => exact faults
  case oomEvents => exact oom
  case serviceBytes => exact congrArg DiskIoStats.ioServiceBytes devices
  case serviced => exact congrArg DiskIoStats.ioServiced devices
  case elsewhere => exact ⟨rfl, rfl, rfl, rfl⟩

end

/-- A cgroup with counters that are not read, and one device. -/
def sampleCgroup : Cgroup where
  cpu := some [("usage_usec", 1500), ("user_usec", 1000), ("system_usec", 500),
    ("core_sched.force_idle_usec", 0), ("nr_periods", 7)]
  current := some 8192
  peak := some 9000
  swap := none
  stat := some [("anon", 4096), ("inactive_file", 10000)]
  events := some [("low", 0), ("oom", 2), ("oom_kill", 1), ("oom_group_kill", 0)]
  io := some [⟨8, 16, [("rbytes", 512), ("wbytes", 0), ("rios", 1), ("dios", 0)]⟩]

def sampleFiles : Files := fun name =>
  if name = "cpu.stat" then .content
    "usage_usec 1500\nuser_usec 1000\nsystem_usec 500\ncore_sched.force_idle_usec 0\nnr_periods 7\n"
  else if name = "memory.current" then .content "8192\n"
  else if name = "memory.peak" then .content "9000\n"
  else if name = "memory.stat" then .content "anon 4096\ninactive_file 10000\n"
  else if name = "memory.events" then .content "low 0\noom 2\noom_kill 1\noom_group_kill 0\n"
  else if name = "io.stat" then .content "8:16 rbytes=512 wbytes=0 rios=1 dios=0\n"
  else if name = "memory.max" then .content "max\n"
  else if name = "cgroup.procs" then .content "1\n"
  else .notFound

theorem sampleCgroup_shows : sampleCgroup.Shows sampleFiles where
  cpu := by decide +kernel
  current := by decide +kernel
  peak := by decide +kernel
  swap := by decide +kernel
  stat := by decide +kernel
  events := by decide +kernel
  io := by decide +kernel

theorem sampleCgroup_named : sampleCgroup.Named := by
  refine ⟨?_, ?_, ?_, ?_⟩
  · simp only [sampleCgroup, Option.mem_def, Option.some.injEq, forall_eq']
    decide +kernel
  · simp only [sampleCgroup, Option.mem_def, Option.some.injEq, forall_eq']
    decide +kernel
  · simp only [sampleCgroup, Option.mem_def, Option.some.injEq, forall_eq']
    decide +kernel
  · simp only [sampleCgroup, Option.mem_def, Option.some.injEq, forall_eq']
    decide +kernel

theorem sampleCgroup_fit : TimesFit sampleCgroup := by
  unfold TimesFit
  decide +kernel

theorem readStats_files_sample :
    ∃ s, readStats sampleFiles GoTime.zero = .ok s ∧ Sampled sampleCgroup GoTime.zero s :=
  readStats_files sampleCgroup_shows sampleCgroup_named sampleCgroup_fit GoTime.zero

end Kernel

end Cadvisor
