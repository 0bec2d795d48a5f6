import Cadvisor.Host.Kernel

/-!
# Reading what the kernel prints of the machine

The tables of `/proc` have columns of any width: one line for each network interface, for
each figure of the memory, for each block device.  What is read from them is what the
kernel counts.
-/

set_option autoImplicit false

namespace Cadvisor

open Parse CgroupReader

namespace Kernel

def padded (pads : Nat → Nat) (fields : List (List Char)) : List (Nat × List Char) :=
  fields.mapIdx fun j field => (pads j, field)

theorem padded_fields (pads : Nat → Nat) (fields : List (List Char)) :
    (padded pads fields).map Prod.snd = fields := by
  apply List.ext_getElem
  · simp [padded]
  · intro i inBounds _
    simp [padded]

theorem padded_plain {fields : List (List Char)} (plain : ∀ f ∈ fields, Str.Field f)
    (pads : Nat → Nat) : ∀ f ∈ padded pads fields, Str.Field f.2 := by
  intro f member
  refine plain f.2 ?_
  rw [← padded_fields pads fields]
  exact List.mem_map_of_mem member

theorem padded_ne_nil {fields : List (List Char)} (given : fields ≠ []) (pads : Nat → Nat) :
    padded pads fields ≠ [] := by
  intro none
  have fieldsAre := padded_fields pads fields
  rw [none, List.map_nil] at fieldsAre
  exact given fieldsAre.symm

theorem number_field (n : UInt64) : Str.Field (number n) := ⟨number_ne_nil n, number_black n⟩

theorem numbers_fields (numbers : List UInt64) : ∀ f ∈ numbers.map number, Str.Field f := by
  intro f member
  obtain ⟨n, _, rfl⟩ := List.mem_map.mp member
  exact number_field n

def tableLine (front : List Char) (pads : Nat → Nat) (fields : List (List Char)) : List Char :=
  front ++ Str.columns (padded pads fields)

section

variable {front : List Char} {fields : List (List Char)} (pads : Nat → Nat)

theorem words_tableLine (plain : ∀ f ∈ fields, Str.Field f) :
    Str.words (tableLine front pads fields) = Str.words front ++ fields := by
  rw [tableLine, Str.words_columns (padded_plain plain pads), padded_fields]

theorem dropCarriageReturn_tableLine (given : fields ≠ [])
    (plain : ∀ f ∈ fields, Str.Field f) :
    Str.dropCarriageReturn (tableLine front pads fields) = tableLine front pads fields :=
  Str.dropCarriageReturn_columns (padded_ne_nil given pads) (padded_plain plain pads) front

theorem newline_notMem_tableLine (plain : ∀ f ∈ fields, Str.Field f) (oneLine : '\n' ∉ front) :
    '\n' ∉ tableLine front pads fields := by
  rw [tableLine, List.mem_append, not_or]
  exact ⟨oneLine, Str.notMem_columns (padded_plain plain pads) (by decide) (by decide)⟩

end

def table (lines : List (List Char)) : String := String.ofList (lines.flatMap (· ++ ['\n']))

/-! ## `/proc/<pid>/net/dev` -/

/-- An interface with its counters; the first four of each direction are the ones that are
read. -/
structure Interface where
  name : String
  rxBytes : UInt64
  rxPackets : UInt64
  rxErrors : UInt64
  rxDropped : UInt64
  rxOthers : List UInt64
  txBytes : UInt64
  txPackets : UInt64
  txErrors : UInt64
  txDropped : UInt64
  txOthers : List UInt64
  lead : Nat
  pads : Nat → Nat
  named : Str.Field name.toList ∧ ':' ∉ name.toList
  rxFour : rxOthers.length = 4
  txFour : txOthers.length = 4

namespace Interface

variable (i : Interface)

def numbers : List UInt64 :=
  i.rxBytes :: i.rxPackets :: i.rxErrors :: i.rxDropped :: (i.rxOthers ++
    i.txBytes :: i.txPackets :: i.txErrors :: i.txDropped :: i.txOthers)

def label : List Char := List.replicate i.lead ' ' ++ i.name.toList

def line : List Char := tableLine (i.label ++ [':']) i.pads (i.numbers.map number)

def stats : InterfaceStats where
  name := i.name
  rxBytes := i.rxBytes
  rxPackets := i.rxPackets
  rxErrors := i.rxErrors
  rxDropped := i.rxDropped
  txBytes := i.txBytes
  txPackets := i.txPackets
  txErrors := i.txErrors
  txDropped := i.txDropped

theorem notMem_label {c : Char} (notSpace : c ≠ ' ')
    (apart : Str.isWhitespace c = true ∨ c = ':') : c ∉ i.label := by
  rw [label, List.mem_append, not_or]
  constructor
  · exact fun member => notSpace (List.eq_of_mem_replicate member)
  · intro member
    rcases apart with white | rfl
    · rw [i.named.1.2 c member] at white
      cases white
    · exact i.named.2 member

theorem words_label : Str.words i.label = [i.name.toList] := by
  rw [label, Str.words_behind_spaces, Str.words_of_plain i.named.1.1 i.named.1.2]

theorem exists_four {α : Type} {xs : List α} (four : xs.length = 4) :
    ∃ a b c d, xs = [a, b, c, d] := by
  match xs, four with
  | [a, b, c, d], _ => exact ⟨a, b, c, d, rfl⟩

theorem netDevLine_line :
    netDevLine (String.ofList i.line) =
      if ignoredInterface i.name then none else some i.stats := by
  have cut : Str.splitOnce (String.ofList i.line) ':' =
      some (String.ofList i.label,
        String.ofList (Str.columns (padded i.pads (i.numbers.map number)))) := by
    rw [Str.splitOnce_eq_some_iff, String.toList_ofList, String.toList_ofList,
      String.toList_ofList]
    refine ⟨?_, i.notMem_label (by decide) (Or.inr rfl)⟩
    rw [line, tableLine, List.append_assoc, List.singleton_append]
  have fields : Str.splitWhitespace (Str.replaceFirst (String.ofList i.line) ':' " ") =
      i.name :: i.numbers.map fun n => String.ofList (number n) := by
    have plain := padded_plain (numbers_fields i.numbers) i.pads
    have spaced : (Str.replaceFirst (String.ofList i.line) ':' " ").toList =
        i.label ++ ' ' :: ([] ++ Str.columns (padded i.pads (i.numbers.map number))) := by
      rw [Str.replaceFirst, cut]
      simp
    rw [Str.splitWhitespace_eq, spaced, Str.words_append (by decide), Str.words_columns plain,
      padded_fields, i.words_label, Str.words_nil]
    simp
  obtain ⟨a, b, c, d, rxOthers⟩ := exists_four i.rxFour
  obtain ⟨e, f, g, h, txOthers⟩ := exists_four i.txFour
  unfold netDevLine
  rw [fields, numbers, rxOthers, txOthers]
  simp only [List.cons_append, List.nil_append, List.map_cons, List.map_nil, u64Field_number]
  rfl

end Interface

/-- Two lines of titles, then the interfaces. -/
def netDevFile (interfaces : List Interface) : String :=
  table
    ("Inter-|   Receive                                                |  Transmit".toList ::
      (" face |bytes    packets errs drop fifo frame compressed multicast|" ++
        "bytes    packets errs drop fifo colls carrier compressed").toList ::
      interfaces.map Interface.line)

theorem procNetDev_netDevFile (interfaces : List Interface) :
    procNetDev (netDevFile interfaces) =
      (interfaces.filter fun i => ¬ ignoredInterface i.name).map Interface.stats := by
  have given (i : Interface) : i.numbers.map number ≠ [] := List.cons_ne_nil _ _
  have unbroken : ∀ line ∈
      "Inter-|   Receive                                                |  Transmit".toList ::
        (" face |bytes    packets errs drop fifo frame compressed multicast|" ++
          "bytes    packets errs drop fifo colls carrier compressed").toList ::
        interfaces.map Interface.line, '\n' ∉ line := by
    refine List.forall_mem_cons.mpr ⟨by decide +kernel, ?_⟩
    refine List.forall_mem_cons.mpr ⟨by decide +kernel, ?_⟩
    intro line member
    obtain ⟨i, _, rfl⟩ := List.mem_map.mp member
    refine newline_notMem_tableLine _ (numbers_fields i.numbers) ?_
    rw [List.mem_append, not_or]
    exact ⟨i.notMem_label (by decide) (Or.inl (by decide)), by decide⟩
  have each (i : Interface) :
      netDevLine (String.ofList (Str.dropCarriageReturn i.line)) =
        if ¬ ignoredInterface i.name then some i.stats else none := by
    have kept : Str.dropCarriageReturn i.line = i.line :=
      dropCarriageReturn_tableLine i.pads (given i) (numbers_fields i.numbers)
    rw [kept, i.netDevLine_line, ite_not]
  rw [procNetDev, netDevFile, table, Str.lines_terminated unbroken, List.map_cons, List.map_cons,
    List.map_cons, List.map_cons, List.drop_succ_cons, List.drop_succ_cons, List.drop_zero,
    List.map_map, List.map_map, List.filterMap_map]
  simp only [Function.comp_def, each]
  rw [Str.filterMap_ite]

/-! ## `/proc/meminfo` -/

/-- A figure of the memory, most of them in kilobytes. -/
structure MemRow where
  key : String
  value : UInt64
  unit : Option String
  pads : Nat → Nat
  named : Str.Field key.toList
  unitNamed : ∀ u ∈ unit, Str.Field u.toList

namespace MemRow

variable (row : MemRow)

def fields : List (List Char) := number row.value :: (row.unit.map String.toList).toList

def line : List Char := tableLine (row.key.toList ++ [':']) row.pads row.fields

theorem fields_plain : ∀ f ∈ row.fields, Str.Field f := by
  refine List.forall_mem_cons.mpr ⟨number_field row.value, ?_⟩
  intro f member
  obtain ⟨u, isUnit, rfl⟩ := Option.map_eq_some_iff.mp (Option.mem_toList.mp member)
  exact row.unitNamed u isUnit

theorem words_line : Str.splitWhitespace (String.ofList row.line) =
    (row.key ++ ":") :: row.fields.map String.ofList := by
  have key : Str.words (row.key.toList ++ [':']) = [row.key.toList ++ [':']] := by
    refine Str.words_of_plain (by simp) fun c member => ?_
    rcases List.mem_append.mp member with inKey | isColon
    · exact row.named.2 c inKey
    · rw [List.mem_singleton.mp isColon]
      decide
  have label : String.ofList (row.key.toList ++ [':']) = row.key ++ ":" := by
    apply String.toList_injective
    simp
  rw [Str.splitWhitespace_eq, String.toList_ofList, line, words_tableLine row.pads row.fields_plain,
    key, List.singleton_append, List.map_cons, label]

end MemRow

def memFile (rows : List MemRow) : String := table (rows.map MemRow.line)

/-- Of figures with one name the last counts; the kernel prints each once. -/
def figure (rows : List MemRow) (key : String) : UInt64 :=
  value (rows.map fun row => (row.key, row.value)) key

theorem figure_concat (rows : List MemRow) (row : MemRow) (key : String) :
    figure (rows ++ [row]) key = if row.key = key then row.value else figure rows key := by
  rw [figure, List.map_append, List.map_singleton, value_concat]
  simp only [eq_comm]
  rfl

theorem lines_memFile (rows : List MemRow) :
    Str.lines (memFile rows) = rows.map fun row => String.ofList row.line := by
  have unbroken : ∀ line ∈ rows.map MemRow.line, '\n' ∉ line := by
    intro line member
    obtain ⟨row, _, rfl⟩ := List.mem_map.mp member
    refine newline_notMem_tableLine _ row.fields_plain ?_
    rw [List.mem_append, not_or]
    refine ⟨fun inKey => ?_, by decide⟩
    have black := row.named.2 '\n' inKey
    cases black
  have kept (row : MemRow) : Str.dropCarriageReturn row.line = row.line :=
    dropCarriageReturn_tableLine row.pads (List.cons_ne_nil _ _) row.fields_plain
  rw [memFile, table, Str.lines_terminated unbroken, List.map_map, List.map_map]
  simp only [Function.comp_def, kept]

theorem key_colon_inj {key other : String} : key ++ ":" = other ++ ":" ↔ key = other := by
  constructor
  · intro same
    have chars := congrArg String.toList same
    rw [String.toList_append, String.toList_append] at chars
    exact String.toList_injective (List.append_cancel_right chars)
  · rintro rfl
    rfl

theorem memTotalFree_memFile (rows : List MemRow) :
    memTotalFree (memFile rows) = (figure rows "MemTotal", figure rows "MemFree") := by
  have total : "MemTotal:" = "MemTotal" ++ ":" := rfl
  have free : "MemFree:" = "MemFree" ++ ":" := rfl
  rw [memTotalFree, lines_memFile, List.foldl_map]
  induction rows using List.reverseRecOn with
  | nil => rfl
  | append_singleton rows row ih =>
      rw [List.foldl_concat, ih, row.words_line, figure_concat, figure_concat]
      simp only [MemRow.fields, List.map_cons, List.head?_cons, Option.bind_some, parseU64_number,
        Option.getD_some, total, free, key_colon_inj]
      by_cases isTotal : row.key = "MemTotal"
      · rw [if_pos isTotal, if_pos isTotal, if_neg (by rw [isTotal]; decide)]
      · rw [if_neg isTotal, if_neg isTotal]
        split_ifs <;> rfl

/-! ## `/proc/diskstats` -/

/-- A block device with its counters, and any others that newer kernels print behind them. -/
structure DiskRow where
  stats : DiskStatsLine
  others : List UInt64
  lead : Nat
  pads : Nat → Nat
  named : Str.Field stats.name.toList

namespace DiskRow

variable (row : DiskRow)

def fields : List (List Char) :=
  number row.stats.minor :: row.stats.name.toList ::
    (([row.stats.readsCompleted, row.stats.readsMerged, row.stats.sectorsRead, row.stats.readTime,
      row.stats.writesCompleted, row.stats.writesMerged, row.stats.sectorsWritten,
      row.stats.writeTime, row.stats.ioInProgress, row.stats.ioTime,
      row.stats.weightedIoTime] ++ row.others).map number)

def line : List Char :=
  tableLine (List.replicate row.lead ' ' ++ number row.stats.major) row.pads row.fields

theorem fields_plain : ∀ f ∈ row.fields, Str.Field f :=
  List.forall_mem_cons.mpr ⟨number_field _,
    List.forall_mem_cons.mpr ⟨row.named, numbers_fields _⟩⟩

theorem diskstatsLine_line :
    diskstatsLine (String.ofList row.line) =
      if diskstatsDeviceMatches row.stats.name then some row.stats else none := by
  have fields : Str.splitWhitespace (String.ofList row.line) =
      String.ofList (number row.stats.major) :: row.fields.map String.ofList := by
    rw [Str.splitWhitespace_eq, String.toList_ofList, line,
      words_tableLine row.pads row.fields_plain, Str.words_behind_spaces,
      Str.words_of_plain (number_ne_nil _) (number_black _), List.singleton_append, List.map_cons]
  unfold diskstatsLine
  rw [fields, DiskRow.fields]
  simp only [List.cons_append, List.nil_append, List.map_cons, u64Field_number,
    String.ofList_toList, ite_not]

end DiskRow

def diskFile (rows : List DiskRow) : String := table (rows.map DiskRow.line)

theorem diskstats_diskFile (rows : List DiskRow) :
    diskstats (diskFile rows) =
      (rows.filter fun row => diskstatsDeviceMatches row.stats.name).map DiskRow.stats := by
  have unbroken : ∀ line ∈ rows.map DiskRow.line, '\n' ∉ line := by
    intro line member
    obtain ⟨row, _, rfl⟩ := List.mem_map.mp member
    refine newline_notMem_tableLine _ row.fields_plain ?_
    rw [List.mem_append, not_or]
    refine ⟨fun inPad => ?_, fun inNumber => ?_⟩
    · exact absurd (List.eq_of_mem_replicate inPad) (by decide)
    · have black := number_black _ '\n' inNumber
      cases black
  have each (row : DiskRow) : diskstatsLine (String.ofList (Str.dropCarriageReturn row.line)) =
      if diskstatsDeviceMatches row.stats.name then some row.stats else none := by
    have kept : Str.dropCarriageReturn row.line = row.line :=
      dropCarriageReturn_tableLine row.pads (List.cons_ne_nil _ _) row.fields_plain
    rw [kept, row.diskstatsLine_line]
  rw [diskstats, diskFile, table, Str.lines_terminated unbroken, List.map_map, List.map_map,
    List.filterMap_map]
  simp only [Function.comp_def, each]
  rw [Str.filterMap_ite]
  simp only [Bool.decide_eq_true]

end Kernel

end Cadvisor
