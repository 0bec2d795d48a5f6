import Cadvisor.Host.Parse
import Cadvisor.Host.Topology

/-!
# Two counts of the cores

`/proc/cpuinfo` and sysfs describe the same cpus.  `cpuinfo` counts a core for each socket
and core id, `topology` one for each core id of a node.
-/

set_option autoImplicit false

namespace Cadvisor

structure Cpu where
  id : Nat
  node : Nat
  socket : Nat
  core : Nat
  deriving DecidableEq

/-- The online cpus of a machine and its nodes.  A core of a socket lies in one node. -/
structure NumaMachine where
  cpus : List Cpu
  nodes : List Nat
  distinctIds : (cpus.map Cpu.id).Nodup
  distinctNodes : nodes.Nodup
  homed : ∀ c ∈ cpus, c.node ∈ nodes
  oneNode : ∀ a ∈ cpus, ∀ b ∈ cpus, a.socket = b.socket → a.core = b.core → a.node = b.node
  cpuIds : ∀ c ∈ cpus, c.id < 2 ^ 63 ∧ c.socket < 2 ^ 63 ∧ c.core < 2 ^ 63
  nodeIds : ∀ k ∈ nodes, k < 2 ^ 63

/-! ## What the kernel prints -/

def rangeText (r : Nat × Nat) : String :=
  if r.1 = r.2 then toString r.1 else toString r.1 ++ "-" ++ toString r.2

def cpulistText (ranges : List (Nat × Nat)) : String :=
  Str.join "," (ranges.map rangeText) ++ "\n"

def expand (ranges : List (Nat × Nat)) : List Nat :=
  ranges.flatMap fun r => List.range' r.1 (r.2 + 1 - r.1)

structure SysfsDescribes (sys : Sysfs) (m : NumaMachine) : Prop where
  nodeDir : ∃ entries others, sys.readDir "/sys/devices/system/node" = some entries ∧
    entries.Perm (m.nodes.map (fun k => "node" ++ toString k) ++ others) ∧
    ∀ name ∈ others, Str.startsWith name "node" = false
  cpulist : ∀ k ∈ m.nodes, ∃ ranges,
    sys.readToString (nodeBase k ++ "/cpulist") = some (cpulistText ranges) ∧
      (∀ r ∈ ranges, r.1 ≤ r.2) ∧
      (expand ranges).Perm ((m.cpus.filter fun c => c.node = k).map Cpu.id)
  coreId : ∀ c ∈ m.cpus,
    sys.readToString (cpuBase c.id ++ "/topology" ++ "/core_id") = some (toString c.core ++ "\n")
  packageId : ∀ c ∈ m.cpus,
    sys.readToString (cpuBase c.id ++ "/topology" ++ "/physical_package_id") =
      some (toString c.socket ++ "\n")

/-- A line of `/proc/cpuinfo` that says nothing about the socket or the core. -/
def OtherLine (line : List Char) : Prop :=
  '\n' ∉ line ∧ '\r' ∉ line ∧ ∀ k v, Str.splitOnce (String.ofList line) ':' = some (k, v) →
    Str.trim k ≠ "physical id" ∧ Str.trim k ≠ "core id"

/-- What `/proc/cpuinfo` has for one cpu. -/
structure CpuBlock where
  cpu : Cpu
  before : List (List Char)
  between : List (List Char)
  after : List (List Char)
  plain : ∀ line ∈ before ++ between ++ after, OtherLine line

def CpuBlock.lines (b : CpuBlock) : List (List Char) :=
  b.before ++ ("physical id\t: ".toList ++ (toString b.cpu.socket).toList) ::
    (b.between ++ ("core id\t\t: ".toList ++ (toString b.cpu.core).toList) :: b.after)

def CpuinfoDescribes (content : String) (m : NumaMachine) : Prop :=
  ∃ blocks : List CpuBlock, (blocks.map CpuBlock.cpu).Perm m.cpus ∧
    content = String.ofList ((blocks.flatMap CpuBlock.lines).flatMap fun line => line ++ ['\n'])

/-! ## The list of a node's cpus -/

theorem inclusiveRange_eq (a b : Nat) :
    inclusiveRange a b = (List.range' a (b + 1 - a)).map Int.ofNat := by
  have count : ((b : Int) - a + 1).toNat = b + 1 - a := by omega
  rw [inclusiveRange, count, List.range'_eq_map_range, List.map_map]
  rfl

theorem rangeText_chars (r : Nat × Nat) :
    ∀ c ∈ (rangeText r).toList, c.isDigit = true ∨ c = '-' := by
  intro c member
  rw [rangeText] at member
  split at member
  · exact Or.inl (Str.digits_of_toString r.1 c member)
  · rw [String.toList_append, String.toList_append, List.mem_append, List.mem_append] at member
    rcases member with (first | dash) | second
    · exact Or.inl (Str.digits_of_toString r.1 c first)
    · exact Or.inr (List.mem_singleton.mp dash)
    · exact Or.inl (Str.digits_of_toString r.2 c second)

theorem rangeText_black (r : Nat × Nat) :
    ∀ c ∈ (rangeText r).toList, Str.isWhitespace c = false := by
  intro c member
  rcases rangeText_chars r c member with digit | dash
  · exact Str.black_of_isDigit digit
  · rw [dash]
    decide

theorem cpulistPart_rangeText {r : Nat × Nat} (low : r.1 < 2 ^ 63) (high : r.2 < 2 ^ 63) :
    cpulistPart (rangeText r) = inclusiveRange r.1 r.2 := by
  by_cases one : r.1 = r.2
  · have single : rangeText r = toString r.1 := if_pos one
    have alone : r.2 + 1 - r.1 = 1 := by omega
    rw [single, cpulistPart_toString, if_pos low, inclusiveRange_eq, alone]
    rfl
  · have text : rangeText r = toString r.1 ++ "-" ++ toString r.2 := if_neg one
    have trimmed : Str.trim (rangeText r) = rangeText r := by
      have read := Str.trim_black [] (rangeText_black r) (by simp)
      rwa [List.append_nil, String.ofList_toList] at read
    have cut : Str.splitOnce (rangeText r) '-' = some (toString r.1, toString r.2) := by
      rw [Str.splitOnce_eq_some_iff, text]
      refine ⟨?_, Str.notMem_toString_nat (by decide) r.1⟩
      rw [String.toList_append, String.toList_append, List.append_assoc]
      rfl
    have nonempty : rangeText r ≠ "" := by
      intro empty
      rw [empty] at cut
      cases cut
    rw [cpulistPart, trimmed, if_neg nonempty, cut]
    dsimp only
    rw [Str.parseSigned_nat, Str.parseSigned_nat, if_pos low, if_pos high]

theorem parseCpulist_cpulistText {ranges : List (Nat × Nat)}
    (bounded : ∀ r ∈ ranges, r.1 < 2 ^ 63 ∧ r.2 < 2 ^ 63) :
    parseCpulist (Str.trim (cpulistText ranges)) = (expand ranges).map Int.ofNat := by
  cases ranges with
  | nil => decide
  | cons r rest =>
      have plain : ∀ part ∈ (r :: rest).map rangeText, ',' ∉ part.toList := by
        intro part member inPart
        obtain ⟨s, _, rfl⟩ := List.mem_map.mp member
        rcases rangeText_chars s ',' inPart with digit | dash
        · cases digit
        · cases dash
      have black : ∀ c ∈ (Str.join "," ((r :: rest).map rangeText)).toList,
          Str.isWhitespace c = false := by
        intro c member
        rcases Str.mem_join member with comma | ⟨part, inParts, inPart⟩
        · rw [List.mem_singleton.mp comma]
          decide
        · obtain ⟨s, _, rfl⟩ := List.mem_map.mp inParts
          exact rangeText_black s c inPart
      have trimmed := Str.trim_black ['\n'] black Str.newline_white
      rw [String.ofList_append, String.ofList_toList] at trimmed
      have split : Str.split (Str.join "," ((r :: rest).map rangeText)) ',' =
          (r :: rest).map rangeText := Str.split_join rfl (by simp) plain
      have text : cpulistText (r :: rest) =
          Str.join "," ((r :: rest).map rangeText) ++ String.ofList ['\n'] := rfl
      rw [text, trimmed, parseCpulist, split, List.flatMap_map, expand, List.map_flatMap]
      apply List.flatMap_congr
      intro s member
      obtain ⟨low, high⟩ := bounded s member
      rw [cpulistPart_rangeText low high, inclusiveRange_eq]

/-! ## A described machine -/

theorem readU64_number {sys : Sysfs} {path : String} {n : Nat}
    (file : sys.readToString path = some (toString n ++ "\n")) (small : n < 2 ^ 63) :
    sys.readU64 path = some (UInt64.ofNat n) ∧ asI64 (UInt64.ofNat n) = n := by
  have wide : (UInt64.ofNat n).toNat = n :=
    UInt64.toNat_ofNat_of_lt' (Nat.lt_trans small (by decide))
  constructor
  · have trimmed := Str.trim_black ['\n'] (Str.toString_black n) Str.newline_white
    rw [String.ofList_append, String.ofList_toList] at trimmed
    have parsed := Str.parseU64_toString (UInt64.ofNat n)
    rw [wide] at parsed
    have text : toString n ++ "\n" = toString n ++ String.ofList ['\n'] := rfl
    rw [Sysfs.readU64, Sysfs.readTrim, file, text, Option.map_some, trimmed, Option.bind_some,
      parsed]
  · rw [asI64, wide, if_pos small]

section
variable {sys : Sysfs} {m : NumaMachine} (described : SysfsDescribes sys m)
include described

theorem nodeIds_perm : sys.nodeIds.Perm (m.nodes.map Int.ofNat) := by
  obtain ⟨entries, others, listing, shape, notNodes⟩ := described.nodeDir
  rw [Sysfs.nodeIds, listing]
  dsimp only
  refine (SortedSeq.stableSort_perm ..).trans ((shape.filterMap _).trans ?_)
  have skipped : others.filterMap (fun name =>
      (Str.stripPrefix name "node").bind (Str.parseSigned (2 ^ 63))) = [] := by
    rw [List.filterMap_eq_nil_iff]
    intro name member
    rw [Str.stripPrefix, if_neg (by simp [notNodes name member]), Option.bind_none]
  rw [List.filterMap_append, skipped, List.append_nil, List.filterMap_map]
  have each : m.nodes.filterMap ((fun name =>
      (Str.stripPrefix name "node").bind (Str.parseSigned (2 ^ 63))) ∘
        fun k => "node" ++ toString k) =
      m.nodes.filterMap (some ∘ Int.ofNat) := by
    apply List.filterMap_congr
    intro k member
    rw [Function.comp_apply, Str.stripPrefix_append, Option.bind_some, Str.parseSigned_nat,
      if_pos (m.nodeIds k member)]
    rfl
  rw [each, List.filterMap_eq_map]

theorem nodeCpus_perm {k : Nat} (isNode : k ∈ m.nodes) :
    (sys.nodeCpus k).Perm
      ((m.cpus.filter fun c => c.node = k).map fun c => (c.id : Int)) := by
  obtain ⟨ranges, file, ordered, perm⟩ := described.cpulist k isNode
  have bounded : ∀ r ∈ ranges, r.1 < 2 ^ 63 ∧ r.2 < 2 ^ 63 := by
    intro r member
    have last : r.2 ∈ expand ranges := by
      have upward := ordered r member
      refine List.mem_flatMap.mpr ⟨r, member, ?_⟩
      rw [List.mem_range'_1]
      omega
    obtain ⟨c, isCpu, isLast⟩ := List.mem_map.mp (perm.mem_iff.mp last)
    have small := (m.cpuIds c (List.mem_of_mem_filter isCpu)).1
    have upward := ordered r member
    omega
  rw [Sysfs.nodeCpus, Sysfs.readTrim, file, Option.map_some, Option.getD_some,
    parseCpulist_cpulistText bounded]
  refine (perm.map Int.ofNat).trans ?_
  rw [List.map_map]
  exact List.Perm.refl _

theorem perCpuTopology_eq {c : Cpu} (isCpu : c ∈ m.cpus) :
    sys.perCpuTopology c.id = some ((c.core : Int), (c.socket : Int)) := by
  obtain ⟨-, socketSmall, coreSmall⟩ := m.cpuIds c isCpu
  obtain ⟨coreRead, coreIs⟩ := readU64_number (described.coreId c isCpu) coreSmall
  obtain ⟨socketRead, socketIs⟩ := readU64_number (described.packageId c isCpu) socketSmall
  rw [Sysfs.perCpuTopology, coreRead, socketRead, Option.bind_some, Option.map_some, coreIs,
    socketIs]

theorem coreOf_eq {c : Cpu} (isCpu : c ∈ m.cpus) : sys.coreOf c.id = c.core := by
  rw [Sysfs.coreOf, perCpuTopology_eq described isCpu]
  rfl

theorem readNode_grouped {k : Nat} (isNode : k ∈ m.nodes) :
    Grouping.Grouped V1.Core.id V1.Core.threads sys.coreOf (sys.readNode k).cores
      (sys.nodeCpus k) := by
  have all : sys.placed (sys.nodeCpus k) = sys.nodeCpus k := by
    rw [Sysfs.placed, List.filter_eq_self]
    intro cpu member
    obtain ⟨c, isCpu, rfl⟩ := List.mem_map.mp ((nodeCpus_perm described isNode).mem_iff.mp member)
    rw [perCpuTopology_eq described (List.mem_of_mem_filter isCpu)]
    rfl
  rw [← all]
  exact sys.readNode_grouped k

theorem mem_nodeCpus {k : Nat} (isNode : k ∈ m.nodes) {c : Cpu} (isCpu : c ∈ m.cpus) :
    (c.id : Int) ∈ sys.nodeCpus k ↔ c.node = k := by
  rw [(nodeCpus_perm described isNode).mem_iff, List.mem_map]
  constructor
  · rintro ⟨d, dIn, same⟩
    obtain ⟨dCpu, dNode⟩ := List.mem_filter.mp dIn
    have equal : d = c := List.inj_on_of_nodup_map m.distinctIds dCpu isCpu (Int.ofNat_inj.mp same)
    rw [← equal]
    exact of_decide_eq_true dNode
  · intro home
    exact ⟨c, List.mem_filter.mpr ⟨isCpu, decide_eq_true home⟩, rfl⟩

theorem together_iff {a b : Cpu} (aCpu : a ∈ m.cpus) (bCpu : b ∈ m.cpus) :
    (∃ node ∈ sys.topology.1, ∃ core ∈ node.cores,
        (a.id : Int) ∈ core.threads ∧ (b.id : Int) ∈ core.threads) ↔
      a.node = b.node ∧ a.core = b.core := by
  have listed (k : Nat) : (k : Int) ∈ sys.nodeIds ↔ k ∈ m.nodes := by
    rw [(nodeIds_perm described).mem_iff, List.mem_map]
    constructor
    · rintro ⟨j, isNode, same⟩
      exact Int.ofNat_inj.mp same ▸ isNode
    · intro isNode
      exact ⟨k, isNode, rfl⟩
  constructor
  · rintro ⟨node, built, together⟩
    obtain ⟨nodeId, isListed, rfl⟩ := List.mem_map.mp built
    obtain ⟨k, isNode, rfl⟩ := List.mem_map.mp ((nodeIds_perm described).mem_iff.mp isListed)
    have grouped := readNode_grouped described isNode
    obtain ⟨aHere, bHere, same⟩ := (grouped.together_iff a.id b.id).mp together
    rw [coreOf_eq described aCpu, coreOf_eq described bCpu] at same
    have aNode := (mem_nodeCpus described isNode aCpu).mp aHere
    have bNode := (mem_nodeCpus described isNode bCpu).mp bHere
    exact ⟨aNode.trans bNode.symm, Int.ofNat_inj.mp same⟩
  · rintro ⟨sameNode, sameCore⟩
    have isNode := m.homed a aCpu
    refine ⟨sys.readNode a.node, List.mem_map.mpr ⟨a.node, (listed a.node).mpr isNode, rfl⟩, ?_⟩
    refine ((readNode_grouped described isNode).together_iff a.id b.id).mpr ⟨?_, ?_, ?_⟩
    · exact (mem_nodeCpus described isNode aCpu).mpr rfl
    · exact (mem_nodeCpus described isNode bCpu).mpr sameNode.symm
    · rw [coreOf_eq described aCpu, coreOf_eq described bCpu, sameCore]

theorem sum_cores :
    (sys.topology.1.map fun node => node.cores.length).sum =
      (m.cpus.map fun c => (c.node, c.core)).toFinset.card := by
  have each : ∀ k ∈ m.nodes, (sys.readNode k).cores.length =
      ((m.cpus.filter fun c => c.node = k).map fun c => (c.node, c.core)).toFinset.card := by
    intro k isNode
    have perm := (nodeCpus_perm described isNode).map sys.coreOf
    have cores : ((m.cpus.filter fun c => c.node = k).map fun c => (c.id : Int)).map sys.coreOf =
        (m.cpus.filter fun c => c.node = k).map fun c => (c.core : Int) := by
      rw [List.map_map]
      apply List.map_congr_left
      intro c member
      exact coreOf_eq described (List.mem_of_mem_filter member)
    rw [cores] at perm
    rw [(readNode_grouped described isNode).length_eq, List.toFinset_eq_of_perm _ _ perm]
    apply Grouping.card_keys_congr
    intro a aIn b bIn
    have aNode : a.node = k := of_decide_eq_true (List.mem_filter.mp aIn).2
    have bNode : b.node = k := of_decide_eq_true (List.mem_filter.mp bIn).2
    rw [Int.ofNat_inj, Prod.mk.injEq, aNode, bNode]
    exact (and_iff_right rfl).symm
  have parts : (m.nodes.map fun (k : Nat) => (sys.readNode k).cores.length) = m.nodes.map fun k =>
      ((m.cpus.filter fun c => c.node = k).map fun c => (c.node, c.core)).toFinset.card :=
    List.map_congr_left each
  calc (sys.topology.1.map fun node => node.cores.length).sum
      = (sys.nodeIds.map fun id => (sys.readNode id).cores.length).sum := by
        rw [Sysfs.topology, List.map_map, Function.comp_def]
    _ = (m.nodes.map fun (k : Nat) => (sys.readNode k).cores.length).sum := by
        simp only [((nodeIds_perm described).map _).sum_eq, List.map_map, Function.comp_def,
          Int.ofNat_eq_natCast]
    _ = (m.cpus.map fun c => (c.node, c.core)).toFinset.card := by
        rw [parts]
        exact Grouping.card_keys_parts (fun a _ b _ same => (Prod.mk.inj same).1) m.distinctNodes
          m.homed

end

/-! ## `/proc/cpuinfo` -/

theorem cpuinfoLine_other (khz : String → UInt64) (scan : Parse.CpuInfoScan) {line : List Char}
    (other : OtherLine line) :
    (Parse.cpuinfoLine khz scan (String.ofList line)).cores = scan.cores ∧
      (Parse.cpuinfoLine khz scan (String.ofList line)).curPhysicalId = scan.curPhysicalId := by
  unfold Parse.cpuinfoLine
  split
  · exact ⟨rfl, rfl⟩
  · rename_i k v cut
    obtain ⟨notSocket, notCore⟩ := other.2.2 k v cut
    dsimp only
    rw [if_neg notSocket, if_neg notCore]
    split
    · exact ⟨rfl, rfl⟩
    · split <;> exact ⟨rfl, rfl⟩

theorem cpuinfo_others (khz : String → UInt64) (scan : Parse.CpuInfoScan) {lines : List (List Char)}
    (others : ∀ line ∈ lines, OtherLine line) :
    let after := (lines.map String.ofList).foldl (Parse.cpuinfoLine khz) scan
    after.cores = scan.cores ∧ after.curPhysicalId = scan.curPhysicalId := by
  induction lines generalizing scan with
  | nil => exact ⟨rfl, rfl⟩
  | cons line rest ih =>
      obtain ⟨first, later⟩ := List.forall_mem_cons.mp others
      obtain ⟨cores, socket⟩ := cpuinfoLine_other khz scan first
      obtain ⟨restCores, restSocket⟩ := ih (Parse.cpuinfoLine khz scan (String.ofList line)) later
      exact ⟨restCores.trans cores, restSocket.trans socket⟩

theorem cut_keyed (key white : List Char) (noColon : ':' ∉ key ++ white)
    (framed : Str.trim (String.ofList (key ++ white)) = String.ofList key) (n : Nat) :
    ∃ k v, Str.splitOnce (String.ofList (key ++ white ++ [':', ' '] ++ (toString n).toList)) ':' =
        some (k, v) ∧ Str.trim k = String.ofList key ∧ Str.trim v = toString n := by
  refine ⟨String.ofList (key ++ white), String.ofList (' ' :: (toString n).toList), ?_, framed, ?_⟩
  · rw [Str.splitOnce_eq_some_iff, String.toList_ofList, String.toList_ofList,
      String.toList_ofList]
    refine ⟨?_, noColon⟩
    rw [List.append_assoc]
    rfl
  · have space : ∀ c ∈ [' '], Str.isWhitespace c = true := by
      intro c member
      rw [List.mem_singleton.mp member]
      decide
    have black := Str.toString_black n
    have read := Str.trim_framed [' '] [] (fun c head => black c (List.mem_of_mem_head? head))
      (fun c final => black c (List.mem_of_mem_getLast? final)) space
      (fun _ absent => absurd absent List.not_mem_nil)
    rwa [List.append_nil, String.ofList_toList] at read

theorem cpuinfoLine_physicalId (khz : String → UInt64) (scan : Parse.CpuInfoScan) {n : Nat}
    (small : n < 2 ^ 63) :
    let after := Parse.cpuinfoLine khz scan
      (String.ofList ("physical id\t: ".toList ++ (toString n).toList))
    after.cores = scan.cores ∧ after.curPhysicalId = n := by
  obtain ⟨k, v, cut, key, value⟩ :=
    cut_keyed "physical id".toList ['\t'] (by decide) (by decide) n
  have text : "physical id".toList ++ ['\t'] ++ [':', ' '] = "physical id\t: ".toList := rfl
  have notVendor : "physical id" ≠ "vendor_id" := by decide
  rw [text] at cut
  rw [String.ofList_toList] at key
  simp only [Parse.cpuinfoLine, cut, key, value, Str.parseSigned_nat, if_pos small, notVendor,
    false_and, if_false, if_true, Option.getD_some, and_self]

theorem cpuinfoLine_coreId (khz : String → UInt64) (scan : Parse.CpuInfoScan) {n : Nat}
    (small : n < 2 ^ 63) :
    let after := Parse.cpuinfoLine khz scan
      (String.ofList ("core id\t\t: ".toList ++ (toString n).toList))
    after.cores = SortedMap.insert scan.cores (toLex (scan.curPhysicalId, (n : Int))) () := by
  obtain ⟨k, v, cut, key, value⟩ :=
    cut_keyed "core id".toList ['\t', '\t'] (by decide) (by decide) n
  have text : "core id".toList ++ ['\t', '\t'] ++ [':', ' '] = "core id\t\t: ".toList := rfl
  have notVendor : "core id" ≠ "vendor_id" := by decide
  have notSocket : "core id" ≠ "physical id" := by decide
  rw [text] at cut
  rw [String.ofList_toList] at key
  simp only [Parse.cpuinfoLine, cut, key, value, Str.parseSigned_nat, if_pos small, notVendor,
    notSocket, false_and, if_false, if_true, Option.getD_some]

theorem cpuinfo_block (khz : String → UInt64) (scan : Parse.CpuInfoScan) (b : CpuBlock)
    (socketSmall : b.cpu.socket < 2 ^ 63) (coreSmall : b.cpu.core < 2 ^ 63) :
    ((b.lines.map String.ofList).foldl (Parse.cpuinfoLine khz) scan).cores =
      SortedMap.insert scan.cores (toLex ((b.cpu.socket : Int), (b.cpu.core : Int))) () := by
  have others := b.plain
  rw [List.forall_mem_append, List.forall_mem_append] at others
  obtain ⟨⟨before, between⟩, behind⟩ := others
  obtain ⟨cores, -⟩ := cpuinfo_others khz scan before
  rw [CpuBlock.lines, List.map_append, List.foldl_append, List.map_cons, List.foldl_cons,
    List.map_append, List.foldl_append, List.map_cons, List.foldl_cons]
  generalize (b.before.map String.ofList).foldl (Parse.cpuinfoLine khz) scan = ahead at cores ⊢
  obtain ⟨socketCores, socketIs⟩ := cpuinfoLine_physicalId khz ahead socketSmall
  generalize Parse.cpuinfoLine khz ahead _ = inSocket at socketCores socketIs ⊢
  obtain ⟨betweenCores, betweenSocket⟩ := cpuinfo_others khz inSocket between
  generalize (b.between.map String.ofList).foldl (Parse.cpuinfoLine khz) inSocket = reached
    at betweenCores betweenSocket ⊢
  rw [(cpuinfo_others khz _ behind).1, cpuinfoLine_coreId khz reached coreSmall, betweenSocket,
    socketIs, betweenCores, socketCores, cores]

theorem cpuinfo_blocks (khz : String → UInt64) (scan : Parse.CpuInfoScan) {blocks : List CpuBlock}
    (small : ∀ b ∈ blocks, b.cpu.socket < 2 ^ 63 ∧ b.cpu.core < 2 ^ 63) (x : Int ×ₗ Int) :
    x ∈ (((blocks.flatMap CpuBlock.lines).map String.ofList).foldl
        (Parse.cpuinfoLine khz) scan).cores.keys ↔
      x ∈ scan.cores.keys ∨
        x ∈ blocks.map fun b => toLex ((b.cpu.socket : Int), (b.cpu.core : Int)) := by
  induction blocks generalizing scan with
  | nil => simp
  | cons b rest ih =>
      obtain ⟨first, later⟩ := List.forall_mem_cons.mp small
      rw [List.flatMap_cons, List.map_append, List.foldl_append, ih _ later,
        cpuinfo_block khz scan b first.1 first.2, SortedMap.mem_keys_insert, List.map_cons,
        List.mem_cons]
      rw [or_assoc]
      exact or_left_comm

theorem dropCarriageReturn_of_notMem {line : List Char} (noReturn : '\r' ∉ line) :
    Str.dropCarriageReturn line = line := by
  apply if_neg
  intro last
  exact noReturn (List.mem_of_mem_getLast? last)

theorem keyed_unbroken {key : List Char} (noFeed : '\n' ∉ key) (noReturn : '\r' ∉ key) (n : Nat) :
    '\n' ∉ key ++ (toString n).toList ∧ '\r' ∉ key ++ (toString n).toList := by
  rw [List.mem_append, List.mem_append, not_or, not_or]
  exact ⟨⟨noFeed, Str.notMem_toString_nat (by decide) n⟩,
    noReturn, Str.notMem_toString_nat (by decide) n⟩

theorem block_unbroken (b : CpuBlock) : ∀ line ∈ b.lines, '\n' ∉ line ∧ '\r' ∉ line := by
  intro line member
  have others : ∀ line ∈ b.before ++ b.between ++ b.after, '\n' ∉ line ∧ '\r' ∉ line :=
    fun line other => ⟨(b.plain line other).1, (b.plain line other).2.1⟩
  rw [List.forall_mem_append, List.forall_mem_append] at others
  obtain ⟨⟨before, between⟩, behind⟩ := others
  rw [CpuBlock.lines, List.mem_append, List.mem_cons, List.mem_append, List.mem_cons] at member
  rcases member with ahead | rfl | middle | rfl | last
  · exact before line ahead
  · exact keyed_unbroken (by decide) (by decide) b.cpu.socket
  · exact between line middle
  · exact keyed_unbroken (by decide) (by decide) b.cpu.core
  · exact behind line last

theorem physicalCores_eq {content : String} {m : NumaMachine}
    (described : CpuinfoDescribes content m) (khz : String → UInt64) :
    (Parse.cpuinfo khz content).physicalCores =
      (m.cpus.map fun c => (c.socket, c.core)).toFinset.card := by
  obtain ⟨blocks, perm, rfl⟩ := described
  have unbroken : ∀ line ∈ blocks.flatMap CpuBlock.lines, '\n' ∉ line ∧ '\r' ∉ line := by
    intro line member
    obtain ⟨b, _, inBlock⟩ := List.mem_flatMap.mp member
    exact block_unbroken b line inBlock
  have lines : Str.lines (String.ofList ((blocks.flatMap CpuBlock.lines).flatMap fun line =>
      line ++ ['\n'])) = (blocks.flatMap CpuBlock.lines).map String.ofList := by
    rw [Str.lines_terminated fun line member => (unbroken line member).1]
    congr 1
    calc (blocks.flatMap CpuBlock.lines).map Str.dropCarriageReturn
        = (blocks.flatMap CpuBlock.lines).map id := List.map_congr_left fun line member =>
          dropCarriageReturn_of_notMem (unbroken line member).2
      _ = blocks.flatMap CpuBlock.lines := List.map_id _
  have small : ∀ b ∈ blocks, b.cpu.socket < 2 ^ 63 ∧ b.cpu.core < 2 ^ 63 := by
    intro b member
    have isCpu := perm.mem_iff.mp (List.mem_map.mpr ⟨b, member, rfl⟩)
    exact (m.cpuIds b.cpu isCpu).2
  rw [Parse.cpuinfo, lines]
  dsimp only
  have keys := cpuinfo_blocks khz {} small
  generalize ((blocks.flatMap CpuBlock.lines).map String.ofList).foldl (Parse.cpuinfoLine khz) {} =
    scan at keys ⊢
  rw [← List.toFinset_card_of_nodup scan.cores.keys_nodup]
  have same : scan.cores.keys.toFinset =
      (m.cpus.map fun c => toLex ((c.socket : Int), (c.core : Int))).toFinset := by
    ext x
    have started : x ∉ (Parse.CpuInfoScan.cores {}).keys := List.not_mem_nil
    rw [List.mem_toFinset, List.mem_toFinset, keys x, or_iff_right started, ← (perm.map _).mem_iff,
      List.map_map]
    rfl
  rw [same]
  congr 1
  apply Grouping.card_keys_congr
  intro a _ b _
  rw [EmbeddingLike.apply_eq_iff_eq, Prod.mk.injEq, Prod.mk.injEq, Int.ofNat_inj, Int.ofNat_inj]

/-! ## Agreement -/

/-- The nodes have as many cores as `cpuinfo` counts, and one core has the threads of one pair
of socket and core id. -/
def CoresAgree (nodes : List V1.Node) (summary : Parse.CpuInfoSummary) (m : NumaMachine) : Prop :=
  ((nodes.map fun node => node.cores.length).sum : Nat) = summary.physicalCores ∧
    ∀ a ∈ m.cpus, ∀ b ∈ m.cpus,
      (∃ node ∈ nodes, ∃ core ∈ node.cores,
          (a.id : Int) ∈ core.threads ∧ (b.id : Int) ∈ core.threads) ↔
        (a.socket, a.core) = (b.socket, b.core)

/-- The two readers agree exactly when no node has one core id on two sockets. -/
theorem coresAgree_iff {sys : Sysfs} {content : String} {m : NumaMachine}
    (inSysfs : SysfsDescribes sys m) (inCpuinfo : CpuinfoDescribes content m)
    (khz : String → UInt64) :
    CoresAgree sys.topology.1 (Parse.cpuinfo khz content) m ↔
      ∀ a ∈ m.cpus, ∀ b ∈ m.cpus, a.node = b.node → a.core = b.core → a.socket = b.socket := by
  constructor
  · rintro ⟨-, threads⟩ a aCpu b bCpu sameNode sameCore
    have together := (together_iff inSysfs aCpu bCpu).mpr ⟨sameNode, sameCore⟩
    exact (Prod.mk.inj ((threads a aCpu b bCpu).mp together)).1
  · intro oneSocket
    have pairs : ∀ a ∈ m.cpus, ∀ b ∈ m.cpus,
        (a.node, a.core) = (b.node, b.core) ↔ (a.socket, a.core) = (b.socket, b.core) := by
      intro a aCpu b bCpu
      rw [Prod.mk.injEq, Prod.mk.injEq]
      constructor
      · rintro ⟨sameNode, sameCore⟩
        exact ⟨oneSocket a aCpu b bCpu sameNode sameCore, sameCore⟩
      · rintro ⟨sameSocket, sameCore⟩
        exact ⟨m.oneNode a aCpu b bCpu sameSocket sameCore, sameCore⟩
    constructor
    · rw [sum_cores inSysfs, physicalCores_eq inCpuinfo, Grouping.card_keys_congr pairs]
    · intro a aCpu b bCpu
      rw [together_iff inSysfs aCpu bCpu, ← Prod.mk.injEq]
      exact pairs a aCpu b bCpu

/-! ## Two machines -/

/-- The least that `/proc/cpuinfo` has for a cpu. -/
def shortBlock (c : Cpu) : CpuBlock where
  cpu := c
  before := ["processor\t: ".toList ++ (toString c.id).toList]
  between := []
  after := [[]]
  plain := by
    have blank : OtherLine [] := ⟨by decide, by decide, fun k v cut => by cases cut⟩
    have processor : OtherLine ("processor\t: ".toList ++ (toString c.id).toList) := by
      have noFeed : '\n' ∉ "processor\t: ".toList := by decide
      obtain ⟨feed, back⟩ := keyed_unbroken noFeed (by decide) c.id
      refine ⟨feed, back, ?_⟩
      intro k v found
      obtain ⟨k', v', cut, key, -⟩ :=
        cut_keyed "processor".toList ['\t'] (by decide) (by decide) c.id
      have text : "processor".toList ++ ['\t'] ++ [':', ' '] = "processor\t: ".toList := rfl
      rw [text, found] at cut
      cases cut
      rw [key]
      exact ⟨by decide, by decide⟩
    intro line member
    rcases List.mem_cons.mp member with first | last
    · exact first ▸ processor
    · exact List.mem_singleton.mp last ▸ blank

def shortCpuinfo (cpus : List Cpu) : String :=
  String.ofList (((cpus.map shortBlock).flatMap CpuBlock.lines).flatMap fun line => line ++ ['\n'])

theorem shortCpuinfo_describes (m : NumaMachine) : CpuinfoDescribes (shortCpuinfo m.cpus) m := by
  refine ⟨m.cpus.map shortBlock, ?_, rfl⟩
  rw [List.map_map]
  exact List.Perm.of_eq (List.map_id m.cpus)

/-- A socket in each of two nodes, each with a core 0. -/
def socketPerNode : NumaMachine where
  cpus := [⟨0, 0, 0, 0⟩, ⟨1, 1, 1, 0⟩]
  nodes := [0, 1]
  distinctIds := by decide
  distinctNodes := by decide
  homed := by simp
  oneNode := by simp
  cpuIds := by simp
  nodeIds := by simp

theorem twoNodes_describes : SysfsDescribes Sysfs.twoNodes socketPerNode where
  nodeDir := ⟨["node0", "node1"], [], by decide +kernel, List.Perm.refl _, by simp⟩
  cpulist := by
    intro k isNode
    rcases List.mem_cons.mp isNode with rfl | later
    · exact ⟨[(0, 0)], by decide +kernel, by simp, List.Perm.refl _⟩
    · obtain rfl := List.mem_singleton.mp later
      exact ⟨[(1, 1)], by decide +kernel, by simp, List.Perm.refl _⟩
  coreId := List.forall_mem_cons.mpr
    ⟨by decide +kernel, List.forall_mem_singleton.mpr (by decide +kernel)⟩
  packageId := List.forall_mem_cons.mpr
    ⟨by decide +kernel, List.forall_mem_singleton.mpr (by decide +kernel)⟩

theorem coresAgree_socketPerNode :
    CoresAgree Sysfs.twoNodes.topology.1
      (Parse.cpuinfo (fun _ => 0) (shortCpuinfo socketPerNode.cpus)) socketPerNode := by
  apply (coresAgree_iff twoNodes_describes (shortCpuinfo_describes socketPerNode) fun _ => 0).mpr
  simp [socketPerNode]

def socketsInOneNode : NumaMachine where
  cpus := [⟨0, 0, 0, 0⟩, ⟨1, 0, 1, 0⟩]
  nodes := [0]
  distinctIds := by decide
  distinctNodes := by decide
  homed := by simp
  oneNode := by simp
  cpuIds := by simp
  nodeIds := by simp

def flatSysfs : Sysfs where
  readDir path := if path = "/sys/devices/system/node" then some ["node0"] else none
  readToString path :=
    if path = "/sys/devices/system/node/node0/cpulist" then some "0-1\n"
    else if path = "/sys/devices/system/cpu/cpu0/topology/core_id" then some "0\n"
    else if path = "/sys/devices/system/cpu/cpu1/topology/core_id" then some "0\n"
    else if path = "/sys/devices/system/cpu/cpu0/topology/physical_package_id" then some "0\n"
    else if path = "/sys/devices/system/cpu/cpu1/topology/physical_package_id" then some "1\n"
    else none

theorem flatSysfs_describes : SysfsDescribes flatSysfs socketsInOneNode where
  nodeDir := ⟨["node0"], [], by decide +kernel, List.Perm.refl _, by simp⟩
  cpulist := by
    intro k isNode
    obtain rfl := List.mem_singleton.mp isNode
    exact ⟨[(0, 1)], by decide +kernel, by simp, List.Perm.refl _⟩
  coreId := List.forall_mem_cons.mpr
    ⟨by decide +kernel, List.forall_mem_singleton.mpr (by decide +kernel)⟩
  packageId := List.forall_mem_cons.mpr
    ⟨by decide +kernel, List.forall_mem_singleton.mpr (by decide +kernel)⟩

/-- One core is built for two, with the threads of both. -/
theorem socketsInOneNode_merged :
    SysfsDescribes flatSysfs socketsInOneNode ∧
      CpuinfoDescribes (shortCpuinfo socketsInOneNode.cpus) socketsInOneNode ∧
      flatSysfs.topology.1.map (fun node => node.cores.map V1.Core.threads) = [[[0, 1]]] ∧
      ¬ CoresAgree flatSysfs.topology.1
        (Parse.cpuinfo (fun _ => 0) (shortCpuinfo socketsInOneNode.cpus)) socketsInOneNode := by
  refine ⟨flatSysfs_describes, shortCpuinfo_describes _, by decide +kernel, ?_⟩
  intro agree
  have counts := agree.1
  rw [sum_cores flatSysfs_describes, physicalCores_eq (shortCpuinfo_describes _)] at counts
  cases counts

end Cadvisor
