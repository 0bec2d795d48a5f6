import Cadvisor.Lib.Fields
import Cadvisor.Lib.Grouping
import Cadvisor.Lib.SortedSeq
import Cadvisor.Model.Machine
import Mathlib.Data.Prod.Lex

/-!
# NUMA nodes, cores and caches

`topology` reads the nodes below `/sys/devices/system`, each with its cores and caches.
The files and directory listings of sysfs are a parameter; what cannot be read is `none`.
The unsigned arithmetic wraps.
-/

set_option autoImplicit false

namespace Cadvisor

/-- `a..=b`. -/
def inclusiveRange (a b : Int) : List Int :=
  (List.range (b - a + 1).toNat).map fun (i : Nat) => a + i

def cpulistPart (part : String) : List Int :=
  let part := Str.trim part
  if part = "" then []
  else
    match Str.splitOnce part '-' with
    | some (a, b) =>
        match Str.parseSigned (2 ^ 63) a, Str.parseSigned (2 ^ 63) b with
        | some a, some b => inclusiveRange a b
        | _, _ => []
    | none => (Str.parseSigned (2 ^ 63) part).toList

/-- Expands a list such as `0-3,8,10-11` into ids. -/
def parseCpulist (list : String) : List Int := (Str.split list ',').flatMap cpulistPart

/-- Sizes are written as `32K` or `1280K`. -/
def parseCacheSize (s : String) : UInt64 :=
  let s := Str.trim s
  let front := String.ofList s.toList.dropLast
  let (num, mult) : String × UInt64 :=
    match s.toList.getLast? with
    | some 'K' => (front, 1024)
    | some 'M' => (front, 1024 * 1024)
    | some 'G' => (front, 1024 * 1024 * 1024)
    | _ => (s, 1)
  (Str.parseU64 num).getD 0 * mult

/-- `as i64`. -/
def asI64 (n : UInt64) : Int := if n.toNat < 2 ^ 63 then n.toNat else n.toNat - 2 ^ 64

/-- One cache of a cpu goes to its core or to the node; `held` are the caches of both. -/
def attachCache (cpuCount : Nat) (held : List V1.Cache × List V1.Cache)
    (entry : V1.Cache × List Int) : List V1.Cache × List V1.Cache :=
  let (coreCaches, nodeCaches) := held
  let (cache, shared) := entry
  if cache.level < 3 then
    -- Per-core cache: the first thread wins.
    if coreCaches.any fun c => c.level = cache.level ∧ c.cacheType = cache.cacheType then held
    else (coreCaches ++ [cache], nodeCaches)
  else if cpuCount ≤ shared.length then
    -- Shared by every cpu of the node.
    if nodeCaches.any fun c => c.level = cache.level ∧ c.cacheType = cache.cacheType then held
    else (coreCaches, nodeCaches ++ [cache])
  else
    -- Shared by some: still of the node, told apart by the id.
    if nodeCaches.any fun c => c.id = cache.id ∧ c.level = cache.level then held
    else (coreCaches, nodeCaches ++ [cache])

/-- Level ascending, data before instruction within a level. -/
def sortCaches (core : V1.Core) : V1.Core :=
  { core with
    caches := SortedSeq.stableSort (fun c => toLex (c.level, c.cacheType)) core.caches }

/-- The last line that names `MemTotal:` counts, by its next to last word. -/
def nodeMemory (meminfo : String) : UInt64 :=
  (Str.lines meminfo).foldl (fun memory line =>
    if Str.contains line "MemTotal:" then
      let kb := (((Str.splitWhitespace line).reverse[1]?).bind Str.parseU64).getD 0
      kb * 1024
    else memory) 0

def cpuBase (cpuId : Int) : String := "/sys/devices/system/cpu/cpu" ++ toString cpuId

def nodeBase (nodeId : Int) : String := "/sys/devices/system/node/node" ++ toString nodeId

structure Sysfs where
  readToString : String → Option String
  readDir : String → Option (List String)

namespace Sysfs

variable (sys : Sysfs)

def readTrim (path : String) : Option String := (sys.readToString path).map Str.trim

def readU64 (path : String) : Option UInt64 := (sys.readTrim path).bind Str.parseU64

def hugepagesFrom (dir : String) : List V1.HugePagesInfo :=
  match sys.readDir dir with
  | none => []
  | some entries =>
      let out := entries.filterMap fun name =>
        ((Str.stripPrefix name "hugepages-").bind fun s => Str.stripSuffix s "kB").map fun size =>
          let info : V1.HugePagesInfo :=
            { pageSize := (Str.parseU64 size).getD 0
              numPages := (sys.readU64 (dir ++ "/" ++ name ++ "/nr_hugepages")).getD 0 }
          (name, info)
      (SortedSeq.stableSort Prod.fst out).map Prod.snd

def perCpuTopology (cpuId : Int) : Option (Int × Int) :=
  let base := cpuBase cpuId ++ "/topology"
  (sys.readU64 (base ++ "/core_id")).bind fun coreId =>
    (sys.readU64 (base ++ "/physical_package_id")).map fun socketId =>
      (asI64 coreId, asI64 socketId)

def cpuCache (p : String) : Option (V1.Cache × List Int) :=
  let level := asI64 ((sys.readU64 (p ++ "/level")).getD 0)
  let cacheType := (sys.readTrim (p ++ "/type")).getD ""
  if cacheType = "Data" ∨ cacheType = "Instruction" ∨ cacheType = "Unified" then
    let size := parseCacheSize ((sys.readTrim (p ++ "/size")).getD "")
    let id := asI64 ((sys.readU64 (p ++ "/id")).getD 0)
    let shared := parseCpulist ((sys.readTrim (p ++ "/shared_cpu_list")).getD "")
    some ({ id, size, cacheType, level }, shared)
  else none

def cpuCaches (cpuId : Int) : List (V1.Cache × List Int) :=
  let base := cpuBase cpuId ++ "/cache"
  match sys.readDir base with
  | none => []
  | some entries =>
      entries.filterMap fun name =>
        if Str.startsWith name "index" then sys.cpuCache (base ++ "/" ++ name) else none

/-- One turn of the loop over a node's cpus.  The core that the cpu goes to is found by the
core id alone. -/
def visitCpu (cpuCount : Nat) (node : V1.Node) (cpu : Int) : V1.Node :=
  match sys.perCpuTopology cpu with
  | none => node
  | some (coreId, socketId) =>
      let core := (node.cores.find? fun c => c.id = coreId).getD
        { id := coreId, socketId := socketId }
      let threads := SortedSeq.stableSort id (core.threads ++ [cpu])
      let (coreCaches, nodeCaches) :=
        (sys.cpuCaches cpu).foldl (attachCache cpuCount) (core.caches, node.caches)
      { node with
        cores := Grouping.put V1.Core.id { core with threads := threads, caches := coreCaches }
          node.cores
        caches := nodeCaches }

def nodeCpus (nodeId : Int) : List Int :=
  parseCpulist ((sys.readTrim (nodeBase nodeId ++ "/cpulist")).getD "")

def readNode (nodeId : Int) : V1.Node :=
  let base := nodeBase nodeId
  let distances := parseCpulist ((sys.readTrim (base ++ "/distance")).getD "")
  let node : V1.Node :=
    { id := nodeId
      memory := ((sys.readTrim (base ++ "/meminfo")).map nodeMemory).getD 0
      hugepages := sys.hugepagesFrom (base ++ "/hugepages")
      distances := distances.map UInt64.ofInt }
  let cpus := sys.nodeCpus nodeId
  let node := cpus.foldl (sys.visitCpu cpus.length) node
  { node with cores := (SortedSeq.stableSort V1.Core.id node.cores).map sortCaches }

def nodeIds : List Int :=
  match sys.readDir "/sys/devices/system/node" with
  | none => []
  | some entries =>
      SortedSeq.stableSort id (entries.filterMap fun name =>
        (Str.stripPrefix name "node").bind (Str.parseSigned (2 ^ 63)))

/-- The nodes, and the number of cpus listed for them. -/
def topology : List V1.Node × Int :=
  (sys.nodeIds.map sys.readNode, (sys.nodeIds.map fun id => (sys.nodeCpus id).length).sum)

end Sysfs

/-! ## The cores of a node -/

namespace Sysfs

variable (sys : Sysfs)

def coreOf (cpu : Int) : Int := ((sys.perCpuTopology cpu).map Prod.fst).getD 0

def placed (cpus : List Int) : List Int := cpus.filter fun cpu => (sys.perCpuTopology cpu).isSome

theorem visitCpus_grouped (cpuCount : Nat) (cpus : List Int) {node : V1.Node}
    (fresh : node.cores = []) :
    Grouping.Grouped V1.Core.id V1.Core.threads sys.coreOf
      (cpus.foldl (sys.visitCpu cpuCount) node).cores (sys.placed cpus) := by
  induction cpus using List.reverseRecOn with
  | nil =>
      rw [List.foldl_nil, fresh]
      exact Grouping.Grouped.nil
  | append_singleton cpus cpu ih =>
      rw [List.foldl_append, List.foldl_cons, List.foldl_nil, placed, List.filter_append]
      generalize cpus.foldl (sys.visitCpu cpuCount) node = reached at ih
      unfold visitCpu
      cases found : sys.perCpuTopology cpu with
      | none =>
          rw [List.filter_cons_of_neg (by simp [found]), List.filter_nil, List.append_nil]
          exact ih
      | some ids =>
          obtain ⟨coreId, socketId⟩ := ids
          have ofCpu : sys.coreOf cpu = coreId := by rw [coreOf, found]; rfl
          rw [List.filter_cons_of_pos (by simp [found]), List.filter_nil]
          apply ih.put
          · rw [ofCpu]
            exact Grouping.keyOf_find V1.Core.id reached.cores rfl
          · intro thread
            rw [SortedSeq.mem_stableSort, List.mem_append, List.mem_singleton,
              ih.mem_find coreId rfl, ofCpu]
            exact Or.comm

theorem readNode_grouped (nodeId : Int) :
    Grouping.Grouped V1.Core.id V1.Core.threads sys.coreOf (sys.readNode nodeId).cores
      (sys.placed (sys.nodeCpus nodeId)) :=
  (sys.visitCpus_grouped _ _ rfl).of_perm_map (SortedSeq.stableSort_perm ..) (fun _ => rfl)
    fun _ => rfl

end Sysfs

/-! ## Lists of ids -/

theorem toString_ne_empty (n : Nat) : toString n ≠ "" := by
  intro empty
  exact Str.toString_nat_ne_nil n (congrArg String.toList empty)

theorem cpulistPart_toString (n : Nat) :
    cpulistPart (toString n) = if n < 2 ^ 63 then [(n : Int)] else [] := by
  have trimmed : Str.trim (toString n) = toString n := by
    have read := Str.trim_black [] (Str.toString_black n) (by simp)
    rwa [List.append_nil, String.ofList_toList] at read
  have noDash : Str.splitOnce (toString n) '-' = none :=
    if_neg (Str.notMem_toString_nat (by decide) n)
  rw [cpulistPart]
  simp only [trimmed, if_neg (toString_ne_empty n), noDash, Str.parseSigned_nat]
  split <;> rfl

theorem parseCpulist_single {part : String} (one : ',' ∉ part.toList) :
    parseCpulist part = cpulistPart part := by
  rw [parseCpulist, Str.split, List.splitOn_eq_singleton one]
  simp

/-! ## Distances -/

/-- A distance row as the kernel prints it. -/
def distanceRow (ds : List Nat) : String := Str.join " " (ds.map toString) ++ "\n"

theorem trim_numbers (ds : List Nat) (after : List Char)
    (white : ∀ c ∈ after, Str.isWhitespace c = true) :
    Str.trim (Str.join " " (ds.map toString) ++ String.ofList after) =
      Str.join " " (ds.map toString) := by
  cases ds with
  | nil =>
      have nothing : ∀ c ∈ ([] : List Char), Str.isWhitespace c = false :=
        fun _ absent => absurd absent List.not_mem_nil
      have empty : Str.join " " (([] : List Nat).map toString) = String.ofList [] := rfl
      rw [empty, ← String.ofList_append]
      exact Str.trim_black after nothing white
  | cons d rest =>
      have row : Str.join " " ((d :: rest).map toString) ++ String.ofList after =
          String.ofList ((toString d).toList ++
            Str.spaced ((rest.map toString).map String.toList) ++ after) := by
        rw [List.map_cons, Str.join_spaced]
        apply String.toList_inj.mp
        simp
      have numbers : ∀ field ∈ (toString d).toList :: (rest.map toString).map String.toList,
          ∃ n : Nat, field = (toString n).toList := by
        intro field member
        rw [List.map_map, List.mem_cons, List.mem_map] at member
        rcases member with first | ⟨n, _, later⟩
        · exact ⟨d, first⟩
        · exact ⟨n, later.symm⟩
      rw [row, Str.trim_spaced, List.map_cons, Str.join_spaced]
      · intro field member
        obtain ⟨n, rfl⟩ := numbers field member
        exact Str.toString_nat_ne_nil n
      · intro field member
        obtain ⟨n, rfl⟩ := numbers field member
        exact Str.toString_black n
      · exact white

theorem trim_distanceRow (ds : List Nat) :
    Str.trim (distanceRow ds) = Str.join " " (ds.map toString) :=
  trim_numbers ds ['\n'] Str.newline_white

theorem parseCpulist_one (d : Nat) :
    parseCpulist (Str.trim (distanceRow [d])) = if d < 2 ^ 63 then [(d : Int)] else [] := by
  have alone : Str.join " " ([d].map toString) = toString d := by
    rw [List.map_singleton, Str.join_spaced, List.map_nil, Str.spaced, List.flatMap_nil,
      List.append_nil, String.ofList_toList]
  rw [trim_distanceRow, alone, parseCpulist_single (Str.notMem_toString_nat (by decide) d),
    cpulistPart_toString]

theorem parseCpulist_more (d e : Nat) (rest : List Nat) :
    parseCpulist (Str.trim (distanceRow (d :: e :: rest))) = [] := by
  have absent (c : Char) (notSpace : c ≠ ' ') (notDigit : c.isDigit = false) :
      c ∉ (Str.join " " ((d :: e :: rest).map toString)).toList := by
    rw [List.map_cons, Str.join_spaced, String.toList_ofList, List.mem_append]
    rintro (inFirst | inRest)
    · exact Str.notMem_toString_nat notDigit d inFirst
    · refine Str.notMem_spaced notSpace ?_ inRest
      intro field member
      rw [List.map_map] at member
      obtain ⟨n, _, rfl⟩ := List.mem_map.mp member
      exact Str.notMem_toString_nat notDigit n
  have space : ' ' ∈ (Str.join " " ((d :: e :: rest).map toString)).toList := by
    rw [List.map_cons, Str.join_spaced, String.toList_ofList, List.map_cons, List.map_cons,
      Str.spaced_cons]
    exact List.mem_append_right _ (List.mem_cons_self ..)
  have trimmed := trim_numbers (d :: e :: rest) [] (by simp)
  rw [String.ofList_nil, String.append_empty] at trimmed
  rw [trim_distanceRow, parseCpulist_single (absent ',' (by decide) (by decide)), cpulistPart]
  have noDash : Str.splitOnce (Str.join " " ((d :: e :: rest).map toString)) '-' = none :=
    if_neg (absent '-' (by decide) (by decide))
  have nonempty : Str.join " " ((d :: e :: rest).map toString) ≠ "" := by
    intro empty
    rw [empty] at space
    cases space
  rw [trimmed, if_neg nonempty, noDash, Str.parseSigned_eq_none space (by decide) (by decide)]
  rfl

theorem distanceRow_restored_iff (ds : List Nat) :
    ((parseCpulist (Str.trim (distanceRow ds))).map UInt64.ofInt).map UInt64.toNat = ds ↔
      ds.length ≤ 1 ∧ ∀ d ∈ ds, d < 2 ^ 63 := by
  rcases ds with _ | ⟨d, _ | ⟨e, rest⟩⟩
  · exact ⟨fun _ => ⟨by simp, by simp⟩, fun _ => rfl⟩
  · rw [parseCpulist_one]
    by_cases small : d < 2 ^ 63
    · have back : (UInt64.ofInt (d : Int)).toNat = d := by
        rw [UInt64.ofInt, UInt64.toNat_ofNat']
        omega
      rw [if_pos small, List.map_singleton, List.map_singleton, back]
      exact ⟨fun _ => ⟨Nat.le_refl 1, List.forall_mem_singleton.mpr small⟩, fun _ => rfl⟩
    · rw [if_neg small]
      constructor
      · intro impossible
        cases impossible
      · rintro ⟨_, fits⟩
        exact absurd (fits d (List.mem_cons_self ..)) small
  · rw [parseCpulist_more]
    constructor
    · intro impossible
      cases impossible
    · rintro ⟨short, _⟩
      rw [List.length_cons, List.length_cons] at short
      omega

/-! ## What the loop over the cpus leaves alone -/

namespace Sysfs

variable (sys : Sysfs)

theorem visitCpu_frame (cpuCount : Nat) (node : V1.Node) (cpu : Int) :
    (sys.visitCpu cpuCount node cpu).id = node.id ∧
      (sys.visitCpu cpuCount node cpu).distances = node.distances := by
  unfold visitCpu
  split <;> exact ⟨rfl, rfl⟩

theorem visitCpus_frame (cpuCount : Nat) (cpus : List Int) (node : V1.Node) :
    (cpus.foldl (sys.visitCpu cpuCount) node).id = node.id ∧
      (cpus.foldl (sys.visitCpu cpuCount) node).distances = node.distances := by
  induction cpus generalizing node with
  | nil => exact ⟨rfl, rfl⟩
  | cons cpu rest ih =>
      obtain ⟨sameId, sameDistances⟩ := sys.visitCpu_frame cpuCount node cpu
      rw [List.foldl_cons, (ih _).1, (ih _).2]
      exact ⟨sameId, sameDistances⟩

theorem readNode_id (nodeId : Int) : (sys.readNode nodeId).id = nodeId := by
  unfold readNode
  dsimp only
  rw [(sys.visitCpus_frame ..).1]

theorem readNode_distances (nodeId : Int) :
    (sys.readNode nodeId).distances =
      (parseCpulist ((sys.readTrim (nodeBase nodeId ++ "/distance")).getD "")).map
        UInt64.ofInt := by
  unfold readNode
  dsimp only
  rw [(sys.visitCpus_frame ..).2]

/-- The distances of a node that the listing names are those of its file exactly when there
is at most one, and that one is an `i64`. -/
theorem distances_eq_iff {nodeId : Int} (listed : nodeId ∈ sys.nodeIds) {ds : List Nat}
    (file : sys.readToString (nodeBase nodeId ++ "/distance") = some (distanceRow ds)) :
    (∃ node ∈ sys.topology.1, node.id = nodeId) ∧
      ((∀ node ∈ sys.topology.1, node.id = nodeId → node.distances.map UInt64.toNat = ds) ↔
        ds.length ≤ 1 ∧ ∀ d ∈ ds, d < 2 ^ 63) := by
  have built : sys.readNode nodeId ∈ sys.topology.1 := List.mem_map.mpr ⟨nodeId, listed, rfl⟩
  refine ⟨⟨sys.readNode nodeId, built, sys.readNode_id nodeId⟩, ?_⟩
  have only : (∀ node ∈ sys.topology.1, node.id = nodeId → node.distances.map UInt64.toNat = ds) ↔
      (sys.readNode nodeId).distances.map UInt64.toNat = ds := by
    constructor
    · intro all
      exact all (sys.readNode nodeId) built (sys.readNode_id nodeId)
    · intro same node member isNode
      obtain ⟨other, _, rfl⟩ := List.mem_map.mp member
      rw [readNode_id] at isNode
      rw [isNode]
      exact same
  rw [only, readNode_distances, readTrim, file, Option.map_some, Option.getD_some]
  exact distanceRow_restored_iff ds

def oneNode : Sysfs where
  readDir path := if path = "/sys/devices/system/node" then some ["node0"] else none
  readToString path :=
    if path = "/sys/devices/system/node/node0/distance" then some "10\n" else none

theorem distances_eq_iff_oneNode :
    (∃ node ∈ oneNode.topology.1, node.id = 0) ∧
      ∀ node ∈ oneNode.topology.1, node.id = 0 → node.distances.map UInt64.toNat = [10] := by
  have listed : (0 : Int) ∈ oneNode.nodeIds := by decide +kernel
  have file : oneNode.readToString (nodeBase 0 ++ "/distance") = some (distanceRow [10]) := by
    decide +kernel
  obtain ⟨found, restored⟩ := oneNode.distances_eq_iff listed file
  exact ⟨found, restored.mpr ⟨by decide, by decide⟩⟩

/-- Two nodes of one cpu each, 10 from themselves and 20 from each other. -/
def twoNodes : Sysfs where
  readDir path := if path = "/sys/devices/system/node" then some ["node0", "node1"] else none
  readToString path :=
    if path = "/sys/devices/system/node/node0/cpulist" then some "0\n"
    else if path = "/sys/devices/system/node/node1/cpulist" then some "1\n"
    else if path = "/sys/devices/system/cpu/cpu0/topology/core_id" then some "0\n"
    else if path = "/sys/devices/system/cpu/cpu1/topology/core_id" then some "0\n"
    else if path = "/sys/devices/system/cpu/cpu0/topology/physical_package_id" then some "0\n"
    else if path = "/sys/devices/system/cpu/cpu1/topology/physical_package_id" then some "1\n"
    else if path = "/sys/devices/system/node/node0/distance" then some "10 20\n"
    else if path = "/sys/devices/system/node/node1/distance" then some "20 10\n"
    else none

theorem twoNodes_distances_lost :
    twoNodes.nodeIds = [0, 1] ∧
      twoNodes.readToString (nodeBase 0 ++ "/distance") = some (distanceRow [10, 20]) ∧
      twoNodes.topology.1.map (fun node => (node.id, node.distances)) = [(0, []), (1, [])] := by
  decide +kernel

end Sysfs

end Cadvisor
