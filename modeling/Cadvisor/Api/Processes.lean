import Cadvisor.Lib.Fields
import Cadvisor.Lib.Utf8
import Cadvisor.Manager.Sweep
import Cadvisor.Model.V2

/-!
# The processes of a container

`process_list` reads each process of a container's cgroup from `/proc`.  The files there
are bytes, and reading one as a text fails unless it is valid UTF-8.
-/

set_option autoImplicit false

namespace Cadvisor

/-- `/proc`: the bytes of a file and the number of entries of a directory, `none` where they
cannot be read. -/
structure ProcFs where
  file : String → Option (List UInt8)
  entries : String → Option Nat

def ProcFs.readToString (fs : ProcFs) (path : String) : Option String :=
  (fs.file path).bind Str.fromUtf8

def Manager.containerPids (m : Manager) (files : CgroupReader.Files) (name : String) :
    Option (List UInt32) :=
  match m.containers.get? name with
  | none => none
  | some _ => (CgroupReader.procs files).toOption

/-- One turn of the loop over the pids; `none` is a process passed over. -/
def processRow (fs : ProcFs) (pid : UInt32) : Option V2.ProcessInfo :=
  let base := "/proc/" ++ toString pid.toNat
  let stat := (fs.readToString (base ++ "/stat")).getD ""
  let cmdline := (fs.readToString (base ++ "/cmdline")).getD ""
  let status := (fs.readToString (base ++ "/status")).getD ""
  match Str.behindLast stat ')' with
  | none => none
  | some behind =>
      let fields := Str.splitWhitespace behind
      if fields.length < 40 then none
      else
        let state := fields.getD 0 ""
        let ppid := (Str.parseSigned (2 ^ 63) (fields.getD 1 "")).getD 0
        let vsize := (Str.parseU64 (fields.getD 20 "")).getD 0
        let rssPages := (Str.parseU64 (fields.getD 21 "")).getD 0
        let psr := (Str.parseSigned (2 ^ 63) (fields.getD 36 "")).getD 0
        let uid := (((Str.lines status).findSome? fun l => Str.stripPrefix l "Uid:").bind fun l =>
          (Str.splitWhitespace l).head?).getD ""
        let fdCount := (fs.entries (base ++ "/fd")).getD 0
        let cgroupPath := ((fs.readToString (base ++ "/cgroup")).bind fun c =>
          (Str.lines c).head?.bind fun l =>
            (Str.splitOnce l ':').bind fun hierarchy =>
              (Str.splitOnce hierarchy.2 ':').map Prod.snd).getD ""
        some
          { user := uid
            pid := pid.toNat
            ppid := ppid
            rss := rssPages * 4096
            virtualSize := vsize
            status := state
            cgroupPath := cgroupPath
            cmd := Str.trim (String.ofList (cmdline.toList.map fun c =>
              if c = Char.ofNat 0 then ' ' else c))
            fdCount := fdCount
            psr := psr }

def processList (m : Manager) (files : CgroupReader.Files) (fs : ProcFs) (name : String) :
    List V2.ProcessInfo :=
  match m.containerPids files name with
  | none => []
  | some pids => pids.filterMap (processRow fs)

/-! ## What the kernel prints -/

/-- A line of `/proc/<pid>/stat`.  Behind the name stand numbers only, but for the state. -/
structure StatLine where
  pid : Nat
  comm : List UInt8
  state : Char
  ppid : Int
  /-- The process group up to the start time. -/
  upToStart : List Int
  vsize : UInt64
  rssPages : UInt64
  /-- The memory limit up to the exit signal. -/
  upToSignal : List Int
  processor : Int
  others : List Int
  noNul : 0 ∉ comm
  letter : state.isAlpha = true
  parent : -2 ^ 63 ≤ ppid ∧ ppid < 2 ^ 63
  eighteen : upToStart.length = 18
  fourteen : upToSignal.length = 14
  cpu : -2 ^ 63 ≤ processor ∧ processor < 2 ^ 63
  three : 3 ≤ others.length

namespace StatLine

variable (line : StatLine)

def fields : List (List Char) :=
  [line.state] :: (toString line.ppid).toList ::
    (line.upToStart.map (fun n => (toString n).toList) ++
      (toString line.vsize.toNat).toList :: (toString line.rssPages.toNat).toList ::
        (line.upToSignal.map (fun n => (toString n).toList) ++
          (toString line.processor).toList :: line.others.map fun n => (toString n).toList))

def bytes : List UInt8 :=
  Str.utf8Bytes (String.ofList ((toString line.pid).toList ++ [' '] ++ ['('])) ++ line.comm ++
    Str.utf8Bytes (String.ofList (')' :: (Str.spaced line.fields ++ ['\n'])))

def expected : String × Int × UInt64 × Nat × Int :=
  (String.singleton line.state, line.ppid, line.vsize, line.rssPages.toNat * 4096, line.processor)

end StatLine

/-- The columns of a row that come from the stat line, behind the pid. -/
def V2.ProcessInfo.fromStat (row : V2.ProcessInfo) : Int × String × Int × UInt64 × Nat × Int :=
  (row.pid, row.status, row.ppid, row.virtualSize, row.rss.toNat, row.psr)

/-! ## What is read back -/

namespace StatLine

variable (line : StatLine)

theorem field_plain : ∀ field ∈ line.fields,
    field ≠ [] ∧ (∀ c ∈ field, Str.isWhitespace c = false) ∧ ')' ∉ field := by
  have number (n : Int) : (toString n).toList ≠ [] ∧
      (∀ c ∈ (toString n).toList, Str.isWhitespace c = false) ∧
        ')' ∉ (toString n).toList := by
    refine ⟨?_, ?_, Str.notMem_toString_int (by decide) (by decide) n⟩
    · cases n with
      | ofNat n => exact Str.toString_nat_ne_nil n
      | negSucc n =>
          rw [Str.toString_negSucc_toList]
          exact List.cons_ne_nil _ _
    · cases n with
      | ofNat n => exact Str.toString_black n
      | negSucc n =>
          rw [Str.toString_negSucc_toList]
          exact List.forall_mem_cons.mpr ⟨by decide, Str.toString_black (n + 1)⟩
  have natural (n : Nat) : (toString n).toList ≠ [] ∧
      (∀ c ∈ (toString n).toList, Str.isWhitespace c = false) ∧
        ')' ∉ (toString n).toList := number n
  intro field member
  simp only [fields, List.mem_cons, List.mem_append, List.mem_map] at member
  rcases member with rfl | rfl | ⟨n, _, rfl⟩ | rfl | rfl | ⟨n, _, rfl⟩ | rfl | ⟨n, _, rfl⟩
  · refine ⟨List.cons_ne_nil _ _,
      List.forall_mem_singleton.mpr (Str.black_of_isAlpha line.letter), ?_⟩
    intro paren
    have letter := line.letter
    rw [← List.mem_singleton.mp paren] at letter
    cases letter
  · exact number _
  · exact number n
  · exact natural _
  · exact natural _
  · exact number n
  · exact number _
  · exact number n

theorem behind_paren (front : List Char) :
    Str.behindLast (String.ofList (front ++ ')' :: (Str.spaced line.fields ++ ['\n']))) ')' =
      some (String.ofList (Str.spaced line.fields ++ ['\n'])) := by
  apply Str.behindLast_append
  rw [List.mem_append, not_or]
  refine ⟨Str.notMem_spaced (by decide) fun field member => ?_, by decide⟩
  exact (line.field_plain field member).2.2

theorem words_behind :
    Str.splitWhitespace (String.ofList (Str.spaced line.fields ++ ['\n'])) =
      line.fields.map String.ofList :=
  Str.splitWhitespace_line fun field member =>
    ⟨(line.field_plain field member).1, (line.field_plain field member).2.1⟩

theorem length_fields : 40 ≤ line.fields.length := by
  have eighteen := line.eighteen
  have fourteen := line.fourteen
  have three := line.three
  simp only [fields, List.length_cons, List.length_append, List.length_map]
  omega

theorem columns :
    line.fields[0]? = some [line.state] ∧ line.fields[1]? = some (toString line.ppid).toList ∧
      line.fields[20]? = some (toString line.vsize.toNat).toList ∧
      line.fields[21]? = some (toString line.rssPages.toNat).toList ∧
      line.fields[36]? = some (toString line.processor).toList := by
  have eighteen := line.eighteen
  have fourteen := line.fourteen
  rw [fields]
  generalize (toString line.vsize.toNat).toList = vsize
  generalize (toString line.rssPages.toNat).toList = rss
  generalize (toString line.ppid).toList = ppid
  generalize (toString line.processor).toList = processor
  simp [List.getElem?_append, eighteen, fourteen]

theorem word {i : Nat} {text : String} (column : line.fields[i]? = some text.toList) :
    (line.fields.map String.ofList).getD i "" = text := by
  rw [List.getD_eq_getElem?_getD, List.getElem?_map, column, Option.map_some, Option.getD_some,
    String.ofList_toList]

end StatLine

/-- A process with such a line has a row exactly when its name is valid UTF-8. -/
theorem processRow_fromStat {fs : ProcFs} {pid : UInt32} {line : StatLine}
    (stat : fs.file ("/proc/" ++ toString pid.toNat ++ "/stat") = some line.bytes) :
    (processRow fs pid).map V2.ProcessInfo.fromStat =
      (Str.fromUtf8 line.comm).map fun _ =>
        ((pid.toNat : Int), String.singleton line.state, line.ppid, line.vsize,
          line.rssPages.toNat * 4096 % 2 ^ 64, line.processor) := by
  have read : fs.readToString ("/proc/" ++ toString pid.toNat ++ "/stat") =
      (Str.fromUtf8 line.comm).map fun s => String.ofList ((toString line.pid).toList ++ [' '] ++
        '(' :: (s.toList ++ ')' :: (Str.spaced line.fields ++ ['\n']))) := by
    rw [ProcFs.readToString, stat, Option.bind_some, StatLine.bytes]
    exact Str.fromUtf8_between (by decide) (by decide) _ _ line.comm
  obtain ⟨state, ppid, vsize, rss, psr⟩ := line.columns
  have stateText : [line.state] = (String.singleton line.state).toList :=
    (String.toList_singleton line.state).symm
  rw [stateText] at state
  have wide : ¬ line.fields.length < 40 := Nat.not_lt.mpr line.length_fields
  simp only [processRow, read]
  cases Str.fromUtf8 line.comm with
  | none => rfl
  | some s =>
      have text : (toString line.pid).toList ++ [' '] ++
          '(' :: (s.toList ++ ')' :: (Str.spaced line.fields ++ ['\n'])) =
          ((toString line.pid).toList ++ [' '] ++ '(' :: s.toList) ++
            ')' :: (Str.spaced line.fields ++ ['\n']) := by
        rw [List.append_assoc _ ('(' :: s.toList), List.cons_append]
      simp only [Option.map_some, Option.getD_some, text, line.behind_paren, line.words_behind,
        List.length_map, if_neg wide, line.word state, line.word ppid, line.word vsize,
        line.word rss, line.word psr, V2.ProcessInfo.fromStat, Str.parseU64_toString,
        Str.parseSigned_toString line.parent.1 line.parent.2,
        Str.parseSigned_toString line.cpu.1 line.cpu.2, UInt64.toNat_mul]
      rfl

theorem processRow_hidden {fs : ProcFs} {pid : UInt32} {line : StatLine}
    (stat : fs.file ("/proc/" ++ toString pid.toNat ++ "/stat") = some line.bytes)
    (noText : Str.fromUtf8 line.comm = none) : processRow fs pid = none := by
  have row := processRow_fromStat stat
  rw [noText, Option.map_none] at row
  exact Option.map_eq_none_iff.mp row

theorem processRow_eq_expected_iff {fs : ProcFs} {pid : UInt32} {line : StatLine}
    (stat : fs.file ("/proc/" ++ toString pid.toNat ++ "/stat") = some line.bytes) :
    (processRow fs pid).map V2.ProcessInfo.fromStat = some ((pid.toNat : Int), line.expected) ↔
      (Str.fromUtf8 line.comm).isSome ∧ line.rssPages.toNat * 4096 < 2 ^ 64 := by
  rw [processRow_fromStat stat]
  cases Str.fromUtf8 line.comm with
  | none =>
      constructor
      · intro impossible
        cases impossible
      · rintro ⟨impossible, _⟩
        cases impossible
  | some s =>
      simp only [Option.map_some, StatLine.expected, Option.some.injEq, Prod.mk.injEq, true_and,
        and_true, Option.isSome_some]
      omega

theorem processRow_gone {fs : ProcFs} {pid : UInt32}
    (stat : fs.file ("/proc/" ++ toString pid.toNat ++ "/stat") = none) :
    processRow fs pid = none := by
  have read : fs.readToString ("/proc/" ++ toString pid.toNat ++ "/stat") = none := by
    rw [ProcFs.readToString, stat, Option.bind_none]
  have nothing : Str.behindLast "" ')' = none := rfl
  simp only [processRow, read, Option.getD_none, nothing]

def pidsText (pids : List UInt32) : String :=
  String.ofList ((pids.map fun pid => (toString pid.toNat).toList).flatMap fun l => l ++ ['\n'])

theorem procs_pidsText {files : CgroupReader.Files} {pids : List UInt32}
    (listed : files "cgroup.procs" = .content (pidsText pids)) :
    CgroupReader.procs files = .ok pids := by
  have unbroken : ∀ line ∈ pids.map fun pid => (toString pid.toNat).toList, '\n' ∉ line := by
    intro line member
    obtain ⟨pid, _, rfl⟩ := List.mem_map.mp member
    exact Str.notMem_toString_nat (by decide) pid.toNat
  have one (pid : UInt32) :
      (Str.parseUnsigned (2 ^ 32) (Str.trim (String.ofList
        (Str.dropCarriageReturn (toString pid.toNat).toList)))).map UInt32.ofNat = some pid := by
    have black := Str.trim_black [] (Str.toString_black pid.toNat) (by simp)
    rw [List.append_nil] at black
    rw [Str.trim_dropCarriageReturn, black, String.ofList_toList, Str.parseUnsigned_nat,
      if_pos pid.toNat_lt, Option.map_some, UInt32.ofNat_toNat]
  rw [CgroupReader.procs, CgroupReader.read, listed]
  simp only [pidsText, Str.lines_terminated unbroken, List.map_map, List.filterMap_map,
    Function.comp_def, one, List.filterMap_some]

theorem processList_pidsText {m : Manager} {name : String} {files : CgroupReader.Files}
    {pids : List UInt32} (known : (m.containers.get? name).isSome)
    (listed : files "cgroup.procs" = .content (pidsText pids)) (fs : ProcFs) :
    processList m files fs name = pids.filterMap (processRow fs) := by
  obtain ⟨handle, registered⟩ := Option.isSome_iff_exists.mp known
  have read : m.containerPids files name = some pids := by
    rw [Manager.containerPids, registered, procs_pidsText listed]
    rfl
  rw [processList, read]

def expectedRows (lines : UInt32 → Option StatLine) (pids : List UInt32) :
    List (Int × String × Int × UInt64 × Nat × Int) :=
  pids.filterMap fun pid => (lines pid).map fun line => ((pid.toNat : Int), line.expected)

/-- Every process is listed as it is, in order, exactly when every name is a text and no
resident size overflows; a process with another name is hidden. -/
theorem processList_fromStat_iff {m : Manager} {name : String} {files : CgroupReader.Files}
    {fs : ProcFs} {pids : List UInt32} {lines : UInt32 → Option StatLine}
    (known : (m.containers.get? name).isSome)
    (listed : files "cgroup.procs" = .content (pidsText pids))
    (stats : ∀ pid ∈ pids,
      fs.file ("/proc/" ++ toString pid.toNat ++ "/stat") = (lines pid).map StatLine.bytes) :
    (processList m files fs name).map V2.ProcessInfo.fromStat = expectedRows lines pids ↔
      ∀ pid ∈ pids, ∀ line, lines pid = some line →
        (Str.fromUtf8 line.comm).isSome ∧ line.rssPages.toNat * 4096 < 2 ^ 64 := by
  have gone : ∀ pid ∈ pids, lines pid = none → processRow fs pid = none := by
    intro pid member absent
    apply processRow_gone
    rw [stats pid member, absent, Option.map_none]
  rw [processList_pidsText known listed, List.map_filterMap, expectedRows,
    Str.filterMap_eq_filterMap_iff]
  · refine forall₂_congr fun pid member => ?_
    cases lineIs : lines pid with
    | none => simp [gone pid member lineIs]
    | some line =>
        have stat : fs.file ("/proc/" ++ toString pid.toNat ++ "/stat") = some line.bytes := by
          rw [stats pid member, lineIs, Option.map_some]
        rw [Option.map_some, processRow_eq_expected_iff stat]
        constructor
        · rintro holds _ ⟨⟩
          exact holds
        · intro holds
          exact holds line rfl
  · intro pid member nothing
    rw [gone pid member (Option.map_eq_none_iff.mp nothing), Option.map_none]

def namedLine (comm : List UInt8) (noNul : 0 ∉ comm) : StatLine where
  pid := 7
  comm
  state := 'S'
  ppid := 1
  upToStart := List.replicate 18 0
  vsize := 4096000
  rssPages := 300
  upToSignal := List.replicate 14 0
  processor := 2
  others := List.replicate 14 0
  noNul
  letter := by decide
  parent := by decide
  eighteen := List.length_replicate
  fourteen := List.length_replicate
  cpu := by decide
  three := by decide

def onlyStat (line : StatLine) : ProcFs where
  file := fun path => if path = "/proc/7/stat" then some line.bytes else none
  entries := fun _ => none

def onlySeven : CgroupReader.Files := fun file =>
  if file = "cgroup.procs" then .content (pidsText [7]) else .notFound

theorem processList_fromStat_paren :
    (processList staleManager onlySeven
        (onlyStat (namedLine [97, 41, 32, 82] (by decide))) "/").map V2.ProcessInfo.fromStat =
      expectedRows (fun _ => some (namedLine [97, 41, 32, 82] (by decide))) [7] := by
  refine (processList_fromStat_iff (by decide) rfl ?_).mpr ?_
  · exact List.forall_mem_singleton.mpr rfl
  · rintro _ _ _ ⟨⟩
    exact ⟨by decide, by decide⟩

theorem processList_hides : ¬ ∀ (m : Manager) (name : String) (files : CgroupReader.Files)
    (fs : ProcFs) (pids : List UInt32) (lines : UInt32 → Option StatLine),
    (m.containers.get? name).isSome → files "cgroup.procs" = .content (pidsText pids) →
    (∀ pid ∈ pids,
      fs.file ("/proc/" ++ toString pid.toNat ++ "/stat") = (lines pid).map StatLine.bytes) →
    (processList m files fs name).map V2.ProcessInfo.fromStat = expectedRows lines pids := by
  intro claim
  let line := namedLine [255] (by decide)
  have stat : (onlyStat line).file ("/proc/" ++ toString (7 : UInt32).toNat ++ "/stat") =
      some line.bytes := rfl
  have hidden : processRow (onlyStat line) 7 = none := processRow_hidden stat (by decide)
  have root : (staleManager.containers.get? "/").isSome := by decide
  have listed : onlySeven "cgroup.procs" = .content (pidsText [7]) := rfl
  have rows := claim staleManager "/" onlySeven (onlyStat line) [7] (fun _ => some line) root
    listed (List.forall_mem_singleton.mpr stat)
  rw [processList_pidsText root listed, List.filterMap_cons_none hidden] at rows
  cases rows

end Cadvisor
