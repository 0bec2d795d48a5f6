import Cadvisor.Api.Dispatch
import Cadvisor.Api.RoundTrip
import Cadvisor.Model.Rfc3339

/-!
# The suite's client

The suite reads answers without their types: it looks fields up by name, and leaves out
what does not have them.  What it sees of a container's samples is what is stored, in the
units of the store.
-/

set_option autoImplicit false

namespace Cadvisor

open Serde

namespace Cad

abbrev Value : Type := Json SerdeStr Float

/-- Of several entries under a key the last counts. -/
def get (v : Value) (key : String) : Option Value :=
  match v with
  | .obj entries => SortedMap.lastValue key entries
  | _ => none

def index (v : Value) (key : String) : Value := (get v key).getD .null

def asStr : Value → Option String
  | .str s => some s.text
  | _ => none

def asU64 : Value → Option UInt64
  | .int n => if 0 ≤ n ∧ n < 2 ^ 64 then some (UInt64.ofNat n.toNat) else none
  | _ => none

def asArray : Value → Option (List Value)
  | .arr items => some items
  | _ => none

def asKeys : Value → Option (List String)
  | .obj entries => some (entries.map Prod.fst)
  | _ => none

/-- JSON that a body's text denotes, or text that may denote some. -/
inductive RespBody where
  | text (text : String)
  | json (v : Value)

structure Resp where
  status : Nat
  contentType : String
  body : RespBody

inductive Failure where
  | request (path : String)
  | status (path : String) (status : Nat) (body : RespBody)
  | contentType (path contentType : String)
  | notJson (path : String)
  | notAnObject
  | notInTheAnswer (name : String)

/-- `none` is a request without an answer. -/
abbrev Fetch : Type := String → Option Resp

section

variable (parse : String → Option Value) (fetch : Fetch)

def json (path : String) : Except Failure Value :=
  match fetch path with
  | none => .error (.request path)
  | some r =>
      if r.status ≠ 200 then .error (.status path r.status r.body)
      else if ¬ Str.startsWith r.contentType "application/json" then
        .error (.contentType path r.contentType)
      else
        match r.body with
        | .json v => .ok v
        | .text text =>
            match parse text with
            | none => .error (.notJson path)
            | some v => .ok v

def names : Except Failure (List String) :=
  match json parse fetch "/api/v2.0/spec/?recursive=true" with
  | .error e => .error e
  | .ok v =>
      match asKeys v with
      | none => .error .notAnObject
      | some found => .ok found

def ps (name : String) : Except Failure (List Value) :=
  match json parse fetch ("/api/v2.0/ps" ++ enc name) with
  | .error e => .error e
  | .ok v => .ok ((asArray v).getD [])

end

structure Stat where
  ts : Int
  cpuTotal : UInt64
  memUsage : UInt64
  workingSet : UInt64
  deriving DecidableEq

namespace Stat

/-- The outer `none` is a panic. -/
def fromJson (v : Value) : Option (Option Stat) :=
  match asStr (index v "timestamp") with
  | none => some none
  | some text =>
      (Gotime.nanos text).map fun ts => ts.bind fun ts =>
        (asU64 (index (index (index v "cpu") "usage") "total")).map fun cpuTotal =>
          { ts, cpuTotal
            memUsage := (asU64 (index (index v "memory") "usage")).getD 0
            workingSet := (asU64 (index (index v "memory") "working_set")).getD 0 }

end Stat

/-- `sort_by_key` on the time. -/
def sortByTime (samples : List Stat) : List Stat :=
  samples.mergeSort fun a b => a.ts ≤ b.ts

/-- Up to `count` samples of one container, oldest first.  `none` is a panic. -/
def stats (parse : String → Option Value) (fetch : Fetch) (name : String) (count : UInt32) :
    Option (Except Failure (List Stat)) :=
  match json parse fetch ("/api/v2.0/stats" ++ enc name ++ "?count=" ++ toString count.toNat) with
  | .error e => some (.error e)
  | .ok v =>
      match (get v name).bind asArray with
      | none => some (.error (.notInTheAnswer name))
      | some arr =>
          (arr.mapM Stat.fromJson).map fun found => .ok (sortByTime found.reduceOption)

end Cad

/-! ## The server at the other end -/

/-- What arrives of an answer.  A stream does not end. -/
def Answer.resp (w : PayloadText) (a : Answer) : Option Cad.Resp :=
  match a.body with
  | .text text => some ⟨a.status, a.contentType, .text text⟩
  | .json p => (p.enc w).map fun j => ⟨a.status, a.contentType, .json j⟩
  | .stream _ => none

def splitQuery (url : String) : String × Option String :=
  match Str.splitOnce url '?' with
  | some (path, query) => (path, some query)
  | none => (url, none)

/-- The answer to what the client gets; `percentDecode` is what the router makes of the
path.  There is none to a path outside the API. -/
def serve (percentDecode : String → Option String) (t : ApiText) (w : PayloadText)
    (server : Server) (host : Host) : Cad.Fetch := fun url =>
  (wildcard (splitQuery url).1).bind fun raw => (percentDecode raw).bind fun rest =>
    (dispatch t server host rest (splitQuery url).2 []).bind (Answer.resp w)

/-! ## From the client's path to the server's route -/

theorem question_notMem_enc (name : String) : '?' ∉ (enc name).toList := by
  have bytes : ∀ n : Fin 256, (0x3F : UInt8) ∉ encByte (UInt8.ofNat n) := by decide +kernel
  rw [enc, String.toList_ofList]
  intro member
  obtain ⟨b, inBytes, isQuestion⟩ := List.mem_map.mp member
  obtain ⟨source, _, inByte⟩ := List.mem_flatMap.mp inBytes
  have notByte := bytes ⟨source.toNat, source.toNat_lt⟩
  rw [UInt8.ofNat_toNat] at notByte
  have bound := b.toNat_lt
  have valid : b.toNat.isValidChar := Or.inl (by omega)
  have code : (Char.ofNat b.toNat).toNat = b.toNat := by
    rw [Char.ofNat, dif_pos valid]
    rfl
  rw [isQuestion] at code
  have isByte : b = 0x3F := UInt8.toNat_inj.mp code.symm
  exact notByte (isByte ▸ inByte)

theorem splitQuery_none {path : String} (plain : '?' ∉ path.toList) :
    splitQuery path = (path, none) := by
  rw [splitQuery, Str.splitOnce, if_neg plain]

theorem splitQuery_some {path : String} (plain : '?' ∉ path.toList) (query : String) :
    splitQuery (path ++ "?" ++ query) = (path, some query) := by
  have parts : Str.splitOnce (path ++ "?" ++ query) '?' = some (path, query) := by
    rw [Str.splitOnce_eq_some_iff]
    refine ⟨?_, plain⟩
    rw [String.toList_append, String.toList_append, List.append_assoc]
    rfl
  rw [splitQuery, parts]

/-- The client's URL names what it asks for: a URL library takes `.` and `..` out of a path,
and no cgroup is called so. -/
def Requestable (name : String) : Prop :=
  WellNamed name ∧ ∀ c ∈ componentsOf name, c ≠ "." ∧ c ≠ ".."

def Decodes (percentDecode : String → Option String) : Prop :=
  ∀ plain encoded, PercentEncodes (Str.utf8Bytes plain) (Str.utf8Bytes encoded) →
    percentDecode encoded = some plain

section

variable {percentDecode : String → Option String} {t : ApiText} {w : PayloadText}
  {server : Server} {host : Host} {requestType name : String}

theorem apiPath_encodes (plain : 0x25 ∉ Str.utf8Bytes requestType) (name : String) :
    PercentEncodes (Str.utf8Bytes ("v2.0" ++ "/" ++ (requestType ++ name)))
      (Str.utf8Bytes ("v2.0" ++ "/" ++ (requestType ++ enc name))) := by
  have concat : ∀ a b : String, Str.utf8Bytes (a ++ b) = Str.utf8Bytes a ++ Str.utf8Bytes b := by
    intro a b
    rw [Str.utf8Bytes, String.toList_append, List.flatMap_append]
    rfl
  simp only [concat]
  apply PercentEncodes.append
  · exact PercentEncodes.self (by decide)
  · exact (PercentEncodes.self plain).append (enc_encodes name)

theorem serve_path (decodes : Decodes percentDecode) (plain : 0x25 ∉ Str.utf8Bytes requestType)
    {url : String} {query : Option String}
    (parts : splitQuery url = ("/api/" ++ ("v2.0" ++ "/" ++ (requestType ++ enc name)), query)) :
    serve percentDecode t w server host url =
      (dispatch t server host ("v2.0" ++ "/" ++ (requestType ++ name)) query []).bind
        (Answer.resp w) := by
  have nonempty : "v2.0" ++ "/" ++ (requestType ++ enc name) ≠ "" := by
    intro empty
    have chars := congrArg String.toList empty
    simp at chars
  rw [serve, parts]
  dsimp only
  rw [wildcard_api nonempty, Option.bind_some, decodes _ _ (apiPath_encodes plain name),
    Option.bind_some]

theorem route_named (named : WellNamed name) (noSlash : '/' ∉ requestType.toList)
    (rawQuery : Option String) :
    Route.parse ("v2.0" ++ "/" ++ (requestType ++ name)) rawQuery =
      ⟨"v2.0", requestType, name, Params.parse rawQuery⟩ := by
  have container := dispatchContainer_eq named (by decide : '/' ∉ "v2.0".toList) noSlash
  have segments : ∃ back, Str.split ("v2.0" ++ "/" ++ (requestType ++ name)) '/' =
      "v2.0" :: requestType :: back := by
    obtain ⟨path, valid, rfl⟩ := named
    obtain ⟨back, starts⟩ : ∃ back, cgroupName path = "/" ++ back := by
      by_cases isRoot : path = []
      · exact ⟨"", by rw [isRoot]; rfl⟩
      · obtain ⟨first, rest, rfl⟩ := List.exists_cons_of_ne_nil isRoot
        refine ⟨String.ofList (first.toList ++ slashed rest), ?_⟩
        apply String.toList_injective
        have slash : "/".toList = ['/'] := rfl
        rw [cgroupName_toList isRoot, String.toList_append, slash, List.singleton_append,
          String.toList_ofList]
        rfl
    refine ⟨Str.split back '/', ?_⟩
    rw [starts, ← @String.append_assoc requestType, split_behind (by decide),
      split_behind noSlash]
  obtain ⟨back, segments⟩ := segments
  unfold dispatchContainer at container
  unfold Route.parse
  dsimp only
  rw [container, segments]
  rfl

end

/-! ## The query -/

theorem UrlEncodes.self {bytes : List UInt8} (noPercent : 0x25 ∉ bytes) (noPlus : 0x2B ∉ bytes) :
    UrlEncodes bytes bytes := by
  induction bytes with
  | nil => exact .done
  | cons b rest ih =>
      rw [List.mem_cons, not_or] at noPercent noPlus
      exact .literal b _ _ (Ne.symm noPercent.1) (Ne.symm noPlus.1) (ih noPercent.2 noPlus.2)

theorem urlDecode_toString (n : Nat) : urlDecode (toString n) = toString n := by
  have digits : ∀ b ∈ Str.utf8Bytes (toString n), 48 ≤ b.toNat := by
    intro b member
    obtain ⟨c, isChar, inBytes⟩ := List.mem_flatMap.mp member
    have digit := Str.digits_of_toString n c isChar
    have range : 48 ≤ c.toNat ∧ c.toNat ≤ 57 := by
      simp [Char.isDigit, UInt32.le_iff_toNat_le] at digit
      exact digit
    rw [Str.utf8EncodeChar_ascii (by omega), List.mem_singleton] at inBytes
    have small : c.toNat < UInt8.size := by
      have size : UInt8.size = 256 := rfl
      omega
    rw [inBytes, UInt8.toNat_ofNat_of_lt' small]
    exact range.1
  apply urlDecode_of_encodes
  apply UrlEncodes.self
  · intro percent
    exact absurd (digits _ percent) (by decide)
  · intro plus
    exact absurd (digits _ plus) (by decide)

theorem params_count (n : Nat) :
    Params.parse (some ("count=" ++ toString n)) = ⟨[("count", toString n)]⟩ := by
  have ampersand : '&' ∉ ("count=" ++ toString n).toList := by
    rw [String.toList_append, List.mem_append, not_or]
    exact ⟨by decide, Str.notMem_toString_nat (by decide) n⟩
  have whole : Str.split ("count=" ++ toString n) '&' = ["count=" ++ toString n] := by
    rw [Str.split, List.splitOn_eq_singleton ampersand, List.map_singleton, String.ofList_toList]
  have parts : Str.splitOnce ("count=" ++ toString n) '=' = some ("count", toString n) := by
    rw [Str.splitOnce_eq_some_iff]
    refine ⟨?_, by decide⟩
    rw [String.toList_append]
    rfl
  have key : urlDecode "count" = "count" := by decide +kernel
  unfold Params.parse
  dsimp only
  rw [whole, List.map_singleton, parts, Option.getD_some, key, urlDecode_toString]

theorem options_count (t : ApiText) (count : UInt32) :
    V2.RequestOptions.parse t ⟨[("count", toString count.toNat)]⟩ =
      .ok { idType := V2.typeName, count := count.toNat, recursive := false } := by
  have small : count.toNat < 2 ^ 63 := by
    have bound := count.toNat_lt
    omega
  have given : Params.get ⟨[("count", toString count.toNat)]⟩ "count" =
      some (toString count.toNat) := rfl
  have noType : Params.get ⟨[("count", toString count.toNat)]⟩ "type" = none := rfl
  have notRecursive : Params.get ⟨[("count", toString count.toNat)]⟩ "recursive" = none := rfl
  unfold V2.RequestOptions.parse
  rw [given, noType, notRecursive]
  dsimp only [Option.getD_none]
  rw [if_neg (by simp), Str.parseSigned_nat, if_pos small]
  rfl

/-! ## A sample, looked up field by field -/

theorem SerdeStr.text_written (s : String) : (SerdeStr.written s).text = s := by
  unfold SerdeStr.written
  split_ifs <;> rfl

namespace Cad

theorem asU64_enc (n : UInt64) : asU64 ((u64 : Codec SerdeStr Float UInt64).enc n) = some n := by
  have bound := n.toNat_lt
  have inRange : (0 : Int) ≤ (n.toNat : Int) ∧ (n.toNat : Int) < 2 ^ 64 := by omega
  unfold asU64 u64 integer
  dsimp only
  rw [if_pos inRange, Int.toNat_natCast, UInt64.ofNat_toNat]

theorem index_obj {entries : List (String × Value)} {key : String} {v : Value}
    (found : SortedMap.lastValue key entries = some v) : index (.obj entries) key = v := by
  rw [index, get, found, Option.getD_some]

section

variable {w : WireText}

theorem index_total (cpu : CpuStats) :
    index (index (CpuStats.wire.codec.enc cpu) "usage") "total" =
      (u64 : Codec SerdeStr Float UInt64).enc cpu.usage.total := by
  have usage : index (CpuStats.wire.codec.enc cpu) "usage" = CpuUsage.wire.codec.enc cpu.usage :=
    index_obj (Fields.lastValue_here (by decide) rfl)
  rw [usage]
  exact index_obj (Fields.lastValue_here (by decide) rfl)

theorem index_usage (m : MemoryStats) :
    index (MemoryStats.wire.codec.enc m) "usage" =
      (u64 : Codec SerdeStr Float UInt64).enc m.usage :=
  index_obj (Fields.lastValue_here (by decide) rfl)

theorem index_workingSet (m : MemoryStats) :
    index (MemoryStats.wire.codec.enc m) "working_set" =
      (u64 : Codec SerdeStr Float UInt64).enc m.workingSet := by
  apply index_obj
  unfold MemoryStats.wire
  iterate 6 rw [Fields.lastValue_there (by decide)]
  exact Fields.lastValue_here (by decide) rfl

theorem index_deprecated (s : V2.DeprecatedContainerStats) :
    index ((V2.DeprecatedContainerStats.wire w).codec.enc s) "timestamp" =
        w.time.enc s.timestamp ∧
      index ((V2.DeprecatedContainerStats.wire w).codec.enc s) "cpu" =
        CpuStats.wire.codec.enc s.cpu ∧
      index ((V2.DeprecatedContainerStats.wire w).codec.enc s) "memory" =
        MemoryStats.wire.codec.enc s.memory := by
  refine ⟨index_obj ?_, index_obj ?_, index_obj ?_⟩
  · exact Fields.lastValue_here (by simp [Fields.keys]) rfl
  · unfold V2.DeprecatedContainerStats.wire
    iterate 2 rw [Fields.lastValue_there (by decide)]
    exact Fields.lastValue_here (by simp [Fields.keys]) rfl
  · unfold V2.DeprecatedContainerStats.wire
    iterate 7 rw [Fields.lastValue_there (by decide)]
    exact Fields.lastValue_here (by simp [Fields.keys]) rfl

end

/-- What the suites judge of a stored sample: nothing of a group that the spec lacks. -/
def Stat.of (spec : ContainerSpec) (s : ContainerStats) : Stat where
  ts := s.timestamp.nanos
  cpuTotal := if spec.hasCpu then s.cpu.usage.total else 0
  memUsage := if spec.hasMemory then s.memory.usage else 0
  workingSet := if spec.hasMemory then s.memory.workingSet else 0

/-- The wire's times are `to_rfc3339_nano`'s. -/
structure PrintsTimes (w : WireText) (format : String → GoTime → String) : Prop where
  civil : GoTime.PrintsCivil format
  nano : w.rfc3339Nano = GoTime.toRfc3339Nano format

theorem fromJson_sample {w : WireText} {format : String → GoTime → String}
    (prints : PrintsTimes w format) (handle : ContainerHandle) (spec : ContainerSpec)
    (previous : Option ContainerStats) {s : ContainerStats}
    (years : s.timestamp ∈ GoTime.fourDigitYears) :
    Stat.fromJson ((V2.DeprecatedContainerStats.wire w).codec.enc
      (V2.deprecatedSample spec (V2.v2Sample handle spec previous s))) =
        some (some (Stat.of spec s)) := by
  obtain ⟨time, cpu, memory⟩ :=
    @index_deprecated w (V2.deprecatedSample spec (V2.v2Sample handle spec previous s))
  have text : asStr (w.time.enc s.timestamp) = some (s.timestamp.toRfc3339Nano format) := by
    rw [← prints.nano]
    exact congrArg some (SerdeStr.text_written _)
  unfold Stat.fromJson
  rw [time, cpu, memory, index_total, index_usage, index_workingSet, asU64_enc, asU64_enc,
    asU64_enc]
  dsimp only [V2.deprecatedSample, V2.v2Sample]
  rw [text]
  dsimp only
  rw [nanos_written prints.civil _ years]
  unfold Stat.of V2.presentIf
  cases spec.hasCpu <;> cases spec.hasMemory <;> rfl

theorem fromJson_samples {w : WireText} {format : String → GoTime → String}
    (prints : PrintsTimes w format) (handle : ContainerHandle) (spec : ContainerSpec)
    (count : Int) (years : ∀ s ∈ V2.storedSamples handle count,
      s.timestamp ∈ GoTime.fourDigitYears) :
    ((V2.deprecatedStats handle spec count).map
        (V2.DeprecatedContainerStats.wire w).codec.enc).mapM Stat.fromJson =
      some ((V2.storedSamples handle count).map fun s => some (Stat.of spec s)) := by
  rw [Traverse.mapM_eq_some_iff, V2.deprecatedStats, V2.v2Stats]
  apply List.ext_getElem
  · simp
  intro i inBounds inSamples
  simp only [List.getElem_map, List.getElem_mapIdx]
  exact fromJson_sample prints handle spec _ (years _ (List.getElem_mem _))

theorem sortByTime_sorted {samples : List ContainerStats}
    (sorted : SortedSeq.SortedBy ContainerStats.timestamp samples) (spec : ContainerSpec) :
    sortByTime (samples.map (Stat.of spec)) = samples.map (Stat.of spec) := by
  apply List.mergeSort_of_pairwise
  exact List.pairwise_map.mpr (sorted.imp fun le => decide_eq_true le)

/-! ## What the client sees of a container's samples -/

section

variable {percentDecode : String → Option String} {t : ApiText} {w : PayloadText}
  {format : String → GoTime → String} {server : Server} {host : Host}

theorem json_of_answer {parse : String → Option Value} {fetch : Fetch} {path : String}
    {p : Payload} {j : Value} (written : p.enc w = some j)
    (answered : fetch path = (Cadvisor.json p).resp w) : json parse fetch path = .ok j := by
  have arrived : fetch path = some ⟨200, "application/json", .json j⟩ := by
    rw [answered, Answer.resp, Cadvisor.json]
    dsimp only
    rw [written, Option.map_some]
  have isJson : Str.startsWith "application/json" "application/json" = true := by
    decide +kernel
  rw [json, arrived]
  dsimp only
  rw [if_neg (not_not.mpr rfl), if_neg (not_not.mpr isJson)]

theorem stats_served (decodes : Decodes percentDecode) (prints : PrintsTimes w.toWireText format)
    (parse : String → Option Value) {name : String} (named : WellNamed name)
    {h : ContainerHandle} (registered : server.manager.handle name = some h)
    (sorted : SortedSeq.SortedBy ContainerStats.timestamp h.store.buf)
    (years : ∀ s ∈ h.store.buf, s.timestamp ∈ GoTime.fourDigitYears) (count : UInt32) :
    stats parse (serve percentDecode t w server host) name count =
      some (.ok ((h.store.buf.rtake count.toNat).map (Stat.of h.spec))) := by
  have sameName : h.name = name := by
    have test := List.find?_some registered
    exact eq_of_beq test
  have url : "/api/v2.0/stats" ++ enc name ++ "?count=" ++ toString count.toNat =
      ("/api/" ++ ("v2.0" ++ "/" ++ ("stats" ++ enc name))) ++ "?" ++
        ("count=" ++ toString count.toNat) := by
    apply String.toList_injective
    simp
  have noQuestion : '?' ∉ ("/api/" ++ ("v2.0" ++ "/" ++ ("stats" ++ enc name))).toList := by
    simp only [String.toList_append, List.mem_append, not_or]
    exact ⟨by decide, ⟨by decide, by decide⟩, by decide, question_notMem_enc name⟩
  have samples : V2.storedSamples h count.toNat = h.store.buf.rtake count.toNat := by
    have zero : GoTime.zero.isZero = true := by simp [GoTime.isZero]
    have all : (h.store.buf.filter fun s =>
        TimedStore.InWindow GoTime.zero GoTime.zero s.timestamp) = h.store.buf := by
      rw [List.filter_eq_self]
      intro s _
      simp [TimedStore.InWindow, zero]
    rw [V2.storedSamples, TimedStore.inRange_eq _ sorted, all, TimedStore.mostRecent,
      if_pos (Int.natCast_nonneg _), Int.toNat_natCast]
  have answered : serve percentDecode t w server host
      ("/api/v2.0/stats" ++ enc name ++ "?count=" ++ toString count.toNat) =
        (Cadvisor.json (.deprecatedStats (byName [h] fun h =>
          V2.deprecatedStats h h.spec count.toNat))).resp w := by
    rw [url, serve_path decodes (by decide) (splitQuery_some noQuestion _)]
    unfold dispatch
    rw [route_named named (by decide), params_count]
    dsimp only
    rw [if_neg (by decide), if_pos (by decide), if_neg (by decide), if_neg (by decide)]
    unfold handleV2
    rw [options_count]
    dsimp only
    rw [if_neg (by decide), if_neg (by decide), if_neg (by decide), if_pos rfl]
    have resolved : V2.resolve server.manager name
        { idType := V2.typeName, count := count.toNat, recursive := false } = .ok [h] := by
      unfold V2.resolve
      rw [if_neg (not_not.mpr rfl), registered]
      rfl
    rw [resolved]
    rfl
  -- The only entry of the answer is the container's, with its samples.
  have written : Payload.enc w (.deprecatedStats (byName [h] fun h =>
      V2.deprecatedStats h h.spec count.toNat)) =
        some (.obj [(h.name, .arr ((V2.deprecatedStats h h.spec count.toNat).map
          (V2.DeprecatedContainerStats.wire w.toWireText).codec.enc))]) := rfl
  have found : get (.obj [(h.name, .arr ((V2.deprecatedStats h h.spec count.toNat).map
      (V2.DeprecatedContainerStats.wire w.toWireText).codec.enc))]) name =
        some (.arr ((V2.deprecatedStats h h.spec count.toNat).map
          (V2.DeprecatedContainerStats.wire w.toWireText).codec.enc)) := by
    rw [get, SortedMap.lastValue, sameName, if_pos rfl]
    rfl
  have inYears : ∀ s ∈ V2.storedSamples h count.toNat, s.timestamp ∈ GoTime.fourDigitYears := by
    rw [samples]
    exact fun s member => years s (List.mem_of_mem_drop member)
  rw [stats, json_of_answer written answered]
  dsimp only
  rw [found, Option.bind_some, asArray]
  dsimp only
  rw [fromJson_samples prints h h.spec count.toNat inYears, Option.map_some, samples]
  have present : ((h.store.buf.rtake count.toNat).map fun s =>
      some (Stat.of h.spec s)).reduceOption =
        (h.store.buf.rtake count.toNat).map (Stat.of h.spec) := by
    change List.filterMap id _ = _
    rw [List.filterMap_map, ← List.filterMap_eq_map]
    rfl
  have sortedRest : SortedSeq.SortedBy ContainerStats.timestamp
      (h.store.buf.rtake count.toNat) := sorted.sublist (List.drop_sublist _ _)
  rw [present, sortByTime_sorted sortedRest]

end

/-! ## From the pushes to the client -/

/-- The samples that are not too old when the newest is taken, by time. -/
def keptSamples (maxAge : StdDuration) (samples : List ContainerStats) : List ContainerStats :=
  (samples.mergeSort fun a b => a.timestamp ≤ b.timestamp).filter fun s =>
    samples.all fun newer => newer.timestamp.nanos - s.timestamp.nanos ≤ maxAge.nanos

theorem keptSamples_sorted (maxAge : StdDuration) (samples : List ContainerStats) :
    SortedSeq.SortedBy ContainerStats.timestamp (keptSamples maxAge samples) := by
  rw [keptSamples, ← SortedSeq.stableSort_eq_mergeSort]
  exact (SortedSeq.stableSort_sorted _ _).filter _

theorem mem_of_mem_keptSamples {maxAge : StdDuration} {samples : List ContainerStats}
    {s : ContainerStats} (member : s ∈ keptSamples maxAge samples) : s ∈ samples :=
  List.mem_mergeSort.mp (List.mem_of_mem_filter member)

theorem buf_of_retains {maxAge : StdDuration} {samples : List ContainerStats} {store : TimedStore}
    (retains : TimedStore.Retains maxAge samples store) :
    store.buf = keptSamples maxAge samples := by
  rcases retains.2 with ⟨none, empty⟩ | ⟨newest, cutoff, top, bound, bufIs⟩
  · rw [none, empty, keptSamples, List.mergeSort_nil, List.filter_nil]
  · rw [bufIs, keptSamples, SortedSeq.stableSort_eq_mergeSort]
    apply List.filter_congr
    intro s _
    have cutoffIs := (GoTime.sub_eq_some_iff _ _ _).mp bound
    rw [Bool.eq_iff_iff, decide_eq_true_iff, List.all_eq_true, GoTime.le_iff]
    simp only [decide_eq_true_iff]
    constructor
    · intro recent newer member
      have below := (GoTime.le_iff _ _).mp (top.2 (List.mem_map_of_mem member))
      omega
    · intro recent
      obtain ⟨last, member, isNewest⟩ := List.mem_map.mp top.1
      have young := recent last member
      rw [isNewest] at young
      omega

section

variable {percentDecode : String → Option String} {t : ApiText} {w : PayloadText}
  {format : String → GoTime → String} {server : Server} {host : Host}

/-- Samples pushed in any order are seen oldest first: the last of those that are not too old
when the newest is taken. -/
theorem stats_of_pushes (decodes : Decodes percentDecode)
    (prints : PrintsTimes w.toWireText format) (parse : String → Option Value) {name : String}
    (named : Requestable name) {h : ContainerHandle}
    (registered : server.manager.handle name = some h) {maxAge : StdDuration}
    {samples : List ContainerStats}
    (fits : ∀ s ∈ samples.head?, s.timestamp.Representable maxAge.nanos)
    (pushed : (TimedStore.new maxAge).pushAll samples = some h.store)
    (years : ∀ s ∈ samples, s.timestamp ∈ GoTime.fourDigitYears) (count : UInt32) :
    stats parse (serve percentDecode t w server host) name count =
      some (.ok (((keptSamples maxAge samples).rtake count.toNat).map (Stat.of h.spec))) := by
  obtain ⟨store, run, retains⟩ := TimedStore.pushAll_retains maxAge samples fits
  cases Option.some.inj (run.symm.trans pushed)
  have bufIs := buf_of_retains retains
  rw [← bufIs]
  refine stats_served decodes prints parse named.1 registered ?_ (fun s member => ?_) count
  · rw [bufIs]
    exact keptSamples_sorted maxAge samples
  · rw [bufIs] at member
    exact years s (mem_of_mem_keptSamples member)

end

theorem requestable_root : Requestable "/" := by
  refine ⟨⟨[], List.forall_mem_nil _, rfl⟩, ?_⟩
  have none : componentsOf "/" = [] := by decide +kernel
  rw [none]
  exact List.forall_mem_nil _

def plainDecode (raw : String) : Option String :=
  Str.fromUtf8 (percentBytes (Str.utf8Bytes raw))

theorem decodes_plainDecode : Decodes plainDecode := by
  intro plain encoded encodes
  rw [plainDecode, percentBytes_of_encodes encodes]
  exact (Str.fromUtf8_eq_some_iff _ _).mpr rfl

def civilText : PayloadText :=
  { zeroPayloadText with rfc3339Nano := GoTime.toRfc3339Nano GoTime.civilFormat }

theorem printsTimes_civilText : PrintsTimes civilText.toWireText GoTime.civilFormat :=
  ⟨GoTime.printsCivil_civilFormat, rfl⟩

theorem years_of_year {t : GoTime} {year : Int}
    (dated : (Calendar.DateTime.ofNanos t.nanos).date.year = year) (nonneg : 0 ≤ year)
    (small : year ≤ 9999) : t ∈ GoTime.fourDigitYears := by
  change (Calendar.DateTime.ofNanos t.nanos).date.year ∈ Set.Icc 0 9999
  rw [dated]
  exact ⟨nonneg, small⟩

def rootHandle (samples : List ContainerStats) : ContainerHandle :=
  (rootServer samples).manager.containers.handles.head (List.cons_ne_nil _ _)

/-- A sample so many seconds into the year 2026. -/
def sampleAt (seconds : Fin (2 ^ 20)) : ContainerStats where
  timestamp := GoTime.sinceEpoch
    ⟨1767225600000000000 + seconds.val * 1000000000, by omega⟩
  cpu := { usage := { total := UInt64.ofNat seconds.val } }

/-- The second comes too late to be kept, the third late. -/
def latePushes : List ContainerStats := [sampleAt 65, sampleAt 0, sampleAt 10, sampleAt 70]

theorem latePushes_years : ∀ s ∈ latePushes, s.timestamp ∈ GoTime.fourDigitYears := by
  have dated : ∀ s ∈ latePushes,
      (Calendar.DateTime.ofNanos s.timestamp.nanos).date.year = 2026 := by
    decide +kernel
  exact fun s member => years_of_year (dated s member) (by decide) (by decide)

/-- The two newest of the three samples that were kept. -/
theorem stats_of_pushes_root :
    stats (fun _ => none)
        (serve plainDecode plainText civilText
          (rootServer [sampleAt 10, sampleAt 65, sampleAt 70]) rootHost) "/" 2 =
      some (.ok [⟨1767225665000000000, 65, 0, 0⟩, ⟨1767225670000000000, 70, 0, 0⟩]) := by
  have registered : (rootServer [sampleAt 10, sampleAt 65, sampleAt 70]).manager.handle "/" =
      some (rootHandle [sampleAt 10, sampleAt 65, sampleAt 70]) := rfl
  have pushed : (TimedStore.new ⟨60 * 1000000000, minute_bounded⟩).pushAll latePushes =
      some (rootHandle [sampleAt 10, sampleAt 65, sampleAt 70]).store := by rfl
  have fits : ∀ s ∈ latePushes.head?, s.timestamp.Representable (60 * 1000000000) := by
    decide +kernel
  obtain ⟨store, run, retains⟩ :=
    TimedStore.pushAll_retains ⟨60 * 1000000000, minute_bounded⟩ latePushes fits
  cases Option.some.inj (run.symm.trans pushed)
  rw [stats_of_pushes decodes_plainDecode printsTimes_civilText (fun _ => none) requestable_root
    registered fits pushed latePushes_years, ← buf_of_retains retains]
  exact congrArg (fun found => some (Except.ok found)) (by decide +kernel)

end Cad

end Cadvisor
