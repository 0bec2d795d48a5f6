import Cadvisor.Api.Processes
import Cadvisor.Api.Subtrees
import Cadvisor.Suite.Find

/-!
# Workloads, found over the API

The names and command lines that the loop meets are those of the server's registered
containers and of the processes in their cgroups.  A workload in a container of its own is
found there.
-/

set_option autoImplicit false

namespace Cadvisor

open Serde

namespace Cad

/-! ## The server at the other end -/

/-- The server and the machine that one turn's requests meet, each at its own time. -/
structure Watch where
  listing : Server × Host
  asked : String → Server × Host
  visited : String → Int
  ended : Int

section

variable {percentDecode : String → Option String} {t : ApiText} {w : PayloadText}
  {server : Server} {host : Host}

theorem splitQuery_api {requestType name : String} (plain : '?' ∉ requestType.toList) :
    splitQuery ("/api/v2.0/" ++ requestType ++ enc name) =
      ("/api/" ++ ("v2.0" ++ "/" ++ (requestType ++ enc name)), none) := by
  have url : "/api/v2.0/" ++ requestType ++ enc name =
      "/api/" ++ ("v2.0" ++ "/" ++ (requestType ++ enc name)) := by
    apply String.toList_injective
    simp
  rw [url]
  apply splitQuery_none
  simp only [String.toList_append, List.mem_append, not_or]
  exact ⟨by decide, ⟨by decide, by decide⟩, plain, question_notMem_enc name⟩

theorem ps_served (decodes : Decodes percentDecode) (parse : String → Option Value)
    {name : String} (named : WellNamed name) :
    ps parse (serve percentDecode t w server host) name =
      .ok ((processList server.manager host.files host.proc name).map
        (V2.ProcessInfo.wire w).codec.enc) := by
  have url : "/api/v2.0/ps" ++ enc name = "/api/v2.0/" ++ "ps" ++ enc name := rfl
  have answered : serve percentDecode t w server host ("/api/v2.0/ps" ++ enc name) =
      (Cadvisor.json (.processes
        (processList server.manager host.files host.proc name))).resp w := by
    rw [url, serve_path decodes (by decide) (splitQuery_api (by decide))]
    unfold dispatch
    rw [route_named named (by decide)]
    rfl
  have written : Payload.enc w (.processes
      (processList server.manager host.files host.proc name)) =
        some (.arr ((processList server.manager host.files host.proc name).map
          (V2.ProcessInfo.wire w).codec.enc)) := rfl
  rw [ps, json_of_answer written answered]
  rfl

theorem command_enc (row : V2.ProcessInfo) :
    command ((V2.ProcessInfo.wire w).codec.enc row) = row.cmd := by
  have found : index ((V2.ProcessInfo.wire w).codec.enc row) "cmd" = str.enc row.cmd := by
    apply index_obj
    unfold V2.ProcessInfo.wire
    iterate 11 rw [Fields.lastValue_there (by decide)]
    exact Fields.lastValue_here (by decide) rfl
  rw [command, found]
  exact SerdeStr.text_written row.cmd

theorem options_recursive (t : ApiText) :
    V2.RequestOptions.parse t (Params.parse (some "recursive=true")) =
      .ok { idType := V2.typeName, count := 64, recursive := true } := by
  have params : Params.parse (some "recursive=true") = ⟨[("recursive", "true")]⟩ := by
    have pairs : (Params.parse (some "recursive=true")).pairs = [("recursive", "true")] := by
      decide +kernel
    exact congrArg Params.mk pairs
  rw [params]
  rfl

theorem names_answer (decodes : Decodes percentDecode) :
    serve percentDecode t w server host "/api/v2.0/spec/?recursive=true" =
      (found (V2.resolve server.manager "/"
          { idType := V2.typeName, count := 64, recursive := true })
        (fun handles => .spec (byName handles V2.v2Spec))
          (resolveFailure t "spec" "/")).resp w := by
  have root : WellNamed "/" := ⟨[], List.forall_mem_nil _, rfl⟩
  have slash : enc "/" = "/" := by decide +kernel
  have noQuestion : '?' ∉ ("/api/" ++ ("v2.0" ++ "/" ++ ("spec" ++ enc "/"))).toList := by
    rw [slash]
    decide
  have url : "/api/v2.0/spec/?recursive=true" =
      ("/api/" ++ ("v2.0" ++ "/" ++ ("spec" ++ enc "/"))) ++ "?" ++ "recursive=true" := by
    rw [slash]
    rfl
  rw [url, serve_path decodes (by decide) (splitQuery_some noQuestion _)]
  unfold dispatch
  rw [route_named root (by decide)]
  dsimp only
  rw [if_neg (by decide), if_pos (by decide), if_neg (by decide), if_neg (by decide)]
  unfold handleV2
  rw [options_recursive]
  rfl

theorem names_served (decodes : Decodes percentDecode) (parse : String → Option Value)
    (named : server.manager.WellNamed) (name : String) :
    (∃ listed, names parse (serve percentDecode t w server host) = .ok listed ∧ name ∈ listed) ↔
      "/" ∈ server.manager.containers.names ∧ name ∈ server.manager.containers.names := by
  have answer := @names_answer _ t w server host decodes
  by_cases registered : "/" ∈ server.manager.containers.names
  · rw [and_iff_right registered]
    obtain ⟨handles, resolved, selected⟩ := @resolve_recursive _ named _ registered
      { idType := V2.typeName, count := 64, recursive := true } rfl rfl
    rw [resolved] at answer
    have written : Payload.enc w (.spec (byName handles V2.v2Spec)) =
        some (.obj ((byName handles V2.v2Spec).toList.map fun entry =>
          (entry.1, (V2.ContainerSpec.wire w.toWireText).codec.enc entry.2))) := rfl
    have keys : asKeys (.obj ((byName handles V2.v2Spec).toList.map fun entry =>
        (entry.1, (V2.ContainerSpec.wire w.toWireText).codec.enc entry.2))) =
          some (byName handles V2.v2Spec).keys := by
      rw [asKeys, List.map_map]
      rfl
    have read : names parse (serve percentDecode t w server host) =
        .ok (byName handles V2.v2Spec).keys := by
      rw [names, json_of_answer written answer]
      dsimp only
      rw [keys]
    have members : name ∈ (byName handles V2.v2Spec).keys ↔
        name ∈ server.manager.containers.names := by
      have root : componentsOf "/" = [] := by decide +kernel
      rw [byName, SortedMap.mem_keys_ofList, List.map_map]
      change name ∈ handles.map ContainerHandle.name ↔ _
      rw [selected, Manager.mem_subtree, root, and_iff_left (List.nil_prefix)]
    rw [read]
    simp [members]
  · have missing : server.manager.handle "/" = none := by
      rw [← Option.not_isSome_iff_eq_none]
      exact fun known => registered ((server.manager.containers.get?_isSome "/").mp known)
    have refused : V2.resolve server.manager "/"
        { idType := V2.typeName, count := 64, recursive := true } =
          .error (.unknownContainer "/") := by
      rw [V2.resolve, if_neg (not_not.mpr rfl), missing]
    rw [refused] at answer
    have failed : ∃ e, names parse (serve percentDecode t w server host) = .error e := by
      unfold names json
      rw [answer]
      exact ⟨_, rfl⟩
    obtain ⟨e, failed⟩ := failed
    rw [failed]
    simp [registered]

end

namespace Watch

def turn (percentDecode : String → Option String) (t : ApiText) (w : PayloadText) (s : Watch) :
    Turn where
  listing := serve percentDecode t w s.listing.1 s.listing.2
  asked name := serve percentDecode t w (s.asked name).1 (s.asked name).2
  visited := s.visited
  ended := s.ended

/-- The listing is of what is under the root. -/
def Registered (s : Watch) (name : String) : Prop :=
  "/" ∈ s.listing.1.manager.containers.names ∧ name ∈ s.listing.1.manager.containers.names

def Runs (s : Watch) (name marker : String) : Prop :=
  ∃ row ∈ processList (s.asked name).1.manager (s.asked name).2.files (s.asked name).2.proc name,
    carries row.cmd marker = true

section

variable {percentDecode : String → Option String} {t : ApiText} {w : PayloadText} {s : Watch}

theorem lists_iff (decodes : Decodes percentDecode) (parse : String → Option Value)
    (named : s.listing.1.manager.WellNamed) (name : String) :
    (s.turn percentDecode t w).Lists parse name ↔ s.Registered name :=
  names_served decodes parse named name

theorem shows_iff (decodes : Decodes percentDecode) (parse : String → Option Value)
    {name : String} (named : WellNamed name) (marker : String) :
    (s.turn percentDecode t w).Shows parse name marker ↔ s.Runs name marker := by
  have served := @ps_served _ t w (s.asked name).1 (s.asked name).2 decodes parse _ named
  constructor
  · rintro ⟨procs, isOk, p, member, carried⟩
    cases served.symm.trans isOk
    obtain ⟨row, inList, rfl⟩ := List.mem_map.mp member
    rw [command_enc] at carried
    exact ⟨row, inList, carried⟩
  · rintro ⟨row, inList, carried⟩
    refine ⟨_, served, _, List.mem_map_of_mem inList, ?_⟩
    rw [command_enc]
    exact carried

end

end Watch

section

variable {percentDecode : String → Option String} {t : ApiText} {w : PayloadText}

/-- What is found is a matching of markers and new containers that was seen; it has all the
markers, or at the deadline no new container was left with one of the others. -/
theorem find_served (decodes : Decodes percentDecode) (parse : String → Option Value)
    {watches : List Watch}
    (requestable : ∀ s ∈ watches, ∀ k ∈ s.listing.1.manager.containers.names, Requestable k)
    (markers before : List String) (deadline : Int) :
    ((∃ s ∈ watches, deadline ≤ s.ended) →
        (find parse markers before deadline
          (watches.map (Watch.turn percentDecode t w))).isSome = true) ∧
      ∀ found, find parse markers before deadline
          (watches.map (Watch.turn percentDecode t w)) = some found →
        (found.map Found.marker).Nodup ∧ (found.map Found.name).Nodup ∧
          (∀ f ∈ found, f.marker ∈ markers ∧ f.name ∉ before ∧ ∃ s ∈ watches,
            s.Registered f.name ∧ s.Runs f.name f.marker ∧ f.instant = s.visited f.name) ∧
          ((∀ m ∈ markers, m ∈ found.map Found.marker) ∨ ∃ last ∈ watches,
            deadline ≤ last.ended ∧ ∀ name, last.Registered name → name ∉ before →
              name ∈ found.map Found.name ∨
                ∀ m ∈ markers, m ∉ found.map Found.marker → ¬ last.Runs name m) := by
  have wellNamed : ∀ s ∈ watches, s.listing.1.manager.WellNamed :=
    fun s member k inNames => (requestable s member k inNames).1
  constructor
  · rintro ⟨s, member, late⟩
    exact findFrom_isSome ⟨_, List.mem_map_of_mem member, late⟩ []
  · intro found returns
    have start : Matched parse markers before [] [] :=
      ⟨List.nodup_nil, List.nodup_nil, List.forall_mem_nil _⟩
    obtain ⟨matched, ends⟩ := findFrom_returns start returns
    rw [List.nil_append] at matched
    refine ⟨matched.markersOnce, matched.namesOnce, fun f inFound => ?_, ?_⟩
    · obtain ⟨isMarker, new, turn, isTurn, lists, shows', instant⟩ := matched.shown f inFound
      obtain ⟨s, member, rfl⟩ := List.mem_map.mp isTurn
      have registered := (Watch.lists_iff decodes parse (wellNamed s member) _).mp lists
      have named := wellNamed s member _ registered.2
      exact ⟨isMarker, new, s, member, registered,
        (Watch.shows_iff decodes parse named _).mp shows', instant⟩
    · refine ends.imp (fun full => matched.full full) ?_
      rintro ⟨turn, isTurn, late, spent⟩
      obtain ⟨last, member, rfl⟩ := List.mem_map.mp isTurn
      refine ⟨last, member, late, fun name registered new => ?_⟩
      have lists : (last.turn percentDecode t w).Lists parse name :=
        (Watch.lists_iff decodes parse (wellNamed last member) name).mpr registered
      have named := wellNamed last member _ registered.2
      refine (spent name lists new).imp_right fun bare m isMarker open' runs => ?_
      exact bare m isMarker open' ((Watch.shows_iff decodes parse named m).mpr runs)

end

/-! ## The processes themselves -/

theorem carries_iff {cmd marker : String} :
    carries cmd marker = true ↔ marker ∈ Str.splitWhitespace cmd := by
  simp [carries]

/-- `/proc/<pid>/cmdline`: every argument with a NUL behind it. -/
def argvText (args : List String) : String :=
  String.ofList (args.flatMap fun arg => arg.toList ++ [Char.ofNat 0])

/-- What is listed of a command line. -/
def commandText (args : List String) : String :=
  Str.trim (String.ofList ((argvText args).toList.map fun c => if c = Char.ofNat 0 then ' ' else c))

theorem carries_commandText {args : List String}
    (noNul : ∀ arg ∈ args, Char.ofNat 0 ∉ arg.toList) (marker : String) :
    carries (commandText args) marker = true ↔ ∃ arg ∈ args, marker ∈ Str.splitWhitespace arg := by
  have spaces : ((argvText args).toList.map fun c => if c = Char.ofNat 0 then ' ' else c) =
      (args.map String.toList).flatMap fun text => text ++ [' '] := by
    rw [argvText, String.toList_ofList, List.map_flatMap, List.flatMap_map]
    refine List.flatMap_congr fun arg member => ?_
    have kept : (arg.toList.map fun c => if c = Char.ofNat 0 then ' ' else c) = arg.toList := by
      conv_rhs => rw [← List.map_id arg.toList]
      refine List.map_congr_left fun c inArg => ?_
      exact if_neg fun isNul : c = Char.ofNat 0 => noNul arg member (isNul ▸ inArg)
    rw [List.map_append, kept]
    rfl
  rw [carries_iff, commandText, Str.splitWhitespace_trim, Str.splitWhitespace_eq,
    String.toList_ofList, spaces, Str.words_flatMap (by decide), List.flatMap_map,
    List.map_flatMap, List.mem_flatMap]
  rfl

theorem processRow_cmd {fs : ProcFs} {pid : UInt32} {row : V2.ProcessInfo}
    (isRow : processRow fs pid = some row) :
    row.cmd = Str.trim (String.ofList
      (((fs.readToString ("/proc/" ++ toString pid.toNat ++ "/cmdline")).getD "").toList.map
        fun c => if c = Char.ofNat 0 then ' ' else c)) := by
  unfold processRow at isRow
  dsimp only at isRow
  split at isRow
  · cases isRow
  · split_ifs at isRow
    cases isRow
    rfl

/-- The processes in a container's cgroup, with their arguments. -/
structure Watch.Holds (s : Watch) (name : String) (procs : List (UInt32 × List String)) :
    Prop where
  known : name ∈ (s.asked name).1.manager.containers.names
  listed : (s.asked name).2.files "cgroup.procs" = .content (pidsText (procs.map Prod.fst))
  stat : ∀ p ∈ procs, ∃ line : StatLine, (Str.fromUtf8 line.comm).isSome = true ∧
    (s.asked name).2.proc.file ("/proc/" ++ toString p.1.toNat ++ "/stat") = some line.bytes
  cmdline : ∀ p ∈ procs,
    (s.asked name).2.proc.file ("/proc/" ++ toString p.1.toNat ++ "/cmdline") =
      some (Str.utf8Bytes (argvText p.2))
  noNul : ∀ p ∈ procs, ∀ arg ∈ p.2, Char.ofNat 0 ∉ arg.toList

/-- What is listed for a container are command lines like this, if anything is. -/
def Watch.ListsOnly (s : Watch) (name : String) (like : List String → Prop) : Prop :=
  ∀ row ∈ processList (s.asked name).1.manager (s.asked name).2.files (s.asked name).2.proc name,
    ∃ args, (∀ arg ∈ args, Char.ofNat 0 ∉ arg.toList) ∧ row.cmd = commandText args ∧ like args

namespace Watch.Holds

variable {s : Watch} {name : String} {procs : List (UInt32 × List String)}

theorem rows (holds : s.Holds name procs) :
    processList (s.asked name).1.manager (s.asked name).2.files (s.asked name).2.proc name =
      (procs.map Prod.fst).filterMap (processRow (s.asked name).2.proc) :=
  processList_pidsText (((s.asked name).1.manager.containers.get?_isSome name).mpr holds.known)
    holds.listed (s.asked name).2.proc

theorem cmd_eq (holds : s.Holds name procs) {p : UInt32 × List String} (member : p ∈ procs)
    {row : V2.ProcessInfo} (isRow : processRow (s.asked name).2.proc p.1 = some row) :
    row.cmd = commandText p.2 := by
  have read : (s.asked name).2.proc.readToString
      ("/proc/" ++ toString p.1.toNat ++ "/cmdline") = some (argvText p.2) := by
    rw [ProcFs.readToString, holds.cmdline p member, Option.bind_some]
    exact (Str.fromUtf8_eq_some_iff _ _).mpr rfl
  rw [processRow_cmd isRow, read, Option.getD_some, commandText]

theorem listsOnly (holds : s.Holds name procs) {like : List String → Prop}
    (all : ∀ p ∈ procs, like p.2) : s.ListsOnly name like := by
  intro row inRows
  rw [holds.rows] at inRows
  obtain ⟨pid, inPids, isRow⟩ := List.mem_filterMap.mp inRows
  obtain ⟨p, member, rfl⟩ := List.mem_map.mp inPids
  exact ⟨p.2, holds.noNul p member, holds.cmd_eq member isRow, all p member⟩

theorem runs (holds : s.Holds name procs) {p : UInt32 × List String} (member : p ∈ procs)
    {marker : String} (carried : ∃ arg ∈ p.2, marker ∈ Str.splitWhitespace arg) :
    s.Runs name marker := by
  obtain ⟨line, isText, stat⟩ := holds.stat p member
  obtain ⟨text, isText⟩ := Option.isSome_iff_exists.mp isText
  have fromStat := processRow_fromStat stat
  rw [isText, Option.map_some] at fromStat
  obtain ⟨row, isRow, _⟩ := Option.map_eq_some_iff.mp fromStat
  refine ⟨row, ?_, ?_⟩
  · rw [holds.rows]
    exact List.mem_filterMap.mpr ⟨p.1, List.mem_map_of_mem member, isRow⟩
  · rw [holds.cmd_eq member isRow]
    exact (carries_commandText (holds.noNul p member) marker).mpr carried

end Watch.Holds

section

variable {percentDecode : String → Option String} {t : ApiText} {w : PayloadText}

section

variable {watches : List Watch} {markers before : List String} {deadline : Int}
  {home : String → String} {found : List Found}

theorem found_at_home (decodes : Decodes percentDecode) (parse : String → Option Value)
    (requestable : ∀ s ∈ watches, ∀ k ∈ s.listing.1.manager.containers.names, Requestable k)
    (own : ∀ s ∈ watches, ∀ name, s.Registered name → name ∉ before →
      s.ListsOnly name fun args => ∀ arg ∈ args, ∀ m ∈ markers,
        m ∈ Str.splitWhitespace arg → home m = name)
    (matched : Matched parse markers before
      (watches.map (Watch.turn percentDecode t w)) found) :
    ∀ f ∈ found, f.marker ∈ markers ∧ f.name = home f.marker := by
  intro f inFound
  obtain ⟨isMarker, new, turn, isTurn, lists, shows', _⟩ := matched.shown f inFound
  obtain ⟨s, member, rfl⟩ := List.mem_map.mp isTurn
  have wellNamed : s.listing.1.manager.WellNamed := fun k inNames =>
    (requestable s member k inNames).1
  have registered := (Watch.lists_iff decodes parse wellNamed _).mp lists
  obtain ⟨row, inRows, carried⟩ :=
    (Watch.shows_iff decodes parse (wellNamed _ registered.2) _).mp shows'
  obtain ⟨args, noNul, isCommand, only⟩ := own s member f.name registered new row inRows
  rw [isCommand, carries_commandText noNul] at carried
  obtain ⟨arg, inArgs, isWord⟩ := carried
  exact ⟨isMarker, (only arg inArgs f.marker isMarker isWord).symm⟩

theorem found_all (decodes : Decodes percentDecode) (parse : String → Option Value)
    (requestable : ∀ s ∈ watches, ∀ k ∈ s.listing.1.manager.containers.names, Requestable k)
    (apart : ∀ m ∈ markers, ∀ m' ∈ markers, home m = home m' → m = m')
    (running : ∀ s ∈ watches, deadline ≤ s.ended → ∀ m ∈ markers,
      s.Registered (home m) ∧ home m ∉ before ∧
        ∃ procs, s.Holds (home m) procs ∧ ∃ p ∈ procs, ∃ arg ∈ p.2, m ∈ Str.splitWhitespace arg)
    (matched : Matched parse markers before
      (watches.map (Watch.turn percentDecode t w)) found)
    (atHome : ∀ f ∈ found, f.marker ∈ markers ∧ f.name = home f.marker)
    (ends : found.length = markers.length ∨
      ∃ last ∈ watches.map (Watch.turn percentDecode t w), deadline ≤ last.ended ∧
        ∀ name, last.Lists parse name → name ∉ before → Spent parse markers last found name) :
    ∀ m ∈ markers, m ∈ found.map Found.marker := by
  rcases ends with full | ⟨turn, isTurn, late, spent⟩
  · exact matched.full full
  intro m isMarker
  obtain ⟨last, member, rfl⟩ := List.mem_map.mp isTurn
  have wellNamed : last.listing.1.manager.WellNamed := fun k inNames =>
    (requestable last member k inNames).1
  obtain ⟨registered, new, procs, holds, p, inProcs, carried⟩ :=
    running last member late m isMarker
  have lists : (last.turn percentDecode t w).Lists parse (home m) :=
    (Watch.lists_iff decodes parse wellNamed _).mpr registered
  have runs := holds.runs inProcs carried
  have shows' : (last.turn percentDecode t w).Shows parse (home m) m :=
    (Watch.shows_iff decodes parse (wellNamed _ registered.2) m).mpr runs
  rcases spent _ lists new with claimed | bare
  · -- The container can only have been claimed for the marker at home there.
    obtain ⟨f, inFound, isHome⟩ := List.mem_map.mp claimed
    obtain ⟨fMarker, fHome⟩ := atHome f inFound
    rw [apart m isMarker f.marker fMarker (isHome.symm.trans fHome)]
    exact List.mem_map_of_mem inFound
  · by_contra open'
    exact bare m isMarker open' shows'

end

/-- Workloads that run in containers of their own, each with its marker as an argument, are
found where they run. -/
theorem find_workloads (decodes : Decodes percentDecode) (parse : String → Option Value)
    {watches : List Watch}
    (requestable : ∀ s ∈ watches, ∀ k ∈ s.listing.1.manager.containers.names, Requestable k)
    {markers before : List String} {deadline : Int} {home : String → String}
    (apart : ∀ m ∈ markers, ∀ m' ∈ markers, home m = home m' → m = m')
    (own : ∀ s ∈ watches, ∀ name, s.Registered name → name ∉ before →
      s.ListsOnly name fun args => ∀ arg ∈ args, ∀ m ∈ markers,
        m ∈ Str.splitWhitespace arg → home m = name)
    (running : ∀ s ∈ watches, deadline ≤ s.ended → ∀ m ∈ markers,
      s.Registered (home m) ∧ home m ∉ before ∧
        ∃ procs, s.Holds (home m) procs ∧ ∃ p ∈ procs, ∃ arg ∈ p.2, m ∈ Str.splitWhitespace arg) :
    ((∃ s ∈ watches, deadline ≤ s.ended) →
        (find parse markers before deadline
          (watches.map (Watch.turn percentDecode t w))).isSome = true) ∧
      ∀ found, find parse markers before deadline
          (watches.map (Watch.turn percentDecode t w)) = some found →
        ∀ m name, (∃ f ∈ found, f.marker = m ∧ f.name = name) ↔ m ∈ markers ∧ name = home m := by
  constructor
  · rintro ⟨s, member, late⟩
    exact findFrom_isSome ⟨_, List.mem_map_of_mem member, late⟩ []
  intro found returns m name
  have start : Matched parse markers before [] [] :=
    ⟨List.nodup_nil, List.nodup_nil, List.forall_mem_nil _⟩
  obtain ⟨matched, ends⟩ := findFrom_returns start returns
  rw [List.nil_append] at matched
  have atHome := found_at_home decodes parse requestable own matched
  have all := found_all decodes parse requestable apart running matched atHome ends
  constructor
  · rintro ⟨f, inFound, rfl, rfl⟩
    exact atHome f inFound
  · rintro ⟨isMarker, rfl⟩
    obtain ⟨f, inFound, rfl⟩ := List.mem_map.mp (all m isMarker)
    exact ⟨f, inFound, rfl, (atHome f inFound).2⟩

end

/-! ## Two workloads in two turns -/

theorem earlier_nodup :
    (siblings.containers.handles.dropLast.map ContainerHandle.name).Nodup := by
  decide

/-- The server before `/a/b` is registered. -/
def earlierSiblings : Manager :=
  { siblings with containers := ⟨siblings.containers.handles.dropLast, earlier_nodup⟩ }

theorem stat_noNul : (0 : UInt8) ∉ [115] := by decide

def lineOfSeven : StatLine := namedLine [115] stat_noNul

def lineOfEight : StatLine := { lineOfSeven with pid := 8 }

def twoProcs (first second : List String) : ProcFs where
  file path :=
    if path = "/proc/7/stat" then some lineOfSeven.bytes
    else if path = "/proc/8/stat" then some lineOfEight.bytes
    else if path = "/proc/7/cmdline" then some (Str.utf8Bytes (argvText first))
    else if path = "/proc/8/cmdline" then some (Str.utf8Bytes (argvText second))
    else none
  entries _ := none

/-- Process 7 runs in `/a`, process 8 in `/a/b`. -/
def pidsIn (name : String) : List UInt32 :=
  if name = "/a" then [7] else if name = "/a/b" then [8] else []

def twoWatch (first second : List String) (manager : Manager) (ended : Int) : Watch where
  listing := ({ rootServer [] with manager }, rootHost)
  asked name := ({ rootServer [] with manager := siblings },
    { rootHost with
      files := fun file =>
        if file = "cgroup.procs" then .content (pidsText (pidsIn name)) else .notFound
      proc := twoProcs first second })
  visited _ := ended
  ended

/-- `/a/b` is there in the second turn only. -/
def twoWatches (first second : List String) : List Watch :=
  [twoWatch first second earlierSiblings 1, twoWatch first second siblings 2]

section

variable {first second : List String} {manager : Manager} {ended : Int}

theorem siblings_known :
    "/a" ∈ siblings.containers.names ∧ "/a/b" ∈ siblings.containers.names := by
  decide

theorem twoProcs_stat (first second : List String) :
    (twoProcs first second).file ("/proc/" ++ toString (7 : UInt32).toNat ++ "/stat") =
        some lineOfSeven.bytes ∧
      (twoProcs first second).file ("/proc/" ++ toString (8 : UInt32).toNat ++ "/stat") =
        some lineOfEight.bytes := by
  have seven : "/proc/" ++ toString (7 : UInt32).toNat ++ "/stat" = "/proc/7/stat" := rfl
  have eight : "/proc/" ++ toString (8 : UInt32).toNat ++ "/stat" = "/proc/8/stat" := rfl
  rw [seven, eight]
  simp [twoProcs]

theorem twoProcs_cmdline (first second : List String) :
    (twoProcs first second).file ("/proc/" ++ toString (7 : UInt32).toNat ++ "/cmdline") =
        some (Str.utf8Bytes (argvText first)) ∧
      (twoProcs first second).file ("/proc/" ++ toString (8 : UInt32).toNat ++ "/cmdline") =
        some (Str.utf8Bytes (argvText second)) := by
  have seven : "/proc/" ++ toString (7 : UInt32).toNat ++ "/cmdline" = "/proc/7/cmdline" := rfl
  have eight : "/proc/" ++ toString (8 : UInt32).toNat ++ "/cmdline" = "/proc/8/cmdline" := rfl
  rw [seven, eight]
  simp [twoProcs]

theorem lines_comm : (Str.fromUtf8 lineOfSeven.comm).isSome = true ∧
    (Str.fromUtf8 lineOfEight.comm).isSome = true := by
  decide

theorem twoWatch_holds_first (noNul : ∀ arg ∈ first, Char.ofNat 0 ∉ arg.toList) :
    (twoWatch first second manager ended).Holds "/a" [(7, first)] where
  known := siblings_known.1
  listed := rfl
  stat := List.forall_mem_singleton.mpr
    ⟨lineOfSeven, lines_comm.1, (twoProcs_stat first second).1⟩
  cmdline := List.forall_mem_singleton.mpr (twoProcs_cmdline first second).1
  noNul := List.forall_mem_singleton.mpr noNul

theorem twoWatch_holds_second (noNul : ∀ arg ∈ second, Char.ofNat 0 ∉ arg.toList) :
    (twoWatch first second manager ended).Holds "/a/b" [(8, second)] where
  known := siblings_known.2
  listed := rfl
  stat := List.forall_mem_singleton.mpr
    ⟨lineOfEight, lines_comm.2, (twoProcs_stat first second).2⟩
  cmdline := List.forall_mem_singleton.mpr (twoProcs_cmdline first second).2
  noNul := List.forall_mem_singleton.mpr noNul

theorem requestable_siblings : ∀ k ∈ siblings.containers.names, Requestable k := by
  intro k member
  have listed : k ∈ ["/", "/a", "/ab", "/a/b"] := member
  simp only [List.mem_cons, List.not_mem_nil, or_false] at listed
  rcases listed with rfl | rfl | rfl | rfl
  · exact requestable_root
  · exact ⟨⟨["a"], by decide, by decide⟩, by decide +kernel⟩
  · exact ⟨⟨["ab"], by decide, by decide⟩, by decide +kernel⟩
  · exact ⟨⟨["a", "b"], by decide, by decide⟩, by decide +kernel⟩

theorem earlier_names_subset : earlierSiblings.containers.names ⊆ siblings.containers.names :=
  List.map_subset _ (List.dropLast_subset _)

theorem requestable_twoWatches :
    ∀ s ∈ twoWatches first second, ∀ k ∈ s.listing.1.manager.containers.names, Requestable k :=
  List.forall_mem_cons.mpr ⟨fun k member => requestable_siblings k (earlier_names_subset member),
    List.forall_mem_singleton.mpr requestable_siblings⟩

theorem new_in_twoWatches : ∀ s ∈ twoWatches first second, ∀ name, s.Registered name →
    name ∉ ["/", "/ab"] → name = "/a" ∨ name = "/a/b" := by
  have among : ∀ name ∈ siblings.containers.names, name ∉ ["/", "/ab"] →
      name = "/a" ∨ name = "/a/b" := by
    intro name member new
    have listed : name ∈ ["/", "/a", "/ab", "/a/b"] := member
    simp only [List.mem_cons, List.not_mem_nil, or_false] at listed new
    tauto
  exact List.forall_mem_cons.mpr
    ⟨fun name registered => among name (earlier_names_subset registered.2),
      List.forall_mem_singleton.mpr fun name registered => among name registered.2⟩

theorem twoWatches_listsOnly (like : String → List String → Prop)
    (firstNoNul : ∀ arg ∈ first, Char.ofNat 0 ∉ arg.toList)
    (secondNoNul : ∀ arg ∈ second, Char.ofNat 0 ∉ arg.toList) (inFirst : like "/a" first)
    (inSecond : like "/a/b" second) :
    ∀ s ∈ twoWatches first second, ∀ name, s.Registered name → name ∉ ["/", "/ab"] →
      s.ListsOnly name (like name) := by
  intro s member name registered new
  have isWatch : ∃ manager ended, s = twoWatch first second manager ended := by
    rcases List.mem_cons.mp member with rfl | isLast
    · exact ⟨_, _, rfl⟩
    · exact ⟨_, _, List.mem_singleton.mp isLast⟩
  obtain ⟨manager, ended, isWatch⟩ := isWatch
  rcases new_in_twoWatches s member name registered new with rfl | rfl
  · rw [isWatch]
    exact (twoWatch_holds_first firstNoNul).listsOnly (List.forall_mem_singleton.mpr inFirst)
  · rw [isWatch]
    exact (twoWatch_holds_second secondNoNul).listsOnly (List.forall_mem_singleton.mpr inSecond)

end

theorem sleep_noNul : (∀ arg ∈ ["sleep", "m1"], Char.ofNat 0 ∉ arg.toList) ∧
    ∀ arg ∈ ["sleep", "m2"], Char.ofNat 0 ∉ arg.toList := by
  decide

def sleepWatches : List Watch := twoWatches ["sleep", "m1"] ["sleep", "m2"]

theorem sleepWatches_late : ∃ s ∈ sleepWatches, 2 ≤ s.ended :=
  ⟨_, List.mem_cons_of_mem _ (List.mem_singleton_self _), le_rfl⟩

theorem find_served_workload : ∃ found,
    find (fun _ => none) ["m1", "m2"] ["/", "/ab"] 2
        (sleepWatches.map (Watch.turn plainDecode plainText civilText)) = some found ∧
      (found.map Found.marker).Nodup ∧ (found.map Found.name).Nodup := by
  have served := @find_served _ plainText civilText decodes_plainDecode (fun _ => none)
    sleepWatches requestable_twoWatches ["m1", "m2"] ["/", "/ab"] 2
  obtain ⟨found, returns⟩ := Option.isSome_iff_exists.mp (served.1 sleepWatches_late)
  obtain ⟨markersOnce, namesOnce, _⟩ := served.2 found returns
  exact ⟨found, returns, markersOnce, namesOnce⟩

def sleepHome (m : String) : String := if m = "m1" then "/a" else "/a/b"

theorem find_workloads_workload : ∃ found,
    find (fun _ => none) ["m1", "m2"] ["/", "/ab"] 2
        (sleepWatches.map (Watch.turn plainDecode plainText civilText)) = some found ∧
      (∃ f ∈ found, f.marker = "m1" ∧ f.name = "/a") ∧
        ∃ f ∈ found, f.marker = "m2" ∧ f.name = "/a/b" := by
  have all := @find_workloads _ plainText civilText decodes_plainDecode (fun _ => none)
    sleepWatches requestable_twoWatches ["m1", "m2"] ["/", "/ab"] 2 sleepHome (by decide) ?own
    ?running
  · obtain ⟨found, returns⟩ := Option.isSome_iff_exists.mp (all.1 sleepWatches_late)
    have inFound := all.2 found returns
    exact ⟨found, returns, (inFound "m1" "/a").mpr (by decide),
      (inFound "m2" "/a/b").mpr (by decide)⟩
  case own =>
    refine twoWatches_listsOnly (fun name args => ∀ arg ∈ args, ∀ m ∈ ["m1", "m2"],
      m ∈ Str.splitWhitespace arg → sleepHome m = name) sleep_noNul.1 sleep_noNul.2 ?_ ?_
    · decide +kernel
    · decide +kernel
  case running =>
    refine List.forall_mem_cons.mpr ⟨fun late => absurd late (by decide),
      List.forall_mem_singleton.mpr fun _ => ?_⟩
    refine List.forall_mem_cons.mpr ⟨?_, List.forall_mem_singleton.mpr ?_⟩
    · exact ⟨⟨by decide, by decide⟩, by decide, _, twoWatch_holds_first sleep_noNul.1, _,
        List.mem_singleton_self _, "m1", by decide, by decide +kernel⟩
    · exact ⟨⟨by decide, by decide⟩, by decide, _, twoWatch_holds_second sleep_noNul.2, _,
        List.mem_singleton_self _, "m2", by decide, by decide +kernel⟩

end Cad

end Cadvisor
