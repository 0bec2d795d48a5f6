import Cadvisor.Api.Endpoints
import Cadvisor.Lib.Fallible

/-!
# Routing a request

The first segment of a path is the version, the second the request type, and the rest
names a container.  What is asked for decides the status: the two listings are answered
by 400, whatever cannot be served by a text and 500, everything else by JSON.
-/

set_option autoImplicit false

namespace Cadvisor

structure Route where
  version : String
  requestType : String
  containerName : String
  params : Params

def Route.parse (rest : String) (rawQuery : Option String) : Route :=
  let segments := Str.split rest '/'
  { version := segments.headD ""
    requestType := (segments.drop 1).headD ""
    containerName := containerNameOf (segments.drop 2)
    params := Params.parse rawQuery }

def v1Versions : List String := ["v1.0", "v1.1", "v1.2", "v1.3"]

def v2Versions : List String := ["v2.0", "v2.1"]

/-- `none` is a panic. -/
def dispatch (t : ApiText) (server : Server) (host : Host) (rest : String)
    (rawQuery : Option String) (body : List UInt8) : Option Answer :=
  let r := Route.parse rest rawQuery
  if r.version ∈ v1Versions then
    some (handleV1 t server r.version r.requestType r.containerName r.params body)
  else if r.version ∈ v2Versions then
    if r.requestType = "events" then
      some (handleEventsAnswer t server r.containerName r.params)
    else if r.requestType = "" then some (plain 400 v2Listing)
    else handleV2 t server host r.version r.requestType r.containerName r.params
  else some (plain 500 ("unsupported API version " ++ t.debug r.version))

def apiRoot : Answer := plain 400 "Supported API versions: v1.0,v1.1,v1.2,v1.3,v2.0,v2.1"

/-! ## Answers -/

/-- A text with its line feed and a failure, or JSON and success. -/
def Answer.WellFormed (a : Answer) : Prop :=
  match a.body with
  | .text text => (a.status = 400 ∨ a.status = 500) ∧ a.contentType = "text/plain; charset=utf-8" ∧
      Str.endsWith text "\n" = true
  | .json _ => a.status = 200 ∧ a.contentType = "application/json"
  | .stream _ => a.status = 200 ∧ a.contentType = "application/json"

/-- The answer is a listing, or refuses, exactly under these conditions. -/
structure Outcome (a : Answer) (listing refused : Prop) : Prop where
  formed : a.WellFormed
  listing : a.status = 400 ↔ listing
  refused : a.status = 500 ↔ refused

theorem Outcome.congr {a : Answer} {listing refused listing' refused' : Prop}
    (outcome : Outcome a listing refused) (sameListing : listing ↔ listing')
    (sameRefused : refused ↔ refused') : Outcome a listing' refused' :=
  ⟨outcome.formed, outcome.listing.trans sameListing, outcome.refused.trans sameRefused⟩

theorem endsWith_newline (text : String) : Str.endsWith (text ++ "\n") "\n" = true := by
  rw [Str.endsWith, List.isSuffixOf_iff_suffix, String.toList_append]
  exact List.suffix_append _ _

theorem outcome_listing (text : String) : Outcome (plain 400 text) True False :=
  ⟨⟨Or.inl rfl, rfl, endsWith_newline text⟩, iff_of_true rfl trivial, by simp [plain]⟩

theorem outcome_refused (text : String) : Outcome (plain 500 text) False True :=
  ⟨⟨Or.inr rfl, rfl, endsWith_newline text⟩, by simp [plain], iff_of_true rfl trivial⟩

theorem outcome_json (payload : Payload) : Outcome (json payload) False False :=
  ⟨⟨rfl, rfl⟩, by simp [json], by simp [json]⟩

theorem outcome_found {α ε : Type} (result : Except ε α) (payload : α → Payload)
    (failure : ε → String) :
    Outcome (found result payload failure) False (∃ e, result = .error e) := by
  cases result with
  | ok value => exact (outcome_json _).congr Iff.rfl (by simp)
  | error e => exact (outcome_refused _).congr Iff.rfl (by simp)

theorem outcome_events (t : ApiText) (server : Server) (containerName : String) (params : Params) :
    Outcome (handleEventsAnswer t server containerName params) False False := by
  unfold handleEventsAnswer
  cases handleEvents t.parseFromRfc3339 server.manager.events containerName params with
  | json events => exact outcome_json _
  | stream q => exact ⟨⟨rfl, rfl⟩, by simp, by simp⟩

/-! ## What is refused -/

def v2Offered : List String :=
  ["attributes", "events", "machine", "ps", "spec", "stats", "storage", "summary", "version",
    "appmetrics"]

def offered : String → List String
  | "v1.0" => ["machine", "containers"]
  | "v1.1" => ["machine", "containers", "subcontainers"]
  | "v1.2" => ["machine", "containers", "subcontainers", "docker"]
  | "v1.3" => ["machine", "containers", "subcontainers", "docker", "events"]
  | "v2.0" => v2Offered
  | "v2.1" => v2Offered ++ ["machinestats"]
  | _ => []

def NoneCalled (m : Manager) (containerName : String) : Prop :=
  Str.trimStartMatches containerName '/' ≠ "" ∧
    ∀ h ∈ m.handles, SelectedBy (Str.trimStartMatches containerName '/') h = false

def V1Missing (m : Manager) (requestType containerName : String) : Prop :=
  (requestType = "containers" ∨ requestType = "subcontainers") ∧
      containerName ∉ m.containers.names ∨
    requestType = "docker" ∧ NoneCalled m containerName

def V2Missing (m : Manager) (requestType containerName : String) (opts : V2.RequestOptions) :
    Prop :=
  requestType ∈ ["stats", "spec", "summary"] ∧
      (if opts.idType = V2.typeName then containerName ∉ m.containers.names
        else NoneCalled m containerName) ∨
    requestType = "machinestats" ∧ "/" ∉ m.containers.names

/-- The request asks for what is not offered, or not there, or in no way there is. -/
inductive Refused (t : ApiText) (m : Manager) (r : Route) : Prop where
  | version (unknown : r.version ∉ v1Versions ++ v2Versions)
  | requestType (given : r.requestType ≠ "") (known : r.version ∈ v1Versions ++ v2Versions)
      (unknown : r.requestType ∉ offered r.version)
  | options (generation : r.version ∈ v2Versions) (isOffered : r.requestType ∈ offered r.version)
      (notEvents : r.requestType ≠ "events") (e : String)
      (bad : V2.RequestOptions.parse t r.params = .error e)
  | v1 (generation : r.version ∈ v1Versions) (isOffered : r.requestType ∈ offered r.version)
      (missing : V1Missing m r.requestType r.containerName)
  | v2 (generation : r.version ∈ v2Versions) (isOffered : r.requestType ∈ offered r.version)
      (opts : V2.RequestOptions) (good : V2.RequestOptions.parse t r.params = .ok opts)
      (missing : V2Missing m r.requestType r.containerName opts)

theorem handle_eq_none_iff (m : Manager) (name : String) :
    m.handle name = none ↔ name ∉ m.containers.names := by
  rw [← m.containers.get?_isSome, Bool.not_eq_true, Option.isSome_eq_false_iff,
    Option.isNone_iff_eq_none]
  rfl

theorem containerInfo_error_iff (m : Manager) (name : String) (req : ContainerInfoRequest) :
    (∃ e, m.containerInfo name req = .error e) ↔ name ∉ m.containers.names := by
  rw [← handle_eq_none_iff, Manager.containerInfo]
  cases m.handle name with
  | none => simp
  | some handle => simp

theorem subcontainersInfo_error_iff (m : Manager) (name : String) (req : ContainerInfoRequest) :
    (∃ e, m.subcontainersInfo name req = .error e) ↔ name ∉ m.containers.names := by
  rw [← handle_eq_none_iff, Manager.subcontainersInfo]
  cases m.handle name with
  | none => simp
  | some handle => simp

theorem filter_selected_eq_nil_iff (m : Manager) (name : String) :
    (m.handles.filter (SelectedBy (Str.trimStartMatches name '/')) = [] ∧
        Str.trimStartMatches name '/' ≠ "") ↔ NoneCalled m name := by
  rw [NoneCalled, List.filter_eq_nil_iff, and_comm]
  simp only [Bool.not_eq_true]

theorem dockerRequest_error_iff (m : Manager) (name : String) (req : ContainerInfoRequest) :
    (∃ e, m.dockerRequest name req = .error e) ↔ NoneCalled m name := by
  rw [← filter_selected_eq_nil_iff]
  unfold Manager.dockerRequest Manager.dockerContainers
  change (∃ e, (if m.handles.filter (SelectedBy (Str.trimStartMatches name '/')) = [] ∧
    Str.trimStartMatches name '/' ≠ "" then _ else _) = Except.error e) ↔ _
  split_ifs with none
  · exact iff_of_true ⟨_, rfl⟩ none
  · exact iff_of_false (by simp) none

theorem resolve_error_iff (m : Manager) (name : String) (opts : V2.RequestOptions) :
    (∃ e, V2.resolve m name opts = .error e) ↔
      if opts.idType = V2.typeName then name ∉ m.containers.names else NoneCalled m name := by
  unfold V2.resolve
  by_cases isName : opts.idType = V2.typeName
  · rw [if_neg (not_not.mpr isName), if_pos isName, ← handle_eq_none_iff]
    cases m.handle name with
    | none => simp
    | some handle => cases opts.recursive <;> simp
  · rw [if_pos isName, if_neg isName, ← filter_selected_eq_nil_iff]
    change (∃ e, (if m.handles.filter (SelectedBy (Str.trimStartMatches name '/')) = [] ∧
      Str.trimStartMatches name '/' ≠ "" then _ else _) = Except.error e) ↔ _
    split_ifs with none
    · exact iff_of_true ⟨_, rfl⟩ none
    · exact iff_of_false (by simp) none

/-! ## The handlers -/

theorem handleV1_outcome (t : ApiText) (server : Server) {version : String}
    (generation : version ∈ v1Versions) (requestType containerName : String) (params : Params)
    (body : List UInt8) :
    Outcome (handleV1 t server version requestType containerName params body) (requestType = "")
      (requestType ≠ "" ∧ (requestType ∉ offered version ∨
        requestType ∈ offered version ∧ V1Missing server.manager requestType containerName)) := by
  have container := outcome_found (server.manager.containerInfo containerName
    (decodeRequest t.toBodyText body))
  have subcontainers := outcome_found (server.manager.subcontainersInfo containerName
    (decodeRequest t.toBodyText body))
  have docker := outcome_found (server.manager.dockerRequest containerName
    (decodeRequest t.toBodyText body))
  simp only [containerInfo_error_iff] at container
  simp only [subcontainersInfo_error_iff] at subcontainers
  simp only [dockerRequest_error_iff] at docker
  simp only [v1Versions, List.mem_cons, List.not_mem_nil, or_false] at generation
  unfold handleV1 V1Missing
  by_cases isEmpty : requestType = ""
  · subst isEmpty
    exact (outcome_listing _).congr (by simp) (by simp)
  by_cases isMachine : requestType = "machine"
  · subst isMachine
    refine (outcome_json _).congr (by simp) ?_
    rcases generation with rfl | rfl | rfl | rfl <;> simp [offered]
  by_cases isContainers : requestType = "containers"
  · subst isContainers
    refine (container _ _).congr (by simp) ?_
    rcases generation with rfl | rfl | rfl | rfl <;> simp [offered]
  by_cases isSubcontainers : requestType = "subcontainers"
  · subst isSubcontainers
    rcases generation with rfl | rfl | rfl | rfl
    · exact (outcome_refused _).congr (by simp) (by simp [offered])
    · exact (subcontainers _ _).congr (by simp) (by simp [offered])
    · exact (subcontainers _ _).congr (by simp) (by simp [offered])
    · exact (subcontainers _ _).congr (by simp) (by simp [offered])
  by_cases isDocker : requestType = "docker"
  · subst isDocker
    rcases generation with rfl | rfl | rfl | rfl
    · exact (outcome_refused _).congr (by simp) (by simp [offered])
    · exact (outcome_refused _).congr (by simp) (by simp [offered])
    · exact (docker _ _).congr (by simp) (by simp [offered])
    · exact (docker _ _).congr (by simp) (by simp [offered])
  by_cases isEvents : requestType = "events"
  · subst isEvents
    rcases generation with rfl | rfl | rfl | rfl
    · exact (outcome_refused _).congr (by simp) (by simp [offered])
    · exact (outcome_refused _).congr (by simp) (by simp [offered])
    · exact (outcome_refused _).congr (by simp) (by simp [offered])
    · exact (outcome_events ..).congr (by simp) (by simp [offered])
  have unknown : requestType ∉ offered version := by
    rcases generation with rfl | rfl | rfl | rfl <;>
      simp [offered, isMachine, isContainers, isSubcontainers, isDocker, isEvents]
  simp only [isEmpty, isMachine, isContainers, isSubcontainers, isDocker, isEvents, and_false,
    if_false]
  exact (outcome_refused _).congr (by simp) (by simp [unknown, isEmpty])

theorem derivedStats_isSome (store : TimedStore) (now : GoTime) :
    (V2.derivedStats store now).isSome = true := by
  unfold V2.derivedStats
  obtain ⟨cpu, cpuIs⟩ := V2.percentilesFrom_isSome
    (V2.cpuRates (store.inRange GoTime.zero GoTime.zero (-1)))
  obtain ⟨memory, memoryIs⟩ := V2.percentilesFrom_isSome
    ((store.inRange GoTime.zero GoTime.zero (-1)).map fun s => s.memory.workingSet)
  simp [cpuIs, memoryIs]

theorem summaries_isSome (host : Host) (handles : List ContainerHandle) :
    ∃ all, summaries host handles = some all := by
  rw [← Option.isSome_iff_exists, summaries, Option.isSome_map, Traverse.isSome_mapM_iff]
  intro h _
  rw [Option.isSome_map]
  exact derivedStats_isSome h.store host.now

def V2Refused (m : Manager) (version resource containerName : String)
    (opts : V2.RequestOptions) : Prop :=
  resource ∉ offered version ∨
    resource ∈ offered version ∧ V2Missing m resource containerName opts

theorem handleV2_served (t : ApiText) (server : Server) (host : Host) {version : String}
    (generation : version ∈ v2Versions) {resource : String} (containerName : String)
    {params : Params} {opts : V2.RequestOptions}
    (parsed : V2.RequestOptions.parse t params = .ok opts) (notEvents : resource ≠ "events") :
    ∃ a, handleV2 t server host version resource containerName params = some a ∧
      Outcome a False (V2Refused server.manager version resource containerName opts) := by
  have missing := resolve_error_iff server.manager containerName opts
  have lookup := outcome_found (V2.resolve server.manager containerName opts)
  simp only [missing] at lookup
  simp only [v2Versions, List.mem_cons, List.not_mem_nil, or_false] at generation
  have inBoth : ∀ r ∈ v2Offered, r ∈ offered version := by
    intro r member
    rcases generation with rfl | rfl
    · exact member
    · exact List.mem_append_left _ member
  -- A resource of both versions that names no container is never refused.
  have open' : resource ∈ v2Offered → resource ∉ ["stats", "spec", "summary"] →
      ¬ V2Refused server.manager version resource containerName opts := by
    intro isOffered notLookup
    have notMachineStats : resource ≠ "machinestats" := by
      rintro rfl
      exact absurd isOffered (by decide)
    simp [V2Refused, V2Missing, inBoth resource isOffered, notLookup, notMachineStats]
  -- One that names a container is refused if there is none.
  have named : resource ∈ ["stats", "spec", "summary"] →
      ((if opts.idType = V2.typeName then containerName ∉ server.manager.containers.names
        else NoneCalled server.manager containerName) ↔
          V2Refused server.manager version resource containerName opts) := by
    intro isLookup
    have isOffered : resource ∈ offered version := by
      refine inBoth resource ?_
      simp only [List.mem_cons, List.not_mem_nil, or_false] at isLookup
      rcases isLookup with rfl | rfl | rfl <;> decide
    have notMachineStats : resource ≠ "machinestats" := by
      rintro rfl
      exact absurd isLookup (by decide)
    simp [V2Refused, V2Missing, isOffered, isLookup, notMachineStats]
  have answered : ∀ payload, resource ∈ v2Offered → resource ∉ ["stats", "spec", "summary"] →
      ∃ a, some (json payload) = some a ∧
        Outcome a False (V2Refused server.manager version resource containerName opts) :=
    fun payload isOffered notLookup => ⟨_, rfl, (outcome_json payload).congr Iff.rfl
      (iff_of_false id (open' isOffered notLookup))⟩
  unfold handleV2
  rw [parsed]
  dsimp only
  by_cases isVersion : resource = "version"
  · subst isVersion
    exact answered _ (by decide) (by decide)
  rw [if_neg isVersion]
  by_cases isMachine : resource = "machine"
  · subst isMachine
    exact answered _ (by decide) (by decide)
  rw [if_neg isMachine]
  by_cases isAttributes : resource = "attributes"
  · subst isAttributes
    exact answered _ (by decide) (by decide)
  rw [if_neg isAttributes]
  by_cases isStats : resource = "stats"
  · rw [if_pos isStats]
    exact ⟨_, rfl, (lookup _ _).congr Iff.rfl (named (by simp [isStats]))⟩
  rw [if_neg isStats]
  by_cases isMachineStats : version = "v2.1" ∧ resource = "machinestats"
  · rw [if_pos isMachineStats]
    obtain ⟨rfl, rfl⟩ := isMachineStats
    have refused : V2Refused server.manager "v2.1" "machinestats" containerName opts ↔
        server.manager.handle "/" = none := by
      rw [handle_eq_none_iff]
      simp [V2Refused, V2Missing, offered]
    rw [refused]
    cases server.manager.handle "/" with
    | none => exact ⟨_, rfl, (outcome_refused _).congr Iff.rfl (by simp)⟩
    | some root => exact ⟨_, rfl, (outcome_json _).congr Iff.rfl (by simp)⟩
  rw [if_neg isMachineStats]
  by_cases isSpec : resource = "spec"
  · rw [if_pos isSpec]
    exact ⟨_, rfl, (lookup _ _).congr Iff.rfl (named (by simp [isSpec]))⟩
  rw [if_neg isSpec]
  by_cases isSummary : resource = "summary"
  · rw [if_pos isSummary, ← named (by simp [isSummary]), ← missing]
    cases V2.resolve server.manager containerName opts with
    | error e => exact ⟨_, rfl, (outcome_refused _).congr Iff.rfl (by simp)⟩
    | ok handles =>
        obtain ⟨all, allIs⟩ := summaries_isSome host handles
        dsimp only
        rw [allIs]
        exact ⟨_, rfl, (outcome_json _).congr Iff.rfl (by simp)⟩
  rw [if_neg isSummary]
  by_cases isPs : resource = "ps"
  · subst isPs
    exact answered _ (by decide) (by decide)
  rw [if_neg isPs]
  by_cases isStorage : resource = "storage"
  · subst isStorage
    exact answered _ (by decide) (by decide)
  rw [if_neg isStorage]
  by_cases isAppmetrics : resource = "appmetrics"
  · subst isAppmetrics
    exact answered _ (by decide) (by decide)
  rw [if_neg isAppmetrics]
  have unknown : resource ∉ offered version := by
    rcases generation with rfl | rfl
    · simp [offered, v2Offered, isVersion, isMachine, isAttributes, isStats, isSpec, isSummary,
        isPs, isStorage, isAppmetrics, notEvents]
    · have notMachineStats : resource ≠ "machinestats" := fun is => isMachineStats ⟨rfl, is⟩
      simp [offered, v2Offered, isVersion, isMachine, isAttributes, isStats, isSpec, isSummary,
        isPs, isStorage, isAppmetrics, notEvents, notMachineStats]
  exact ⟨_, rfl, (outcome_refused _).congr Iff.rfl (iff_of_true trivial (Or.inl unknown))⟩

theorem mem_v1_not_v2 {version : String} (generation : version ∈ v2Versions) :
    version ∉ v1Versions := by
  simp only [v2Versions, List.mem_cons, List.not_mem_nil, or_false] at generation
  rcases generation with rfl | rfl <;> decide

theorem ne_empty_of_offered {version requestType : String}
    (isOffered : requestType ∈ offered version) : requestType ≠ "" := by
  rintro rfl
  unfold offered at isOffered
  split at isOffered <;> exact absurd isOffered (by decide)

theorem status_of_formed {a : Answer} (formed : a.WellFormed) :
    a.status = 400 ∨ a.status = 500 ∨ a.status = 200 := by
  obtain ⟨status, contentType, body⟩ := a
  cases body with
  | text text => exact formed.1.imp_right Or.inl
  | json payload => exact Or.inr (Or.inr formed.1)
  | stream q => exact Or.inr (Or.inr formed.1)

theorem refused_v1_iff {t : ApiText} {m : Manager} {r : Route} (isV1 : r.version ∈ v1Versions) :
    Refused t m r ↔ r.requestType ≠ "" ∧ (r.requestType ∉ offered r.version ∨
      r.requestType ∈ offered r.version ∧ V1Missing m r.requestType r.containerName) := by
  have known : r.version ∈ v1Versions ++ v2Versions := List.mem_append_left _ isV1
  constructor
  · intro refused
    cases refused with
    | version unknown => exact absurd known unknown
    | requestType given _ unknown => exact ⟨given, Or.inl unknown⟩
    | options generation => exact absurd isV1 (mem_v1_not_v2 generation)
    | v1 _ isOffered missing =>
        exact ⟨ne_empty_of_offered isOffered, Or.inr ⟨isOffered, missing⟩⟩
    | v2 generation => exact absurd isV1 (mem_v1_not_v2 generation)
  · rintro ⟨given, notOffered | ⟨isOffered, missing⟩⟩
    · exact .requestType given known notOffered
    · exact .v1 isV1 isOffered missing

theorem refused_v2_iff {t : ApiText} {m : Manager} {r : Route} (isV2 : r.version ∈ v2Versions)
    (given : r.requestType ≠ "") (notEvents : r.requestType ≠ "events") :
    Refused t m r ↔ (∃ e, V2.RequestOptions.parse t r.params = .error e) ∨
      ∃ opts, V2.RequestOptions.parse t r.params = .ok opts ∧
        V2Refused m r.version r.requestType r.containerName opts := by
  have known : r.version ∈ v1Versions ++ v2Versions := List.mem_append_right _ isV2
  constructor
  · intro refused
    cases refused with
    | version unknown => exact absurd known unknown
    | requestType _ _ unknown =>
        cases parsed : V2.RequestOptions.parse t r.params with
        | error e => exact Or.inl ⟨e, rfl⟩
        | ok opts => exact Or.inr ⟨opts, rfl, Or.inl unknown⟩
    | options _ _ _ e bad => exact Or.inl ⟨e, bad⟩
    | v1 generation => exact absurd generation (mem_v1_not_v2 isV2)
    | v2 _ isOffered opts good missing => exact Or.inr ⟨opts, good, Or.inr ⟨isOffered, missing⟩⟩
  · rintro (⟨e, bad⟩ | ⟨opts, good, notOffered | ⟨isOffered, missing⟩⟩)
    · by_cases isOffered : r.requestType ∈ offered r.version
      · exact .options isV2 isOffered notEvents e bad
      · exact .requestType given known isOffered
    · exact .requestType given known notOffered
    · exact .v2 isV2 isOffered opts good missing

/-- The streams and listings of the second generation are never refused. -/
theorem not_refused_v2 {t : ApiText} {m : Manager} {r : Route} (isV2 : r.version ∈ v2Versions)
    (open' : r.requestType = "events" ∨ r.requestType = "") : ¬ Refused t m r := by
  have isEvents : r.requestType ≠ "" → r.requestType = "events" := fun given =>
    open'.resolve_right given
  have eventsOffered : "events" ∈ offered r.version := by
    simp only [v2Versions, List.mem_cons, List.not_mem_nil, or_false] at isV2
    rcases isV2 with is | is <;> rw [is] <;> decide
  intro refused
  cases refused with
  | version unknown => exact unknown (List.mem_append_right _ isV2)
  | requestType given _ unknown => exact unknown (isEvents given ▸ eventsOffered)
  | options _ isOffered notEvents => exact notEvents (isEvents (ne_empty_of_offered isOffered))
  | v1 generation => exact mem_v1_not_v2 isV2 generation
  | v2 _ isOffered opts _ missing =>
      have events := isEvents (ne_empty_of_offered isOffered)
      rw [V2Missing, events] at missing
      simp at missing

/-- What is answered without a request type: the types that there are. -/
def listingOf (version : String) : Answer :=
  plain 400 (if version ∈ v1Versions then v1Listing else v2Listing)

theorem handleV1_listing (t : ApiText) (server : Server) {version : String}
    (generation : version ∈ v1Versions) (containerName : String) (params : Params)
    (body : List UInt8) :
    handleV1 t server version "" containerName params body = listingOf version := by
  rw [handleV1, if_pos rfl, listingOf, if_pos generation]

end Cadvisor
