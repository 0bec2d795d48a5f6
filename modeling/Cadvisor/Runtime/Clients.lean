import Cadvisor.Lib.Retry
import Cadvisor.Manager.Containers
import Cadvisor.Model.Wire
import Cadvisor.Runtime.ContainerId

/-!
# Asking the container runtimes

A cgroup with a container's id in its name is looked up in CRI-O or in containerd.
What comes back on a socket, and what `serde_json` reads a body as, is left open.
-/

set_option autoImplicit false

namespace Cadvisor

open Serde

/-- The texts of the last two are only logged. -/
inductive RuntimeError where
  | notFound
  | unavailable
  | other
  deriving DecidableEq

abbrev ParseJson := List UInt8 → Option (Json SerdeStr Float)

def u32 : Codec SerdeStr Float UInt32 :=
  integer 0 (2 ^ 32) (fun n => n.toNat) fun n => UInt32.ofNat n.toNat

/-! ## CRI-O -/

/-- `null` is the default. -/
def nullDefault {α : Type} (c : Codec SerdeStr Float α) (dflt : α) : Codec SerdeStr Float α where
  enc := c.enc
  dec
    | .null => some dflt
    | j => c.dec j

structure CrioContainerInfo where
  name : String := ""
  pid : UInt32 := 0
  image : String := ""
  labels : SortedMap String String := SortedMap.empty
  annotations : SortedMap String String := SortedMap.empty
  root : String := ""
  ipAddress : String := ""
  ipAddresses : List String := []

def CrioContainerInfo.wire : Record SerdeStr Float CrioContainerInfo where
  make := CrioContainerInfo.mk
  dflt := {}
  fields :=
    .cons "name" str (·.name) never <|
    .cons "pid" u32 (·.pid) never <|
    .cons "image" str (·.image) never <|
    .cons "labels" (nullDefault (named str) SortedMap.empty) (·.labels) never <|
    .cons "annotations" (nullDefault (named str) SortedMap.empty) (·.annotations) never <|
    .cons "root" str (·.root) never <|
    .cons "ip_address" (nullDefault str "") (·.ipAddress) never <|
    .cons "ip_addresses" (nullDefault (list str) []) (·.ipAddresses) never <|
    .nil
  nodup := by simp [Fields.keys]
  complete _ := rfl

/-- How a request on the socket ends; the body may be cut off. -/
inductive HttpAnswer where
  | unreachable
  | broken
  | answered (status : Nat) (body : Option (List UInt8))

namespace Crio

def getJson {α : Type} (parse : ParseJson) (c : Codec SerdeStr Float α) :
    HttpAnswer → Except RuntimeError α
  | .unreachable => .error .unavailable
  | .broken => .error .other
  | .answered status body =>
      if status = 404 then .error .notFound
      else if ¬ (200 ≤ status ∧ status < 300) then .error .other
      else
        match (body.bind parse).bind c.dec with
        | none => .error .other
        | some v => .ok v

def inspect (parse : ParseJson) (isDir : String → Bool) (id : String) (answer : HttpAnswer) :
    Except RuntimeError ContainerMeta :=
  match getJson parse CrioContainerInfo.wire.codec answer with
  | .error e => .error e
  | .ok info =>
      .ok
        { id
          «namespace» := "crio"
          aliases := (if info.name ≠ "" then [info.name] else []) ++ [id]
          image := info.image
          labels := info.labels
          initPid := if 0 < info.pid then some info.pid else none
          reportsNetwork := info.labels.get? "io.kubernetes.container.name" = some "POD"
          rootfsDiff :=
            ((Str.stripSuffix info.root "/merged").map fun base => base ++ "/diff").filter isDir
          env := [] }

end Crio

/-! ## containerd -/

structure OciProcess where
  env : List String := []

structure OciSpec where
  process : OciProcess := {}

def OciProcess.wire : Record SerdeStr Float OciProcess where
  make := OciProcess.mk
  dflt := {}
  fields := .cons "env" (list str) (·.env) never .nil
  nodup := by decide
  complete _ := rfl

def OciSpec.wire : Record SerdeStr Float OciSpec where
  make := OciSpec.mk
  dflt := {}
  fields := .cons "process" OciProcess.wire.codec (·.process) never .nil
  nodup := by decide
  complete _ := rfl

def ociSpecEnv (parse : ParseJson) (specJson : List UInt8) : List String :=
  (((parse specJson).bind OciSpec.wire.codec.dec).map fun s => s.process.env).getD []

/-- The labels come in no particular order. -/
structure ContainerdContainer where
  labels : List (String × String)
  image : String
  spec : Option (List UInt8)

/-- What `containers.v1` answers, and the pid that `tasks.v1` has. -/
inductive ContainerdAnswer where
  | notFound
  | failed
  | answered (container : Option ContainerdContainer) (pid : Option UInt32)

namespace Containerd

def inspect (parse : ParseJson) (id : String) : ContainerdAnswer → Except RuntimeError ContainerMeta
  | .notFound => .error .notFound
  | .failed => .error .other
  | .answered none _ => .error .notFound
  | .answered (some container) initPid =>
      let labels := SortedMap.ofList container.labels
      .ok
        { id
          «namespace» := "containerd"
          aliases := [id]
          image := container.image
          labels
          initPid
          reportsNetwork := labels.get? "io.cri-containerd.kind" = some "sandbox"
          rootfsDiff := none
          env := (container.spec.map (ociSpecEnv parse)).getD [] }

end Containerd

/-! ## The chain of factories -/

/-- What the runtimes answer at each attempt; `containerd` is `none` where connecting has
failed, which is not tried again. -/
structure Runtimes where
  parse : ParseJson
  isDir : String → Bool
  crioAvailable : Nat → Bool
  crio : Nat → HttpAnswer
  containerd : Option (Nat → ContainerdAnswer)

namespace Runtimes

open Retry

def askCrio (env : Runtimes) (id : String) (attempt : Nat) : Reply ContainerMeta :=
  if ¬ env.crioAvailable attempt then .stop
  else
    match Crio.inspect env.parse env.isDir id (env.crio attempt) with
    | .ok found => .found found
    | .error .notFound => .again
    | .error _ => .stop

def askContainerd (env : Runtimes) (id : String) (attempt : Nat) : Reply ContainerMeta :=
  match env.containerd with
  | none => .stop
  | some client =>
      match Containerd.inspect env.parse id (client attempt) with
      | .ok found => .found found
      | .error .notFound => .stop
      | .error _ => .again

def ask (env : Runtimes) (basename id : String) : Nat → Reply ContainerMeta :=
  if Str.startsWith basename "crio-" then env.askCrio id else env.askContainerd id

/-- The attempts made and the answer; `none` where cutting the id out of the name panics. -/
def runtimeMeta (env : Runtimes) (basename : String) : Option (List Nat × Option ContainerMeta) :=
  if Str.startsWith basename "crio-conmon-" then some ([], none)
  else
    match extractContainerId basename with
    | none => none
    | some none => some ([], none)
    | some (some id) => some (run (env.ask basename id) 0 3)

/-- The sleep before an attempt, in milliseconds. -/
def pause (attempt : Nat) : Nat := if 0 < attempt then 100 <<< attempt else 0

/-! ## What is found -/

/-- The name of a runtime's container: not of its monitor, and with an id in it. -/
def Identifies (basename id : String) : Prop :=
  Str.startsWith basename "crio-conmon-" = false ∧
    Str.endsWith basename ".mount" = false ∧
      Runs.IsLeftmostRun isHexDigit 64 basename.toList id.toList

def namespaceOf (basename : String) : String :=
  if Str.startsWith basename "crio-" then "crio" else "containerd"

structure MetaOf (basename : String) (found : ContainerMeta) : Prop where
  identifies : Identifies basename found.id
  «namespace» : found.namespace = namespaceOf basename
  aliased : found.id ∈ found.aliases
  overlay : found.rootfsDiff.isSome = true → found.namespace = "crio"
  env : found.namespace = "crio" → found.env = []

theorem extractContainerId_cases (basename : String) :
    extractContainerId basename = some none ∨
      ∃ id, extractContainerId basename = some (some id) ∧
        Str.endsWith basename ".mount" = false ∧
          Runs.IsLeftmostRun isHexDigit 64 basename.toList id.toList := by
  unfold extractContainerId
  rw [scanContainerId_range, Option.map_some]
  split_ifs with mount
  · exact Or.inl rfl
  · cases found : Runs.firstRun isHexDigit 64 [] basename.toList with
    | none => exact Or.inl rfl
    | some run =>
        refine Or.inr ⟨String.ofList run, rfl, Bool.eq_false_of_not_eq_true mount, ?_⟩
        rw [String.toList_ofList]
        exact (Runs.firstRun_spec isHexDigit 64 basename.toList).2 run found

theorem runtimeMeta_total (env : Runtimes) (basename : String) :
    ∃ asked found, env.runtimeMeta basename = some (asked, found) := by
  unfold runtimeMeta
  by_cases monitor : Str.startsWith basename "crio-conmon-" = true
  · exact ⟨_, _, if_pos monitor⟩
  · rw [if_neg monitor]
    rcases extractContainerId_cases basename with none | ⟨id, extracted, -⟩
    · rw [none]
      exact ⟨_, _, rfl⟩
    · rw [extracted]
      exact ⟨_, _, rfl⟩

theorem askCrio_found {env : Runtimes} {id : String} {attempt : Nat} {found : ContainerMeta}
    (reply : env.askCrio id attempt = .found found) :
    found.id = id ∧ found.namespace = "crio" ∧ id ∈ found.aliases ∧ found.env = [] := by
  unfold askCrio at reply
  split_ifs at reply with available
  cases inspected : Crio.inspect env.parse env.isDir id (env.crio attempt) with
  | error e =>
      rw [inspected] at reply
      cases e <;> cases reply
  | ok known =>
      rw [inspected] at reply
      cases reply
      unfold Crio.inspect at inspected
      cases body : Crio.getJson env.parse CrioContainerInfo.wire.codec (env.crio attempt) with
      | error e =>
          rw [body] at inspected
          cases inspected
      | ok info =>
          rw [body] at inspected
          cases inspected
          exact ⟨rfl, rfl, List.mem_append_right _ (List.mem_singleton_self id), rfl⟩

theorem askContainerd_found {env : Runtimes} {id : String} {attempt : Nat}
    {found : ContainerMeta} (reply : env.askContainerd id attempt = .found found) :
    found.id = id ∧ found.namespace = "containerd" ∧ id ∈ found.aliases ∧
      found.rootfsDiff = none := by
  unfold askContainerd at reply
  cases connected : env.containerd with
  | none =>
      rw [connected] at reply
      cases reply
  | some client =>
      rw [connected] at reply
      dsimp only at reply
      cases answer : client attempt with
      | notFound =>
          rw [answer] at reply
          cases reply
      | failed =>
          rw [answer] at reply
          cases reply
      | answered container initPid =>
          rw [answer] at reply
          cases container with
          | none => cases reply
          | some container =>
              cases reply
              exact ⟨rfl, rfl, List.mem_singleton_self id, rfl⟩

theorem runtimeMeta_metaOf {env : Runtimes} {basename : String} {asked : List Nat}
    {found : ContainerMeta} (known : env.runtimeMeta basename = some (asked, some found)) :
    MetaOf basename found := by
  unfold runtimeMeta at known
  by_cases monitor : Str.startsWith basename "crio-conmon-" = true
  · rw [if_pos monitor] at known
    cases known
  · rw [if_neg monitor] at known
    rcases extractContainerId_cases basename with none | ⟨id, extracted, notMount, leftmost⟩
    · rw [none] at known
      cases known
    · rw [extracted] at known
      have result := congrArg Prod.snd (Option.some.inj known)
      obtain ⟨k, -, -, reply⟩ := (run_found_iff (env.ask basename id) 0 3 found).mp result
      have notMonitor := Bool.eq_false_of_not_eq_true monitor
      unfold ask at reply
      by_cases crio : Str.startsWith basename "crio-" = true
      · rw [if_pos crio] at reply
        obtain ⟨idIs, spaceIs, isAlias, noEnv⟩ := askCrio_found reply
        subst idIs
        refine ⟨⟨notMonitor, notMount, leftmost⟩, ?_, isAlias, fun _ => spaceIs, fun _ => noEnv⟩
        rw [spaceIs, namespaceOf, if_pos crio]
      · rw [if_neg crio] at reply
        obtain ⟨idIs, spaceIs, isAlias, noOverlay⟩ := askContainerd_found reply
        subst idIs
        refine ⟨⟨notMonitor, notMount, leftmost⟩, ?_, isAlias, ?_, ?_⟩
        · rw [spaceIs, namespaceOf, if_neg crio]
        · intro overlay
          rw [noOverlay] at overlay
          cases overlay
        · intro isCrio
          rw [spaceIs] at isCrio
          exact absurd isCrio (by decide)

theorem runtimeMeta_asked {env : Runtimes} {basename : String} {asked : List Nat}
    {found : Option ContainerMeta} (known : env.runtimeMeta basename = some (asked, found)) :
    ∃ k ≤ 3, asked = List.range k ∧ (asked.map pause).sum ≤ 600 := by
  have few : ∃ k ≤ 3, asked = List.range k := by
    unfold runtimeMeta at known
    split_ifs at known with monitor
    · cases known
      exact ⟨0, by omega, rfl⟩
    · rcases extractContainerId_cases basename with none | ⟨id, extracted, -⟩
      · rw [none] at known
        cases known
        exact ⟨0, by omega, rfl⟩
      · rw [extracted] at known
        obtain ⟨k, le, askedIs⟩ := run_asked (env.ask basename id) 0 3
        refine ⟨k, le, ?_⟩
        rw [List.range_eq_range', ← askedIs]
        exact (congrArg Prod.fst (Option.some.inj known)).symm
  obtain ⟨k, le, rfl⟩ := few
  refine ⟨k, le, rfl, ?_⟩
  interval_cases k <;> decide

end Runtimes

end Cadvisor
