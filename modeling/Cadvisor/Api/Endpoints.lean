import Cadvisor.Api.Processes
import Cadvisor.Api.Request
import Cadvisor.Api.Summary
import Cadvisor.Api.V1
import Cadvisor.Manager.Enrichment
import Cadvisor.Manager.Housekeeping

/-!
# The endpoints

What each request type of each version answers.  An answer names what it is written
from; how that becomes JSON is the concern of its type.
-/

set_option autoImplicit false

namespace Cadvisor

/-! ## What is answered -/

namespace V2

def typeDocker : String := "docker"

def typePodman : String := "podman"

structure ContainerSpec where
  creationTime : GoTime := GoTime.zero
  aliases : List String := []
  «namespace» : String := ""
  labels : SortedMap String String := SortedMap.empty
  envs : SortedMap String String := SortedMap.empty
  hasCpu : Bool := false
  cpu : CpuSpec := {}
  hasMemory : Bool := false
  memory : MemorySpec := {}
  hasHugetlb : Bool := false
  hasCustomMetrics : Bool := false
  customMetrics : List MetricSpec := []
  hasProcesses : Bool := false
  processes : ProcessSpec := {}
  hasNetwork : Bool := false
  hasFilesystem : Bool := false
  hasDiskIo : Bool := false
  image : String := ""

structure ContainerInfo where
  spec : ContainerSpec := {}
  stats : List ContainerStats := []

/-- The durations are nanoseconds. -/
structure DiskStats where
  readsCompleted : Option UInt64 := none
  readsMerged : Option UInt64 := none
  sectorsRead : Option UInt64 := none
  readDuration : Option Int64 := none
  writesCompleted : Option UInt64 := none
  writesMerged : Option UInt64 := none
  sectorsWritten : Option UInt64 := none
  writeDuration : Option Int64 := none
  ioInProgress : Option UInt64 := none
  ioDuration : Option Int64 := none
  weightedIoDuration : Option Int64 := none

structure MachineFsStats where
  device : String := ""
  fsType : String := ""
  capacity : Option UInt64 := none
  usage : Option UInt64 := none
  available : Option UInt64 := none
  inodesFree : Option UInt64 := none
  diskStats : DiskStats := {}

structure MachineStats where
  timestamp : GoTime := GoTime.zero
  cpu : Option CpuStats := none
  cpuInst : Option CpuInstStats := none
  memory : Option MemoryStats := none
  network : Option NetworkStats := none
  filesystem : List MachineFsStats := []
  load : Option LoadStats := none

structure FsInfo where
  timestamp : GoTime := GoTime.zero
  device : String := ""
  mountpoint : String := ""
  capacity : UInt64 := 0
  available : UInt64 := 0
  usage : UInt64 := 0
  /-- `null` where there are none. -/
  labels : Option (List String) := none
  inodes : Option UInt64 := none
  inodesFree : Option UInt64 := none

structure Attributes where
  kernelVersion : String := ""
  containerOsVersion : String := ""
  dockerVersion : String := ""
  cadvisorVersion : String := ""
  numCores : Int := 0
  memoryCapacity : UInt64 := 0
  machineId : String := ""
  systemUuid : String := ""
  filesystems : List FilesystemInfo := []
  diskMap : SortedMap String DiskInfo := SortedMap.empty
  networkDevices : List NetInfo := []

def Attributes.new (mi : MachineInfo) (vi : VersionInfo) : Attributes where
  kernelVersion := vi.kernelVersion
  containerOsVersion := vi.containerOsVersion
  dockerVersion := vi.dockerVersion
  cadvisorVersion := vi.cadvisorVersion
  numCores := mi.numCores
  memoryCapacity := mi.memoryCapacity
  machineId := mi.machineId
  systemUuid := mi.systemUuid
  filesystems := mi.filesystems
  diskMap := mi.diskMap
  networkDevices := mi.networkDevices

/-- Quota and period are dropped, and the limit of processes. -/
def v2Spec (handle : ContainerHandle) : ContainerSpec where
  creationTime := handle.spec.creationTime
  aliases := handle.reference.aliases
  «namespace» := handle.reference.namespace
  labels := handle.spec.labels
  envs := handle.spec.envs
  hasCpu := handle.spec.hasCpu
  cpu :=
    { limit := handle.spec.cpu.limit
      maxLimit := handle.spec.cpu.maxLimit
      mask := handle.spec.cpu.mask }
  hasMemory := handle.spec.hasMemory
  memory := handle.spec.memory
  hasHugetlb := handle.spec.hasHugetlb
  hasCustomMetrics := handle.spec.hasCustomMetrics
  customMetrics := handle.spec.customMetrics
  hasProcesses := handle.spec.hasProcesses
  processes := {}
  hasNetwork := handle.spec.hasNetwork
  hasFilesystem := handle.spec.hasFilesystem
  hasDiskIo := handle.spec.hasDiskIo
  image := handle.spec.image

end V2

structure Server where
  manager : Manager
  cadvisorVersion : String
  versionInfo : VersionInfo
  fs : FsService

/-- What the host answers while a request is served. -/
structure Host where
  now : GoTime
  statvfs : String → Option FsUsage
  diskstats : Option String
  files : CgroupReader.Files
  proc : ProcFs

namespace Server

/-- The last line of a device counts. -/
def diskOf (host : Host) (p : Partition) : Parse.DiskStatsLine :=
  (((host.diskstats.map Parse.diskstats).getD []).reverse.find? fun d =>
    d.major = p.major ∧ d.minor = p.minor).getD {}

def storageInfo (server : Server) (host : Host) : List V2.FsInfo :=
  server.fs.partitions.filterMap fun p =>
    (host.statvfs p.mountpoint).map fun u =>
      { timestamp := host.now
        device := p.device
        mountpoint := p.mountpoint
        capacity := u.capacity
        available := u.available
        usage := u.capacity - u.free
        labels := if p.mountpoint = "/" then some ["root"] else none
        inodes := some u.inodes
        inodesFree := some u.inodesFree }

def msToNs (ms : UInt64) : Option Int64 := some (ms.toInt64 * 1000000)

def machineFsStats (server : Server) (host : Host) : List V2.MachineFsStats :=
  server.fs.partitions.filterMap fun p =>
    (host.statvfs p.mountpoint).map fun u =>
      let d := diskOf host p
      { device := p.device
        fsType := "vfs"
        capacity := some u.capacity
        usage := some (u.capacity - u.free)
        available := some u.available
        inodesFree := some u.inodesFree
        diskStats :=
          { readsCompleted := some d.readsCompleted
            readsMerged := some d.readsMerged
            sectorsRead := some d.sectorsRead
            readDuration := msToNs d.readTime
            writesCompleted := some d.writesCompleted
            writesMerged := some d.writesMerged
            sectorsWritten := some d.sectorsWritten
            writeDuration := msToNs d.writeTime
            ioInProgress := some d.ioInProgress
            ioDuration := msToNs d.ioTime
            weightedIoDuration := msToNs d.weightedIoTime } }

def machineStats (server : Server) (host : Host) (root : ContainerHandle) :
    List V2.MachineStats :=
  (V2.v2Stats root root.spec 10).map fun s =>
    { timestamp := s.timestamp
      cpu := s.cpu
      cpuInst := s.cpuInst
      memory := s.memory
      network := s.network
      filesystem := server.machineFsStats host
      load := none }

end Server

/-- What the body of an answer is written from. -/
inductive Payload where
  | machine (info : MachineInfo)
  | container (info : ContainerInfo)
  | containers (infos : List ContainerInfo)
  | docker (infos : List (String × ContainerInfo))
  | events (events : List Event)
  | version (version : String)
  | attributes (attributes : V2.Attributes)
  | stats (infos : SortedMap String V2.ContainerInfo)
  | deprecatedStats (stats : SortedMap String (List V2.DeprecatedContainerStats))
  | machineStats (stats : List V2.MachineStats)
  | spec (specs : SortedMap String V2.ContainerSpec)
  | summary (summaries : SortedMap String V2.DerivedStats)
  | processes (rows : List V2.ProcessInfo)
  | storage (rows : List V2.FsInfo)
  | appmetrics

inductive Body where
  | text (text : String)
  | json (payload : Payload)
  | stream (q : EventQuery)

structure Answer where
  status : Nat
  contentType : String
  body : Body

def plain (status : Nat) (body : String) : Answer :=
  ⟨status, "text/plain; charset=utf-8", .text (body ++ "\n")⟩

def json (payload : Payload) : Answer := ⟨200, "application/json", .json payload⟩

/-- The texts that are written by libraries: debug strings and other people's errors. -/
structure ApiText extends BodyText where
  debug : String → String
  hostError : HostError → String
  parseIntError : String → String

namespace ApiText

def managerError (t : ApiText) : ManagerError → String
  | .unknownContainer name => "unknown container " ++ t.debug name
  | .host e => t.hostError e

def resolveError (t : ApiText) : V2.ResolveError → String
  | .unableToFindContainer name => "unable to find container " ++ t.debug name
  | .unknownContainer name => "unknown container " ++ t.debug name

end ApiText

namespace V2

def RequestOptions.parse (t : ApiText) (params : Params) : Except String RequestOptions :=
  let idType := (params.get "type").getD typeName
  if ¬ idType ∈ [typeName, typeDocker, typePodman] then .error ("unknown 'type' " ++ t.debug idType)
  else
    let recursive : Bool := params.get "recursive" = some "true"
    match params.get "count" with
    | none => .ok { idType, count := 64, recursive }
    | some v =>
        match Str.parseSigned (2 ^ 63) v with
        | none => .error ("invalid 'count' option: " ++ t.parseIntError v)
        | some count => .ok { idType, count, recursive }

end V2

def handleEventsAnswer (t : ApiText) (server : Server) (containerName : String) (params : Params) :
    Answer :=
  match handleEvents t.parseFromRfc3339 server.manager.events containerName params with
  | .json events => json (.events events)
  | .stream q => ⟨200, "application/json", .stream q⟩

def v1Listing : String :=
  "Supported request types: " ++
    "\"containers\",\"docker\",\"events\",\"machine\",\"subcontainers\""

def v2Listing : String :=
  "Supported request types: \"attributes\",\"events\",\"machine\",\"machinestats\"," ++
    "\"ps\",\"spec\",\"stats\",\"storage\",\"summary\",\"version\",\"appmetrics\""

def found {α ε : Type} (result : Except ε α) (payload : α → Payload) (failure : ε → String) :
    Answer :=
  match result with
  | .ok value => json (payload value)
  | .error e => plain 500 (failure e)

def handleV1 (t : ApiText) (server : Server) (version requestType containerName : String)
    (params : Params) (body : List UInt8) : Answer :=
  let manager := server.manager
  if requestType = "" then plain 400 v1Listing
  else if requestType = "machine" then json (.machine manager.machineInfo)
  else if requestType = "containers" then
    found (manager.containerInfo containerName (decodeRequest t.toBodyText body)) .container fun e =>
      "failed to get container " ++ t.debug containerName ++ " with error: " ++ t.managerError e
  else if version ∈ ["v1.1", "v1.2", "v1.3"] ∧ requestType = "subcontainers" then
    found (manager.subcontainersInfo containerName (decodeRequest t.toBodyText body)) .containers
      fun e =>
        "failed to get subcontainers for container " ++ t.debug containerName ++
          " with error: " ++ t.managerError e
  else if version ∈ ["v1.2", "v1.3"] ∧ requestType = "docker" then
    found (manager.dockerRequest containerName (decodeRequest t.toBodyText body)) .docker fun e =>
      "failed to get Docker container " ++ t.debug (Str.trimStartMatches containerName '/') ++
        " with error: " ++ t.managerError e
  else if version = "v1.3" ∧ requestType = "events" then
    handleEventsAnswer t server containerName params
  else plain 500 ("unknown request type " ++ t.debug requestType)

def byName {α : Type} (handles : List ContainerHandle) (value : ContainerHandle → α) :
    SortedMap String α :=
  SortedMap.ofList (handles.map fun h => (h.name, value h))

def resolveFailure (t : ApiText) (what containerName : String) (e : V2.ResolveError) : String :=
  "could not get " ++ what ++ " for " ++ t.debug containerName ++ ": " ++ t.resolveError e

/-- `none` is a panic of a summary. -/
def summaries (host : Host) (handles : List ContainerHandle) :
    Option (SortedMap String V2.DerivedStats) :=
  (handles.mapM fun h => (V2.derivedStats h.store host.now).map fun s => (h.name, s)).map
    SortedMap.ofList

def statsPayload (version : String) (opts : V2.RequestOptions) (handles : List ContainerHandle) :
    Payload :=
  if version = "v2.1" then
    .stats (byName (handles.filter fun h => h.name ≠ "/") fun h =>
      { spec := V2.v2Spec h, stats := V2.v2Stats h h.spec opts.count })
  else .deprecatedStats (byName handles fun h => V2.deprecatedStats h h.spec opts.count)

def storageRows (server : Server) (host : Host) (params : Params) : List V2.FsInfo :=
  match params.get "label" with
  | none => server.storageInfo host
  | some label => (server.storageInfo host).filter fun fs => (fs.labels.getD []).any (· == label)

def handleV2 (t : ApiText) (server : Server) (host : Host)
    (version resource containerName : String) (params : Params) : Option Answer :=
  match V2.RequestOptions.parse t params with
  | .error e => some (plain 500 e)
  | .ok opts =>
      if resource = "version" then some (json (.version server.cadvisorVersion))
      else if resource = "machine" then some (json (.machine server.manager.machineInfo))
      else if resource = "attributes" then
        some (json (.attributes (.new server.manager.machineInfo server.versionInfo)))
      else if resource = "stats" then
        some (found (V2.resolve server.manager containerName opts) (statsPayload version opts)
          (resolveFailure t "stats" containerName))
      else if version = "v2.1" ∧ resource = "machinestats" then
        match server.manager.handle "/" with
        | none => some (plain 500 "could not get machine stats")
        | some root => some (json (.machineStats (server.machineStats host root)))
      else if resource = "spec" then
        some (found (V2.resolve server.manager containerName opts)
          (fun handles => .spec (byName handles V2.v2Spec))
          (resolveFailure t "spec" containerName))
      else if resource = "summary" then
        match V2.resolve server.manager containerName opts with
        | .error e => some (plain 500 (resolveFailure t "summary" containerName e))
        | .ok handles => (summaries host handles).map fun all => json (.summary all)
      else if resource = "ps" then
        some (json (.processes (processList server.manager host.files host.proc containerName)))
      else if resource = "storage" then some (json (.storage (storageRows server host params)))
      else if resource = "appmetrics" then some (json .appmetrics)
      else some (plain 500 ("unknown request type " ++ t.debug resource))

end Cadvisor
