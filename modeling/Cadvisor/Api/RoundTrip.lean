import Cadvisor.Api.Payloads
import Cadvisor.Api.Server

/-!
# Answers, read back

A client with the types of the API reads back what an answer was written from, as long as
its times and floats print exactly.  A negative zero does not: a metric leaves it out.
-/

set_option autoImplicit false

namespace Serde

variable {σ φ ρ ι : Type}

theorem Record.enc_ne_null (record : Record σ φ ρ) (r : ρ) : record.codec.enc r ≠ .null := by
  intro written
  cases written

@[simp] theorem Record.optional_reads (record : Record σ φ ρ) {v : Option ρ}
    (reads : ∀ r ∈ v, record.codec.Reads r r) : (optional record.codec).Reads v v :=
  optional_reads_self record.enc_ne_null reads

@[simp] theorem optional_u64 (v : Option UInt64) :
    (optional u64 : Codec σ φ (Option UInt64)).Reads v v :=
  optional_reads_self (fun _ written => by cases written) fun n _ => u64_reads n

@[simp] theorem optional_i64 (v : Option Int64) :
    (optional i64 : Codec σ φ (Option Int64)).Reads v v :=
  optional_reads_self (fun _ written => by cases written) fun n _ => i64_reads n

end Serde

namespace Cadvisor

open Serde

/-! ## What has to print exactly -/

def IsI32 (n : Int) : Prop := -2 ^ 31 ≤ n ∧ n < 2 ^ 31

def IsI64 (n : Int) : Prop := -2 ^ 63 ≤ n ∧ n < 2 ^ 63

theorem int64_reads {n : Int} (inRange : IsI64 n) : int64.Reads n n := integer_reads inRange rfl

/-- A metric is read back with its float, if that is not left out for another zero. -/
def MetricVal.Exact (w : WireText) (v : MetricVal) : Prop :=
  w.ExactTime v.timestamp ∧ w.ExactFloat v.floatValue ∧
    (isZero v.floatValue = true → v.floatValue = 0)

theorem MetricVal.reads_self {w : WireText} {v : MetricVal} (exact' : v.Exact w) :
    (MetricVal.wire w).codec.Reads v v := by
  obtain ⟨time, float, zero⟩ := exact'
  have whole : v.back = v := by
    unfold MetricVal.back
    split_ifs with isZero
    · rw [← zero isZero]
    · rfl
  have back := MetricVal.reads time float
  rw [whole] at back
  exact back

structure ExactMetrics (w : WireText) (custom : SortedMap String (List MetricVal))
    (perf : List PerfStat) (uncore : List PerfUncoreStat) : Prop where
  custom : ∀ e ∈ custom.toList, ∀ v ∈ e.2, v.Exact w
  perf : ∀ p ∈ perf, w.ExactFloat p.perfValue.scalingRatio
  uncore : ∀ p ∈ uncore, w.ExactFloat p.perfValue.scalingRatio

namespace ExactMetrics

variable {w : WireText} {custom : SortedMap String (List MetricVal)} {perf : List PerfStat}
  {uncore : List PerfUncoreStat}

theorem custom_reads (metrics : ExactMetrics w custom perf uncore) :
    (named (list (MetricVal.wire w).codec)).Reads custom custom :=
  named_reads fun e member =>
    list_reads_self fun v inEntry => MetricVal.reads_self (metrics.custom e member v inEntry)

theorem perf_reads (metrics : ExactMetrics w custom perf uncore) :
    (list (PerfStat.wire w).codec).Reads perf perf :=
  list_reads_self fun p member => PerfStat.reads (metrics.perf p member)

theorem uncore_reads (metrics : ExactMetrics w custom perf uncore) :
    (list (PerfUncoreStat.wire w).codec).Reads uncore uncore :=
  list_reads_self fun p member => PerfUncoreStat.reads (metrics.uncore p member)

end ExactMetrics

/-! ## v1 -/

@[simp] theorem CpuSpec.reads (r : CpuSpec) : CpuSpec.wire.codec.Reads r r :=
  CpuSpec.wire.reads (by simp [CpuSpec.wire])

@[simp] theorem MemorySpec.reads (r : MemorySpec) : MemorySpec.wire.codec.Reads r r :=
  MemorySpec.wire.reads (by simp [MemorySpec.wire])

@[simp] theorem ProcessSpec.reads (r : ProcessSpec) : ProcessSpec.wire.codec.Reads r r :=
  ProcessSpec.wire.reads (by simp [ProcessSpec.wire])

@[simp] theorem MetricSpec.reads (r : MetricSpec) : MetricSpec.wire.codec.Reads r r :=
  MetricSpec.wire.reads (by simp [MetricSpec.wire])

@[simp] theorem CpuInstUsage.reads (r : CpuInstUsage) : CpuInstUsage.wire.codec.Reads r r :=
  CpuInstUsage.wire.reads (by simp [CpuInstUsage.wire])

@[simp] theorem CpuInstStats.reads (r : CpuInstStats) : CpuInstStats.wire.codec.Reads r r :=
  CpuInstStats.wire.reads (by simp [CpuInstStats.wire])

theorem ContainerReference.moves (r : ContainerReference) :
    ContainerReference.wire.Moves r r := by
  simp [ContainerReference.wire]

@[simp] theorem ContainerReference.reads (r : ContainerReference) :
    ContainerReference.wire.codec.Reads r r :=
  ContainerReference.wire.reads r.moves

theorem ContainerSpec.reads {w : WireText} {r : ContainerSpec}
    (time : w.ExactTime r.creationTime) : (ContainerSpec.wire w).codec.Reads r r :=
  (ContainerSpec.wire w).reads (by simp [ContainerSpec.wire, WireText.time_reads time])

structure ContainerStats.Exact (w : WireText) (s : ContainerStats) : Prop where
  time : w.ExactTime s.timestamp
  load : IsI32 s.cpu.loadAverage
  metrics : ExactMetrics w s.customMetrics s.perfStats s.perfUncoreStats

theorem ContainerStats.reads_self {w : WireText} {s : ContainerStats} (exact' : s.Exact w) :
    (ContainerStats.wire w).codec.Reads s s :=
  (ContainerStats.wire w).reads (by
    simp [ContainerStats.wire, WireText.time_reads exact'.time, CpuStats.reads exact'.load,
      exact'.metrics.custom_reads, exact'.metrics.perf_reads, exact'.metrics.uncore_reads])

structure ContainerInfo.Exact (w : WireText) (info : ContainerInfo) : Prop where
  created : w.ExactTime info.spec.creationTime
  stats : ∀ s ∈ info.stats, s.Exact w

theorem ContainerInfo.reads {w : WireText} {info : ContainerInfo} (exact' : info.Exact w) :
    (ContainerInfo.wire w).codec.Reads info info := by
  have stats : (list (ContainerStats.wire w).codec).Reads info.stats info.stats :=
    list_reads_self fun s member => ContainerStats.reads_self (exact'.stats s member)
  apply (ContainerInfo.wire w).reads
  · exact info.reference.moves
  · simp [ContainerInfo.wire, ContainerSpec.reads exact'.created, stats]

/-! ## Events -/

theorem EventType.ofName_name (e : EventType) : ofName e.name = some e := by
  cases e <;> decide

theorem EventType.reads (e : EventType) : EventType.wire.Reads e e := by
  have text : (SerdeStr.written e.name).text = e.name := by
    unfold SerdeStr.written
    split_ifs <;> rfl
  unfold Codec.Reads EventType.wire
  dsimp only
  rw [text, ofName_name]

theorem OomKillEventData.reads {r : OomKillEventData} (pid : IsI64 r.pid) :
    OomKillEventData.wire.codec.Reads r r :=
  OomKillEventData.wire.reads (by simp [OomKillEventData.wire, int64_reads pid])

structure Event.Exact (w : WireText) (e : Event) : Prop where
  time : w.ExactTime e.timestamp
  pid : ∀ data ∈ e.eventData.oomKill, IsI64 data.pid

theorem Event.reads {w : WireText} {e : Event} (exact' : e.Exact w) :
    (Event.wire w).codec.Reads e e := by
  have killed : (optional OomKillEventData.wire.codec).Reads e.eventData.oomKill
      e.eventData.oomKill :=
    OomKillEventData.wire.optional_reads fun data member =>
      OomKillEventData.reads (exact'.pid data member)
  have data : EventData.wire.codec.Reads e.eventData e.eventData :=
    EventData.wire.reads (by simp [EventData.wire, killed])
  apply (Event.wire w).reads
  simp [Event.wire, WireText.time_reads exact'.time, EventType.reads, data]

/-! ## v2 -/

namespace V2

@[simp] theorem NetworkStats.reads (r : NetworkStats) : NetworkStats.wire.codec.Reads r r :=
  NetworkStats.wire.reads (by simp [NetworkStats.wire])

@[simp] theorem FilesystemStats.reads (r : FilesystemStats) :
    FilesystemStats.wire.codec.Reads r r :=
  FilesystemStats.wire.reads (by simp [FilesystemStats.wire])

theorem ContainerSpec.reads {w : WireText} {r : ContainerSpec}
    (time : w.ExactTime r.creationTime) : (ContainerSpec.wire w).codec.Reads r r :=
  (ContainerSpec.wire w).reads (by simp [ContainerSpec.wire, WireText.time_reads time])

structure DeprecatedContainerStats.Exact (w : WireText) (s : DeprecatedContainerStats) :
    Prop where
  time : w.ExactTime s.timestamp
  load : IsI32 s.cpu.loadAverage
  metrics : ExactMetrics w s.customMetrics s.perfStats s.perfUncoreStats

theorem DeprecatedContainerStats.reads {w : WireText} {s : DeprecatedContainerStats}
    (exact' : s.Exact w) : (DeprecatedContainerStats.wire w).codec.Reads s s :=
  (DeprecatedContainerStats.wire w).reads (by
    simp [DeprecatedContainerStats.wire, WireText.time_reads exact'.time,
      CpuStats.reads exact'.load, exact'.metrics.custom_reads, exact'.metrics.perf_reads,
      exact'.metrics.uncore_reads])

structure ContainerStats.Exact (w : WireText) (s : ContainerStats) : Prop where
  time : w.ExactTime s.timestamp
  load : ∀ cpu ∈ s.cpu, IsI32 cpu.loadAverage
  metrics : ExactMetrics w s.customMetrics s.perfStats s.perfUncoreStats

theorem ContainerStats.reads {w : WireText} {s : ContainerStats} (exact' : s.Exact w) :
    (ContainerStats.wire w).codec.Reads s s := by
  have cpu : (optional CpuStats.wire.codec).Reads s.cpu s.cpu :=
    CpuStats.wire.optional_reads fun c member => CpuStats.reads (exact'.load c member)
  have hugetlb : (optional (named HugetlbStats.wire.codec)).Reads s.hugetlb s.hugetlb :=
    optional_reads_self (fun _ written => by cases written) fun m _ =>
      named_reads fun e _ => HugetlbStats.reads e.2
  apply (ContainerStats.wire w).reads
  simp [ContainerStats.wire, WireText.time_reads exact'.time, cpu, hugetlb,
    exact'.metrics.custom_reads, exact'.metrics.perf_reads, exact'.metrics.uncore_reads]

structure ContainerInfo.Exact (w : WireText) (info : ContainerInfo) : Prop where
  created : w.ExactTime info.spec.creationTime
  stats : ∀ s ∈ info.stats, s.Exact w

theorem ContainerInfo.reads {w : WireText} {info : ContainerInfo} (exact' : info.Exact w) :
    (ContainerInfo.wire w).codec.Reads info info := by
  have stats : (list (ContainerStats.wire w).codec).Reads info.stats info.stats :=
    list_reads_self fun s member => ContainerStats.reads (exact'.stats s member)
  apply (ContainerInfo.wire w).reads
  simp [ContainerInfo.wire, ContainerSpec.reads exact'.created, stats]

@[simp] theorem DiskStats.reads (r : DiskStats) : DiskStats.wire.codec.Reads r r :=
  DiskStats.wire.reads (by simp [DiskStats.wire])

@[simp] theorem MachineFsStats.reads (r : MachineFsStats) :
    MachineFsStats.wire.codec.Reads r r :=
  MachineFsStats.wire.reads (by simp [MachineFsStats.wire])

structure MachineStats.Exact (w : WireText) (s : MachineStats) : Prop where
  time : w.ExactTime s.timestamp
  load : ∀ cpu ∈ s.cpu, IsI32 cpu.loadAverage

theorem MachineStats.reads {w : WireText} {s : MachineStats} (exact' : s.Exact w) :
    (MachineStats.wire w).codec.Reads s s := by
  have cpu : (optional CpuStats.wire.codec).Reads s.cpu s.cpu :=
    CpuStats.wire.optional_reads fun c member => CpuStats.reads (exact'.load c member)
  apply (MachineStats.wire w).reads
  simp [MachineStats.wire, WireText.time_reads exact'.time, cpu]

structure ProcessInfo.Exact (w : PayloadText) (r : ProcessInfo) : Prop where
  pid : IsI64 r.pid
  ppid : IsI64 r.ppid
  fdCount : IsI64 r.fdCount
  psr : IsI64 r.psr
  percentCpu : w.ExactSingle r.percentCpu
  percentMemory : w.ExactSingle r.percentMemory

theorem ProcessInfo.reads {w : PayloadText} {r : ProcessInfo} (exact' : r.Exact w) :
    (ProcessInfo.wire w).codec.Reads r r :=
  (ProcessInfo.wire w).reads (by
    simp [ProcessInfo.wire, int64_reads exact'.pid, int64_reads exact'.ppid,
      int64_reads exact'.fdCount, int64_reads exact'.psr,
      PayloadText.single_reads exact'.percentCpu, PayloadText.single_reads exact'.percentMemory])

@[simp] theorem Percentiles.reads (r : Percentiles) : Percentiles.wire.codec.Reads r r :=
  Percentiles.wire.reads (by simp [Percentiles.wire])

theorem Usage.reads {r : Usage} (complete : IsI32 r.percentComplete) :
    Usage.wire.codec.Reads r r :=
  Usage.wire.reads (by simp [Usage.wire, i32_reads complete])

@[simp] theorem InstantUsage.reads (r : InstantUsage) : InstantUsage.wire.codec.Reads r r :=
  InstantUsage.wire.reads (by simp [InstantUsage.wire])

structure DerivedStats.Exact (w : WireText) (s : DerivedStats) : Prop where
  time : w.ExactTime s.timestamp
  minute : IsI32 s.minuteUsage.percentComplete
  hour : IsI32 s.hourUsage.percentComplete
  day : IsI32 s.dayUsage.percentComplete

theorem DerivedStats.reads {w : WireText} {s : DerivedStats} (exact' : s.Exact w) :
    (DerivedStats.wire w).codec.Reads s s :=
  (DerivedStats.wire w).reads (by
    simp [DerivedStats.wire, WireText.time_reads exact'.time, Usage.reads exact'.minute,
      Usage.reads exact'.hour, Usage.reads exact'.day])

theorem FsInfo.reads {w : WireText} {r : FsInfo} (time : w.ExactTime r.timestamp) :
    (FsInfo.wire w).codec.Reads r r := by
  have labels : (optional (list str)).Reads r.labels r.labels :=
    optional_reads_self (fun _ written => by cases written) fun l _ =>
      list_reads_self fun s _ => str_reads s
  apply (FsInfo.wire w).reads
  simp [FsInfo.wire, WireText.time_reads time, labels]

end V2

/-! ## Payloads -/

namespace Payload

/-- What a client that knows what kind of answer it asked for reads. -/
def reread (w : PayloadText) (p : Payload) (j : Json SerdeStr Float) : Option Payload :=
  match p with
  | .machine _ => none
  | .container _ => ((ContainerInfo.wire w.toWireText).codec.dec j).map .container
  | .containers _ => ((list (ContainerInfo.wire w.toWireText).codec).dec j).map .containers
  | .docker _ =>
      ((named (ContainerInfo.wire w.toWireText).codec).dec j).map fun m => .docker m.toList
  | .events _ => ((list (Event.wire w.toWireText).codec).dec j).map .events
  | .version _ => (str.dec j).map .version
  | .attributes _ => none
  | .stats _ => ((named (V2.ContainerInfo.wire w.toWireText).codec).dec j).map .stats
  | .deprecatedStats _ =>
      ((named (list (V2.DeprecatedContainerStats.wire w.toWireText).codec)).dec j).map
        .deprecatedStats
  | .machineStats _ => ((list (V2.MachineStats.wire w.toWireText).codec).dec j).map .machineStats
  | .spec _ => ((named (V2.ContainerSpec.wire w.toWireText).codec).dec j).map .spec
  | .summary _ => ((named (V2.DerivedStats.wire w.toWireText).codec).dec j).map .summary
  | .processes _ => ((list (V2.ProcessInfo.wire w).codec).dec j).map .processes
  | .storage _ => ((list (V2.FsInfo.wire w.toWireText).codec).dec j).map .storage
  | .appmetrics => some .appmetrics

/-- Everything in the answer prints exactly. -/
def Exact (w : PayloadText) : Payload → Prop
  | .container info => info.Exact w.toWireText
  | .containers infos => ∀ info ∈ infos, info.Exact w.toWireText
  | .docker infos => ∀ e ∈ infos, e.2.Exact w.toWireText
  | .events found => ∀ e ∈ found, e.Exact w.toWireText
  | .stats infos => ∀ e ∈ infos.toList, e.2.Exact w.toWireText
  | .deprecatedStats samples => ∀ e ∈ samples.toList, ∀ s ∈ e.2, s.Exact w.toWireText
  | .machineStats samples => ∀ s ∈ samples, s.Exact w.toWireText
  | .spec specs => ∀ e ∈ specs.toList, w.ExactTime e.2.creationTime
  | .summary summaries => ∀ e ∈ summaries.toList, e.2.Exact w.toWireText
  | .processes rows => ∀ r ∈ rows, r.Exact w
  | .storage rows => ∀ r ∈ rows, w.ExactTime r.timestamp
  | _ => True

/-- The map of runtime containers comes back in the order of their names. -/
def sorted : Payload → Payload
  | .docker infos => .docker (SortedMap.ofList infos).toList
  | p => p

variable {w : PayloadText}

theorem docker_reads {infos : List (String × ContainerInfo)}
    (exact' : ∀ e ∈ infos, e.2.Exact w.toWireText) :
    (named (ContainerInfo.wire w.toWireText).codec).dec
        (.obj (infos.map fun e => (e.1, (ContainerInfo.wire w.toWireText).codec.enc e.2))) =
      some (SortedMap.ofList infos) := by
  have entries := @mapM_of_forall₂ _ _ _
    (fun e => (e.1, (ContainerInfo.wire w.toWireText).codec.enc e.2))
    (fun e => (some e.1).bind fun k =>
      ((ContainerInfo.wire w.toWireText).codec.dec e.2).map fun v => (k, v)) infos infos
    (List.forall₂_same.mpr fun e member => by
      have read : (ContainerInfo.wire w.toWireText).codec.dec
          ((ContainerInfo.wire w.toWireText).codec.enc e.2) = some e.2 :=
        ContainerInfo.reads (exact' e member)
      rw [read, Option.bind_some, Option.map_some])
  unfold named map
  dsimp only
  rw [entries, Option.map_some]

theorem reread_enc {p : Payload} (exact' : p.Exact w) {j : Json SerdeStr Float}
    (written : p.enc w = some j) : p.reread w j = some p.sorted := by
  -- Every kind of answer but the map is read by the codec it was written by.
  have back {τ : Type} {c : Codec SerdeStr Float τ} {v : τ} {make : τ → Payload}
      (reads : c.Reads v v) (isWritten : some (c.enc v) = some j) :
      (c.dec j).map make = some (make v) := by
    rw [← Option.some.inj isWritten, reads, Option.map_some]
  cases p with
  | machine info => cases written
  | container info => exact back (ContainerInfo.reads exact') written
  | containers infos =>
      exact back (list_reads_self fun info member => ContainerInfo.reads (exact' info member))
        written
  | docker infos =>
      cases written
      rw [reread, docker_reads exact']
      rfl
  | events found =>
      exact back (list_reads_self fun e member => Event.reads (exact' e member)) written
  | version text => exact back (str_reads text) written
  | attributes attributes => cases written
  | stats infos =>
      exact back (named_reads fun e member => V2.ContainerInfo.reads (exact' e member)) written
  | deprecatedStats samples =>
      exact back (named_reads fun e member => list_reads_self fun s inEntry =>
        V2.DeprecatedContainerStats.reads (exact' e member s inEntry)) written
  | machineStats samples =>
      exact back (list_reads_self fun s member => V2.MachineStats.reads (exact' s member)) written
  | spec specs =>
      exact back (named_reads fun e member => V2.ContainerSpec.reads (exact' e member)) written
  | summary summaries =>
      exact back (named_reads fun e member => V2.DerivedStats.reads (exact' e member)) written
  | processes rows =>
      exact back (list_reads_self fun r member => V2.ProcessInfo.reads (exact' r member)) written
  | storage rows =>
      exact back (list_reads_self fun r member => V2.FsInfo.reads (exact' r member)) written
  | appmetrics => rfl

end Payload

/-! ## What a server answers -/

/-- Everything the answers are made of prints exactly: what is registered, stored and
recorded, and the time of the request. -/
structure Server.Exact (w : PayloadText) (server : Server) (host : Host) : Prop where
  created : ∀ h ∈ server.manager.handles, w.ExactTime h.spec.creationTime
  stored : ∀ h ∈ server.manager.handles, ∀ s ∈ h.store.buf, s.Exact w.toWireText
  recorded : ∀ e ∈ server.manager.events.events, e.Exact w.toWireText
  now : w.ExactTime host.now
  noUsage : w.ExactSingle 0
  /-- The number of entries of a directory is an `i64`. -/
  entries : ∀ path, ∀ n ∈ host.proc.entries path, n < 2 ^ 63

namespace Server.Exact

variable {w : PayloadText} {server : Server} {host : Host}

theorem mem_inRange {store : TimedStore} {start stop : GoTime} {max : Int} {s : ContainerStats}
    (member : s ∈ store.inRange start stop max) : s ∈ store.buf := by
  have window : ∀ lo hi : Nat, s ∈ (if hi ≤ lo then []
      else (store.buf.take hi).drop
        (if 0 ≤ max ∧ max < ((hi - lo : Nat) : Int) then hi - max.toNat else lo)) →
      s ∈ store.buf := by
    intro lo hi inWindow
    split at inWindow
    · cases inWindow
    · exact List.mem_of_mem_take (List.mem_of_mem_drop inWindow)
  unfold TimedStore.inRange at member
  split at member
  · cases member
  · exact window _ _ member

theorem assembleInfo (exact' : server.Exact w host) {h : ContainerHandle}
    (member : h ∈ server.manager.handles) (req : ContainerInfoRequest) (subcontainers : Bool) :
    (server.manager.assembleInfo h req subcontainers).Exact w.toWireText :=
  ⟨exact'.created h member, fun s inRange => exact'.stored h member s (mem_inRange inRange)⟩

theorem v2Stats (exact' : server.Exact w host) {h : ContainerHandle}
    (member : h ∈ server.manager.handles) (spec : ContainerSpec) (count : Int) :
    ∀ s ∈ V2.v2Stats h spec count, s.Exact w.toWireText := by
  intro s isSample
  obtain ⟨i, inBounds, rfl⟩ := List.mem_mapIdx.mp isSample
  have stored := exact'.stored h member _ (mem_inRange (List.getElem_mem inBounds))
  refine ⟨stored.time, fun cpu isCpu => ?_, stored.metrics⟩
  unfold V2.v2Sample V2.presentIf at isCpu
  dsimp only at isCpu
  split_ifs at isCpu
  · cases isCpu
    exact stored.load
  · cases isCpu

theorem deprecatedStats (exact' : server.Exact w host) {h : ContainerHandle}
    (member : h ∈ server.manager.handles) (spec : ContainerSpec) (count : Int) :
    ∀ s ∈ V2.deprecatedStats h spec count, s.Exact w.toWireText := by
  intro s isSample
  obtain ⟨sample, inSamples, rfl⟩ := List.mem_map.mp isSample
  have sampleExact := exact'.v2Stats member spec count sample inSamples
  refine ⟨sampleExact.time, ?_, sampleExact.metrics⟩
  unfold V2.deprecatedSample
  dsimp only
  cases present : sample.cpu with
  | none => exact ⟨by decide, by decide⟩
  | some cpu => exact sampleExact.load cpu present

theorem derivedStats (exact' : server.Exact w host) {h : ContainerHandle}
    (member : h ∈ server.manager.handles) {s : V2.DerivedStats}
    (derived : V2.derivedStats h.store host.now = some s) : s.Exact w.toWireText := by
  unfold V2.derivedStats at derived
  simp only [Option.bind_eq_bind, Option.bind_eq_some_iff, Option.some.injEq] at derived
  obtain ⟨cpu, _, memory, _, rfl⟩ := derived
  have nothing : IsI32 0 := ⟨by decide, by decide⟩
  refine ⟨?_, ?_, nothing, nothing⟩
  · cases last : (h.store.inRange GoTime.zero GoTime.zero (-1)).getLast? with
    | none => exact exact'.now
    | some s =>
        exact (exact'.stored h member s (mem_inRange (List.mem_of_getLast? last))).time
  · dsimp only
    split_ifs
    · exact ⟨by decide, by decide⟩
    · constructor <;> omega

theorem processRow (exact' : server.Exact w host) {pid : UInt32} {r : V2.ProcessInfo}
    (row : Cadvisor.processRow host.proc pid = some r) : r.Exact w := by
  have column : ∀ field : String, IsI64 ((Str.parseSigned (2 ^ 63) field).getD 0) := by
    intro field
    cases parsed : Str.parseSigned (2 ^ 63) field with
    | none => exact ⟨by decide, by decide⟩
    | some n => exact Str.parseSigned_range parsed
  have fds : ∀ path, IsI64 (((host.proc.entries path).getD 0 : Nat) : Int) := by
    intro path
    cases listed : host.proc.entries path with
    | none => exact ⟨by decide, by decide⟩
    | some n =>
        have small := exact'.entries path n listed
        constructor
        · simp
        · dsimp only [Option.getD_some]
          exact_mod_cast small
  unfold Cadvisor.processRow at row
  dsimp only at row
  split at row
  · cases row
  · split at row
    · cases row
    · cases row
      refine ⟨?_, column _, fds _, column _, exact'.noUsage, exact'.noUsage⟩
      have bound := pid.toNat_lt
      constructor <;> dsimp only <;> omega

theorem storageRows (exact' : server.Exact w host) (params : Params) :
    ∀ r ∈ Cadvisor.storageRows server host params, w.ExactTime r.timestamp := by
  have all : ∀ r ∈ server.storageInfo host, w.ExactTime r.timestamp := by
    intro r member
    obtain ⟨p, _, row⟩ := List.mem_filterMap.mp member
    obtain ⟨u, _, rfl⟩ := Option.map_eq_some_iff.mp row
    exact exact'.now
  intro r member
  unfold Cadvisor.storageRows at member
  split at member
  · exact all r member
  · exact all r (List.mem_of_mem_filter member)

theorem mem_resolve {name : String} {opts : V2.RequestOptions} {found : List ContainerHandle}
    (resolved : V2.resolve server.manager name opts = .ok found) :
    ∀ h ∈ found, h ∈ server.manager.handles := by
  intro h member
  unfold V2.resolve at resolved
  split at resolved
  · dsimp only at resolved
    split at resolved
    · cases resolved
    · cases resolved
      exact List.mem_of_mem_filter member
  · split at resolved
    · cases resolved
    · rename_i handle isHandle
      split at resolved
      · cases resolved
        rw [List.mem_singleton.mp member]
        exact List.mem_of_find?_eq_some isHandle
      · cases resolved
        exact List.mem_of_mem_filter (List.mem_mergeSort.mp member)

end Server.Exact

def Answer.Exact (w : PayloadText) (a : Answer) : Prop := ∀ p, a.body = .json p → p.Exact w

section

variable {w : PayloadText} {server : Server} {host : Host}

theorem exact_json {p : Payload} (exact' : p.Exact w) : (json p).Exact w := by
  intro q isJson
  cases isJson
  exact exact'

theorem exact_plain (status : Nat) (text : String) : (plain status text).Exact w := by
  intro q isJson
  cases isJson

theorem exact_found {α ε : Type} {result : Except ε α} {payload : α → Payload}
    (failure : ε → String) (each : ∀ v, result = .ok v → (payload v).Exact w) :
    (found result payload failure).Exact w := by
  cases result with
  | ok v => exact exact_json (each v rfl)
  | error e => exact exact_plain 500 _

theorem exact_events (exact' : server.Exact w host) (t : ApiText) (containerName : String)
    (params : Params) : (handleEventsAnswer t server containerName params).Exact w := by
  unfold handleEventsAnswer handleEvents
  dsimp only
  split
  · rename_i found answered
    split at answered
    · cases answered
      apply exact_json
      intro e member
      exact exact'.recorded e (List.mem_of_mem_filter (List.mem_of_mem_drop member))
    · cases answered
  · intro q isJson
    cases isJson

theorem exact_handleV1 (exact' : server.Exact w host) (t : ApiText)
    (version requestType containerName : String) (params : Params) (body : List UInt8) :
    (handleV1 t server version requestType containerName params body).Exact w := by
  unfold handleV1
  dsimp only
  split_ifs
  · exact exact_plain 400 _
  · exact exact_json trivial
  · apply exact_found
    intro info served
    unfold Manager.containerInfo at served
    split at served
    · cases served
    · rename_i handle isHandle
      cases served
      exact exact'.assembleInfo (List.mem_of_find?_eq_some isHandle) _ _
  · apply exact_found
    intro infos served
    unfold Manager.subcontainersInfo at served
    split at served
    · cases served
    · cases served
      refine List.forall_mem_map.mpr fun h member => exact'.assembleInfo ?_ _ _
      exact List.mem_of_mem_filter (List.mem_mergeSort.mp member)
  · apply exact_found
    intro infos served
    unfold Manager.dockerRequest Manager.dockerContainers at served
    dsimp only at served
    split at served
    · cases served
    · cases served
      exact List.forall_mem_map.mpr fun h member =>
        exact'.assembleInfo (List.mem_of_mem_filter member) _ _
  · exact exact_events exact' t containerName params
  · exact exact_plain 500 _

theorem byName_each {α : Type} {handles : List ContainerHandle} {value : ContainerHandle → α}
    {P : α → Prop} (each : ∀ h ∈ handles, P (value h)) :
    ∀ e ∈ (byName handles value).toList, P e.2 := by
  intro e member
  obtain ⟨h, isHandle, rfl⟩ := List.mem_map.mp (SortedMap.mem_of_mem_ofList member)
  exact each h isHandle

theorem exact_statsPayload (exact' : server.Exact w host) (version : String)
    (opts : V2.RequestOptions) {handles : List ContainerHandle}
    (registered : ∀ h ∈ handles, h ∈ server.manager.handles) :
    (statsPayload version opts handles).Exact w := by
  unfold statsPayload
  split_ifs
  · refine byName_each fun h member => ?_
    have isRegistered := registered h (List.mem_of_mem_filter member)
    exact ⟨exact'.created h isRegistered, exact'.v2Stats isRegistered _ _⟩
  · have each : ∀ h ∈ handles, ∀ s ∈ V2.deprecatedStats h h.spec opts.count,
        s.Exact w.toWireText := fun h member =>
      exact'.deprecatedStats (registered h member) _ _
    exact byName_each (P := fun samples => ∀ s ∈ samples,
      V2.DeprecatedContainerStats.Exact w.toWireText s) each

theorem exact_summaries (exact' : server.Exact w host) {handles : List ContainerHandle}
    (registered : ∀ h ∈ handles, h ∈ server.manager.handles)
    {all : SortedMap String V2.DerivedStats} (summed : summaries host handles = some all) :
    (Payload.summary all).Exact w := by
  unfold summaries at summed
  obtain ⟨rows, isRows, rfl⟩ := Option.map_eq_some_iff.mp summed
  intro e member
  have inRows := SortedMap.mem_of_mem_ofList member
  obtain ⟨h, isHandle, derived⟩ :=
    Traverse.exists_of_mem_mapM isRows inRows
  obtain ⟨s, isDerived, rfl⟩ := Option.map_eq_some_iff.mp derived
  exact exact'.derivedStats (registered h isHandle) isDerived

theorem exact_handleV2 (exact' : server.Exact w host) (t : ApiText)
    (version resource containerName : String) (params : Params) :
    ∀ a ∈ handleV2 t server host version resource containerName params, a.Exact w := by
  intro a answered
  unfold handleV2 at answered
  cases parsed : V2.RequestOptions.parse t params with
  | error e =>
      rw [parsed] at answered
      cases answered
      exact exact_plain 500 _
  | ok opts =>
      rw [parsed] at answered
      dsimp only at answered
      have rows : ∀ r ∈ processList server.manager host.files host.proc containerName,
          r.Exact w := by
        intro r member
        unfold processList at member
        split at member
        · cases member
        · obtain ⟨pid, _, row⟩ := List.mem_filterMap.mp member
          exact exact'.processRow row
      split_ifs at answered
      · cases answered
        exact exact_json trivial
      · cases answered
        exact exact_json trivial
      · cases answered
        exact exact_json trivial
      · cases answered
        exact exact_found _ fun handles resolved =>
          exact_statsPayload exact' version opts (Server.Exact.mem_resolve resolved)
      · split at answered
        · cases answered
          exact exact_plain 500 _
        · rename_i root isRoot
          cases answered
          have registered := List.mem_of_find?_eq_some isRoot
          refine exact_json (List.forall_mem_map.mpr fun s member => ?_)
          have sample := exact'.v2Stats registered root.spec 10 s member
          exact ⟨sample.time, sample.load⟩
      · cases answered
        refine exact_found _ fun handles resolved => ?_
        have each : ∀ h ∈ handles, w.ExactTime (V2.v2Spec h).creationTime := fun h member =>
          exact'.created h (Server.Exact.mem_resolve resolved h member)
        exact byName_each (P := fun spec => w.ExactTime (V2.ContainerSpec.creationTime spec)) each
      · split at answered
        · cases answered
          exact exact_plain 500 _
        · rename_i handles resolved
          obtain ⟨all, summed, rfl⟩ := Option.map_eq_some_iff.mp answered
          exact exact_json (exact_summaries exact' (Server.Exact.mem_resolve resolved) summed)
      · cases answered
        exact exact_json rows
      · cases answered
        exact exact_json (exact'.storageRows params)
      · cases answered
        exact exact_json trivial
      · cases answered
        exact exact_plain 500 _

theorem exact_dispatch (exact' : server.Exact w host) (t : ApiText) (rest : String)
    (rawQuery : Option String) (body : List UInt8) :
    ∀ a ∈ dispatch t server host rest rawQuery body, a.Exact w := by
  intro a answered
  unfold dispatch at answered
  dsimp only at answered
  split_ifs at answered
  · cases answered
    exact exact_handleV1 exact' t _ _ _ _ body
  · cases answered
    exact exact_events exact' t _ _
  · cases answered
    exact exact_plain 400 _
  · exact exact_handleV2 exact' t _ _ _ _ a answered
  · cases answered
    exact exact_plain 500 _

/-- Whatever is asked, JSON that answers it is read back as what it was written from. -/
theorem dispatch_reads_back (exact' : server.Exact w host) (t : ApiText) (rest : String)
    (rawQuery : Option String) (body : List UInt8) {a : Answer} {p : Payload}
    (answered : dispatch t server host rest rawQuery body = some a) (isJson : a.body = .json p)
    {j : Json SerdeStr Float} (written : p.enc w = some j) : p.reread w j = some p.sorted :=
  p.reread_enc (exact_dispatch exact' t rest rawQuery body a answered p isJson) written

end

/-- The texts of the zero time, and of floats that are not rounded. -/
def zeroPayloadText : PayloadText where
  toWireText := ContainerStats.zeroText
  rereadSingle _ := some 0
  round _ := 0

def busyStats : ContainerStats := { cpu := { usage := { total := 123, perCpu := [100, 23] } } }

theorem minute_bounded : 60 * 1000000000 < 2 ^ 64 * 1000000000 := by
  decide

def rootServer (samples : List ContainerStats) : Server where
  manager :=
    { cfg := ⟨⟨60 * 1000000000, minute_bounded⟩, []⟩
      containers :=
        ⟨[ { name := "/"
             reference := { name := "/" }
             spec := { hasCpu := true }
             store := ⟨samples, ⟨60 * 1000000000, minute_bounded⟩⟩
             initPid := none
             reportsNetwork := true
             rootfsDiff := none
             fsUsage := (0, 0) } ], List.nodup_singleton _⟩
      machineInfo := {}
      events := ⟨[], []⟩ }
  cadvisorVersion := ""
  versionInfo := {}
  fs := ⟨[]⟩

def rootHost : Host where
  now := GoTime.zero
  statvfs _ := none
  diskstats := none
  files _ := .notFound
  proc := ⟨fun _ => none, fun _ => none⟩

def plainText : ApiText where
  rfc3339Nano _ := "0001-01-01T00:00:00Z"
  parseFromRfc3339 _ := none
  approx _ := 0
  parse _ := none
  debug s := s
  hostError _ := ""
  parseIntError s := s

theorem zero_exact : zeroPayloadText.ExactTime GoTime.zero := by
  unfold WireText.ExactTime
  decide +kernel

theorem rootServer_exact : (rootServer [busyStats]).Exact zeroPayloadText rootHost where
  created := List.forall_mem_singleton.mpr zero_exact
  stored := List.forall_mem_singleton.mpr (List.forall_mem_singleton.mpr
    { time := zero_exact
      load := ⟨by decide, by decide⟩
      metrics :=
        ⟨List.forall_mem_nil _, List.forall_mem_nil _, List.forall_mem_nil _⟩ })
  recorded := List.forall_mem_nil _
  now := zero_exact
  noUsage := ⟨0, rfl, rfl⟩
  entries _ _ listed := absurd listed (Option.not_mem_none _)

theorem dispatch_reads_back_root : ∃ p j,
    dispatch plainText (rootServer [busyStats]) rootHost "v2.0/stats" none [] = some (json p) ∧
      p.enc zeroPayloadText = some j ∧ p.reread zeroPayloadText j = some p.sorted :=
  ⟨_, _, rfl, rfl, dispatch_reads_back rootServer_exact plainText "v2.0/stats" none [] rfl rfl rfl⟩

end Cadvisor
