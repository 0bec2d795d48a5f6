import Cadvisor.Model.Wire

/-!
# Container stats, read back

Each record reads back what was written of it: no two of its keys are the same, and
what it skips is its default.  Only a custom metric can come back with another float:
a negative zero is skipped, and comes back as the zero it is equal to.
-/

set_option autoImplicit false

namespace Cadvisor

open Serde

/-! ## What records are made of -/

@[simp] theorem isZero_omits_u64 (v : UInt64) : Omits isZero v 0 v :=
  omits_self fun zero => eq_of_beq zero

@[simp] theorem isZero_omits_i64 (v : Int64) : Omits isZero v 0 v :=
  omits_self fun zero => eq_of_beq zero

@[simp] theorem str_reads (s : String) : str.Reads s s := by
  apply string_reads
  intro s
  unfold SerdeStr.written
  split_ifs <;> rfl

@[simp] theorem named_reads {ν : Type} {c : Codec SerdeStr Float ν} {m : SortedMap String ν}
    (all : ∀ e ∈ m.toList, c.Reads e.2 e.2) : (named c).Reads m m :=
  map_reads_self (fun _ => rfl) all

theorem readNode_toString (node : Fin 256) : readNode (toString node.val) = some node := by
  rw [readNode, Str.parseDigits_toString, Option.bind_some, dif_pos node.isLt, if_pos rfl]

@[simp] theorem byNode_reads {ν : Type} {c : Codec SerdeStr Float ν}
    {m : SortedMap (Fin 256) ν} (all : ∀ e ∈ m.toList, c.Reads e.2 e.2) : (byNode c).Reads m m :=
  map_reads_self readNode_toString all

/-! ## Records without floats -/

@[simp] theorem LoadStats.reads (r : LoadStats) : LoadStats.wire.codec.Reads r r :=
  LoadStats.wire.reads (by simp [LoadStats.wire])

@[simp] theorem CpuUsage.reads (r : CpuUsage) : CpuUsage.wire.codec.Reads r r :=
  CpuUsage.wire.reads (by simp [CpuUsage.wire])

@[simp] theorem CpuCFS.reads (r : CpuCFS) : CpuCFS.wire.codec.Reads r r :=
  CpuCFS.wire.reads (by simp [CpuCFS.wire])

@[simp] theorem CpuSchedstat.reads (r : CpuSchedstat) : CpuSchedstat.wire.codec.Reads r r :=
  CpuSchedstat.wire.reads (by simp [CpuSchedstat.wire])

@[simp] theorem PerDiskStats.reads (r : PerDiskStats) : PerDiskStats.wire.codec.Reads r r :=
  PerDiskStats.wire.reads (by simp [PerDiskStats.wire])

@[simp] theorem DiskIoStats.reads (r : DiskIoStats) : DiskIoStats.wire.codec.Reads r r :=
  DiskIoStats.wire.reads (by simp [DiskIoStats.wire])

@[simp] theorem HugetlbStats.reads (r : HugetlbStats) : HugetlbStats.wire.codec.Reads r r :=
  HugetlbStats.wire.reads (by simp [HugetlbStats.wire])

@[simp] theorem MemoryNumaStats.reads (r : MemoryNumaStats) :
    MemoryNumaStats.wire.codec.Reads r r :=
  MemoryNumaStats.wire.reads (by simp [MemoryNumaStats.wire])

@[simp] theorem MemoryStatsMemoryData.reads (r : MemoryStatsMemoryData) :
    MemoryStatsMemoryData.wire.codec.Reads r r :=
  MemoryStatsMemoryData.wire.reads (by simp [MemoryStatsMemoryData.wire])

@[simp] theorem MemoryStats.reads (r : MemoryStats) : MemoryStats.wire.codec.Reads r r :=
  MemoryStats.wire.reads (by simp [MemoryStats.wire])

@[simp] theorem InterfaceStats.reads (r : InterfaceStats) : InterfaceStats.wire.codec.Reads r r :=
  InterfaceStats.wire.reads (by simp [InterfaceStats.wire])

@[simp] theorem TcpStat.reads (r : TcpStat) : TcpStat.wire.codec.Reads r r :=
  TcpStat.wire.reads (by simp [TcpStat.wire])

@[simp] theorem TcpAdvancedStat.reads (r : TcpAdvancedStat) :
    TcpAdvancedStat.wire.codec.Reads r r :=
  TcpAdvancedStat.wire.reads (by simp [TcpAdvancedStat.wire])

@[simp] theorem UdpStat.reads (r : UdpStat) : UdpStat.wire.codec.Reads r r :=
  UdpStat.wire.reads (by simp [UdpStat.wire])

@[simp] theorem NetworkStats.reads (r : NetworkStats) : NetworkStats.wire.codec.Reads r r :=
  NetworkStats.wire.reads (by simp [NetworkStats.wire, InterfaceStats.wire])
    (by simp [NetworkStats.wire])

@[simp] theorem FsStats.reads (r : FsStats) : FsStats.wire.codec.Reads r r :=
  FsStats.wire.reads (by simp [FsStats.wire])

@[simp] theorem AcceleratorStats.reads (r : AcceleratorStats) :
    AcceleratorStats.wire.codec.Reads r r :=
  AcceleratorStats.wire.reads (by simp [AcceleratorStats.wire])

@[simp] theorem UlimitSpec.reads (r : UlimitSpec) : UlimitSpec.wire.codec.Reads r r :=
  UlimitSpec.wire.reads (by simp [UlimitSpec.wire])

@[simp] theorem ProcessStats.reads (r : ProcessStats) : ProcessStats.wire.codec.Reads r r :=
  ProcessStats.wire.reads (by simp [ProcessStats.wire])

@[simp] theorem MemoryBandwidthStats.reads (r : MemoryBandwidthStats) :
    MemoryBandwidthStats.wire.codec.Reads r r :=
  MemoryBandwidthStats.wire.reads (by simp [MemoryBandwidthStats.wire])

@[simp] theorem CacheStats.reads (r : CacheStats) : CacheStats.wire.codec.Reads r r :=
  CacheStats.wire.reads (by simp [CacheStats.wire])

@[simp] theorem ResctrlStats.reads (r : ResctrlStats) : ResctrlStats.wire.codec.Reads r r :=
  ResctrlStats.wire.reads (by simp [ResctrlStats.wire])

@[simp] theorem CpuSetStats.reads (r : CpuSetStats) : CpuSetStats.wire.codec.Reads r r :=
  CpuSetStats.wire.reads (by simp [CpuSetStats.wire])

theorem CpuStats.reads {r : CpuStats} (isI32 : -2 ^ 31 ≤ r.loadAverage ∧ r.loadAverage < 2 ^ 31) :
    CpuStats.wire.codec.Reads r r :=
  CpuStats.wire.reads (by simp [CpuStats.wire, i32_reads isI32])

/-! ## Floats and times -/

theorem beq_self_of_number {x : Float} (number : x.isNaN = false) : (x == x) = true := by
  have unfolded : (x == x) = (x.toModel.unpack.compare x.toModel.unpack == some .eq) := rfl
  have isNumber : x.toModel.unpack.isNaN = false := number
  rw [unfolded]
  cases shape : x.toModel.unpack with
  | notANumber =>
      rw [shape] at isNumber
      cases isNumber
  | infinity s => cases s <;> rfl
  | zero s => rfl
  | finite s m e pos =>
      have same : (compare e e).then (compare m m) = .eq := by simp
      cases s with
      | positive =>
          have compared : (Float.Model.UnpackedFloat.finite .positive m e pos).compare
              (.finite .positive m e pos) = some ((compare e e).then (compare m m)) := rfl
          rw [compared, same]
          rfl
      | negative =>
          have compared : (Float.Model.UnpackedFloat.finite .negative m e pos).compare
              (.finite .negative m e pos) = some ((compare e e).then (compare m m)).swap := rfl
          rw [compared, same]
          rfl

namespace WireText

variable {w : WireText}

/-- A time that prints as a text which reads as it, without anything escaped. -/
def ExactTime (w : WireText) (t : GoTime) : Prop :=
  GoTime.deserialize w.parseFromRfc3339 (SerdeStr.written (w.rfc3339Nano t)) = some t

def ExactFloat (w : WireText) (x : Float) : Prop := w.reread x = some x

theorem time_reads {t : GoTime} (exact' : w.ExactTime t) : w.time.Reads t t := exact'

theorem float_reads {x : Float} (exact' : w.ExactFloat x) : w.float.Reads x x :=
  floating_reads exact'

theorem beq_self_of_exact {x : Float} (exact' : w.ExactFloat x) : (x == x) = true := by
  apply beq_self_of_number
  by_contra notNumber
  have isNaN : x.isNaN = true := by simpa using notNumber
  rw [ExactFloat, w.notFinite x (by rw [isNaN, Bool.true_or])] at exact'
  cases exact'

end WireText

/-- `==` of the derived `PartialEq`: floats are compared as floats. -/
def MetricVal.Eq (a b : MetricVal) : Prop :=
  a.label = b.label ∧ a.labels = b.labels ∧ a.timestamp = b.timestamp ∧ a.intValue = b.intValue ∧
    (a.floatValue == b.floatValue) = true

def PerfValue.Eq (a b : PerfValue) : Prop :=
  (a.scalingRatio == b.scalingRatio) = true ∧ a.value = b.value ∧ a.name = b.name

def PerfStat.Eq (a b : PerfStat) : Prop := a.perfValue.Eq b.perfValue ∧ a.cpu = b.cpu

def PerfUncoreStat.Eq (a b : PerfUncoreStat) : Prop :=
  a.perfValue.Eq b.perfValue ∧ a.socket = b.socket ∧ a.pmu = b.pmu

def ContainerStats.Eq (a b : ContainerStats) : Prop :=
  { b with
    customMetrics := a.customMetrics
    perfStats := a.perfStats
    perfUncoreStats := a.perfUncoreStats } = a ∧
    MapForall₂ (List.Forall₂ MetricVal.Eq) a.customMetrics b.customMetrics ∧
      List.Forall₂ PerfStat.Eq a.perfStats b.perfStats ∧
        List.Forall₂ PerfUncoreStat.Eq a.perfUncoreStats b.perfUncoreStats

/-! ## Records with floats -/

/-- What comes back of a metric: a zero without its sign. -/
def MetricVal.back (v : MetricVal) : MetricVal :=
  { v with floatValue := if isZero v.floatValue then 0 else v.floatValue }

theorem MetricVal.reads {w : WireText} {v : MetricVal} (time : w.ExactTime v.timestamp)
    (float : w.ExactFloat v.floatValue) : (MetricVal.wire w).codec.Reads v v.back := by
  have omitted : Omits isZero v.floatValue 0 v.back.floatValue := by
    intro zero
    rw [MetricVal.back, if_pos zero]
  have kept : isZero v.floatValue = false → w.float.Reads v.floatValue v.back.floatValue := by
    intro nonzero
    rw [MetricVal.back, if_neg (by rw [nonzero]; exact Bool.false_ne_true)]
    exact WireText.float_reads float
  have others : v.back = { v with floatValue := v.back.floatValue } := rfl
  generalize v.back.floatValue = x at omitted kept others
  rw [others]
  apply (MetricVal.wire w).reads
  simpa [MetricVal.wire, WireText.time_reads time, omitted] using kept

theorem MetricVal.eq_back {w : WireText} {v : MetricVal} (float : w.ExactFloat v.floatValue) :
    v.Eq v.back := by
  refine ⟨rfl, rfl, rfl, rfl, ?_⟩
  cases zero : isZero v.floatValue with
  | true =>
      rw [MetricVal.back, if_pos zero]
      exact zero
  | false =>
      rw [MetricVal.back, if_neg (by rw [zero]; exact Bool.false_ne_true)]
      exact WireText.beq_self_of_exact float

theorem PerfValue.moves {w : WireText} {v : PerfValue} (float : w.ExactFloat v.scalingRatio) :
    (PerfValue.wire w).Moves v v := by
  simp [PerfValue.wire, WireText.float_reads float]

theorem PerfStat.reads {w : WireText} {v : PerfStat}
    (float : w.ExactFloat v.perfValue.scalingRatio) : (PerfStat.wire w).codec.Reads v v :=
  (PerfStat.wire w).reads (PerfValue.moves float) (by simp [PerfStat.wire])

theorem PerfUncoreStat.reads {w : WireText} {v : PerfUncoreStat}
    (float : w.ExactFloat v.perfValue.scalingRatio) : (PerfUncoreStat.wire w).codec.Reads v v :=
  (PerfUncoreStat.wire w).reads (PerfValue.moves float)
    (by simp [PerfUncoreStat.wire])

namespace ContainerStats

def metrics (s : ContainerStats) : List MetricVal := s.customMetrics.toList.flatMap Prod.snd

def times (s : ContainerStats) : List GoTime :=
  s.timestamp :: s.metrics.map MetricVal.timestamp

def floats (s : ContainerStats) : List Float :=
  s.metrics.map MetricVal.floatValue ++
    (s.perfStats.map (·.perfValue.scalingRatio) ++
      s.perfUncoreStats.map (·.perfValue.scalingRatio))

def back (s : ContainerStats) : ContainerStats :=
  { s with customMetrics := s.customMetrics.mapValues (List.map MetricVal.back) }

theorem customMetrics_back {r : MetricVal → MetricVal → Prop} {s : ContainerStats}
    (all : ∀ v ∈ s.metrics, r v v.back) :
    MapForall₂ (List.Forall₂ r) s.customMetrics s.back.customMetrics := by
  apply List.forall₂_map_right_iff.mpr
  apply List.forall₂_same.mpr
  intro entry member
  refine ⟨rfl, List.forall₂_map_right_iff.mpr (List.forall₂_same.mpr fun v inEntry => all v ?_)⟩
  exact List.mem_flatMap.mpr ⟨entry, member, inEntry⟩

theorem reads_back {w : WireText} {s : ContainerStats}
    (isI32 : -2 ^ 31 ≤ s.cpu.loadAverage ∧ s.cpu.loadAverage < 2 ^ 31)
    (times : ∀ t ∈ s.times, w.ExactTime t) (floats : ∀ x ∈ s.floats, w.ExactFloat x) :
    (wire w).codec.Reads s s.back := by
  have metricTimes : ∀ v ∈ s.metrics, w.ExactTime v.timestamp := fun v member =>
    times _ (List.mem_cons_of_mem _ (List.mem_map_of_mem member))
  have metricFloats : ∀ v ∈ s.metrics, w.ExactFloat v.floatValue := fun v member =>
    floats _ (List.mem_append_left _ (List.mem_map_of_mem member))
  have perf : (list (PerfStat.wire w).codec).Reads s.perfStats s.perfStats :=
    list_reads_self fun p member => PerfStat.reads (floats _ (List.mem_append_right _
      (List.mem_append_left _ (List.mem_map_of_mem member))))
  have uncore : (list (PerfUncoreStat.wire w).codec).Reads s.perfUncoreStats s.perfUncoreStats :=
    list_reads_self fun p member => PerfUncoreStat.reads (floats _ (List.mem_append_right _
      (List.mem_append_right _ (List.mem_map_of_mem member))))
  have custom : (named (list (MetricVal.wire w).codec)).Reads s.customMetrics
      s.back.customMetrics := by
    apply map_reads (fun _ => rfl)
    apply (customMetrics_back (r := (MetricVal.wire w).codec.Reads) fun v member =>
      MetricVal.reads (metricTimes v member) (metricFloats v member)).imp
    rintro entry entry' ⟨sameKey, values⟩
    exact ⟨sameKey, list_reads values⟩
  have omitted : Omits SortedMap.isEmpty s.customMetrics SortedMap.empty s.back.customMetrics := by
    intro none
    rw [back, SortedMap.eq_empty_of_isEmpty none]
    rfl
  have others : s.back = { s with customMetrics := s.back.customMetrics } := rfl
  generalize s.back.customMetrics = customMetrics at custom omitted others
  rw [others]
  apply (wire w).reads
  simp [wire, WireText.time_reads (times _ (List.mem_cons_self ..)),
    CpuStats.reads isI32, perf, uncore, custom, omitted]

theorem eq_back {w : WireText} {s : ContainerStats} (floats : ∀ x ∈ s.floats, w.ExactFloat x) :
    s.Eq s.back := by
  have value : ∀ {v : PerfValue}, w.ExactFloat v.scalingRatio → v.Eq v := fun exact' =>
    ⟨WireText.beq_self_of_exact exact', rfl, rfl⟩
  refine ⟨rfl, customMetrics_back fun v member => ?_, List.forall₂_same.mpr fun p member => ?_,
    List.forall₂_same.mpr fun p member => ?_⟩
  · exact MetricVal.eq_back (floats _ (List.mem_append_left _ (List.mem_map_of_mem member)))
  · exact ⟨value (floats _ (List.mem_append_right _ (List.mem_append_left _
      (List.mem_map_of_mem member)))), rfl⟩
  · exact ⟨value (floats _ (List.mem_append_right _ (List.mem_append_right _
      (List.mem_map_of_mem member)))), rfl, rfl⟩

/-- Stats with times and floats that print and read exactly are read back from what was
written of them, as an equal value. -/
theorem round_trip_preserves_value (w : WireText) (s : ContainerStats)
    (isI32 : -2 ^ 31 ≤ s.cpu.loadAverage ∧ s.cpu.loadAverage < 2 ^ 31)
    (times : ∀ t ∈ s.times, w.ExactTime t) (floats : ∀ x ∈ s.floats, w.ExactFloat x) :
    ∃ back, (wire w).codec.dec ((wire w).codec.enc s) = some back ∧ s.Eq back :=
  ⟨s.back, reads_back isI32 times floats, eq_back floats⟩

/-- The texts of the zero time and of floats that are not rounded. -/
def zeroText : WireText where
  rfc3339Nano _ := "0001-01-01T00:00:00Z"
  parseFromRfc3339 s := if s = "0001-01-01T00:00:00Z" then some GoTime.zero else none
  reread x := if (x.isNaN || x.isInf) = true then none else some x
  notFinite _ none := if_pos none

def hugePages : HugetlbStats := { usage := 1 }

/-- A metric with a negative zero, huge pages and the usage of two cores. -/
def sampleStats : ContainerStats :=
  { cpu := { usage := { total := 123, perCpu := [100, 23], user := 60, system := 63 } }
    hugetlb := SortedMap.ofList [("2Mi", hugePages)]
    customMetrics := SortedMap.ofList [("load", [{ label := "a", floatValue := -0.0 }])] }

theorem round_trip_preserves_sample :
    ∃ back, (wire zeroText).codec.dec ((wire zeroText).codec.enc sampleStats) = some back ∧
      sampleStats.Eq back := by
  apply round_trip_preserves_value zeroText sampleStats
  · decide
  · have zero : zeroText.ExactTime GoTime.zero := by
      unfold WireText.ExactTime
      decide +kernel
    exact List.forall_mem_cons.mpr ⟨zero, List.forall_mem_singleton.mpr zero⟩
  · have number : ¬ ((-0.0 : Float).isNaN || (-0.0 : Float).isInf) = true := by decide +kernel
    have negativeZero : zeroText.ExactFloat (-0.0) := by
      unfold WireText.ExactFloat zeroText
      dsimp only
      rw [if_neg number]
    exact List.forall_mem_singleton.mpr negativeZero

end ContainerStats

end Cadvisor
