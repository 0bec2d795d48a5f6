import Cadvisor.Lib.Serde
import Cadvisor.Lib.Str
import Cadvisor.Model.Container

/-!
# Container stats on the wire

Every record with the keys of its fields, and with what of it is skipped.  What a
time and a float are written as is left to the libraries that write them.
-/

set_option autoImplicit false

namespace Cadvisor

open Serde

/-- `ESCAPE` of `serde_json`: the characters that are never written as they are. -/
def isEscaped (c : Char) : Bool := c = '"' ∨ c = '\\' ∨ c.toNat < 0x20

/-- A string is lent from its text if nothing in it is escaped. -/
def SerdeStr.written (s : String) : SerdeStr :=
  if s.toList.any isEscaped then .owned s else .borrowed s

def SerdeStr.text : SerdeStr → String
  | .borrowed text => text
  | .owned text => text

def goTime {φ : Type} (rfc3339Nano : GoTime → String)
    (parseFromRfc3339 : String → Option GoTime) : Codec SerdeStr φ GoTime where
  enc t := .str (SerdeStr.written (rfc3339Nano t))
  dec
    | .str s => GoTime.deserialize parseFromRfc3339 s
    | _ => none

/-- What chrono writes of a time and reads of a text, and what `serde_json` reads of the
digits it wrote of a float; it writes none of one that is not finite. -/
structure WireText where
  rfc3339Nano : GoTime → String
  parseFromRfc3339 : String → Option GoTime
  reread : Float → Option Float
  notFinite : ∀ x, (x.isNaN || x.isInf) = true → reread x = none

namespace WireText

def time (w : WireText) : Codec SerdeStr Float GoTime := goTime w.rfc3339Nano w.parseFromRfc3339

def float (w : WireText) : Codec SerdeStr Float Float := floating w.reread Float.ofInt

end WireText

def str : Codec SerdeStr Float String := string SerdeStr.written SerdeStr.text

def named {ν : Type} (c : Codec SerdeStr Float ν) : Codec SerdeStr Float (SortedMap String ν) :=
  map id some c

/-- A `u8` as a key: a JSON integer in quotes. -/
def readNode (key : String) : Option (Fin 256) :=
  (Str.parseDigits key.toList).bind fun n =>
    if fits : n < 256 then (if toString n = key then some ⟨n, fits⟩ else none) else none

def byNode {ν : Type} (c : Codec SerdeStr Float ν) :
    Codec SerdeStr Float (SortedMap (Fin 256) ν) :=
  map (fun node => toString node.val) readNode c

/-- `is_zero`: what Go leaves out as empty. -/
def isZero {τ : Type} [BEq τ] [OfNat τ 0] (v : τ) : Bool := v == 0

def LoadStats.wire : Record SerdeStr Float LoadStats where
  make := LoadStats.mk
  dflt := {}
  fields :=
    .cons "nr_sleeping" u64 (·.nrSleeping) never <|
    .cons "nr_running" u64 (·.nrRunning) never <|
    .cons "nr_stopped" u64 (·.nrStopped) never <|
    .cons "nr_uninterruptible" u64 (·.nrUninterruptible) never <|
    .cons "nr_io_wait" u64 (·.nrIoWait) never <|
    .nil
  nodup := by decide
  complete _ := rfl

def CpuUsage.wire : Record SerdeStr Float CpuUsage where
  make := CpuUsage.mk
  dflt := {}
  fields :=
    .cons "total" u64 (·.total) never <|
    .cons "per_cpu_usage" (list u64) (·.perCpu) List.isEmpty <|
    .cons "user" u64 (·.user) never <|
    .cons "system" u64 (·.system) never <|
    .nil
  nodup := by decide
  complete _ := rfl

def CpuCFS.wire : Record SerdeStr Float CpuCFS where
  make := CpuCFS.mk
  dflt := {}
  fields :=
    .cons "periods" u64 (·.periods) never <|
    .cons "throttled_periods" u64 (·.throttledPeriods) never <|
    .cons "throttled_time" u64 (·.throttledTime) never <|
    .nil
  nodup := by decide
  complete _ := rfl

def CpuSchedstat.wire : Record SerdeStr Float CpuSchedstat where
  make := CpuSchedstat.mk
  dflt := {}
  fields :=
    .cons "run_time" u64 (·.runTime) never <|
    .cons "runqueue_time" u64 (·.runqueueTime) never <|
    .cons "run_periods" u64 (·.runPeriods) never <|
    .nil
  nodup := by decide
  complete _ := rfl

def CpuStats.wire : Record SerdeStr Float CpuStats where
  make := CpuStats.mk
  dflt := {}
  fields :=
    .cons "usage" CpuUsage.wire.codec (·.usage) never <|
    .cons "cfs" CpuCFS.wire.codec (·.cfs) never <|
    .cons "schedstat" CpuSchedstat.wire.codec (·.schedstat) never <|
    .cons "load_average" i32 (·.loadAverage) never <|
    .nil
  nodup := by decide
  complete _ := rfl

def PerDiskStats.wire : Record SerdeStr Float PerDiskStats where
  make := PerDiskStats.mk
  dflt := {}
  fields :=
    .cons "device" str (·.device) never <|
    .cons "major" u64 (·.major) never <|
    .cons "minor" u64 (·.minor) never <|
    .cons "stats" (named u64) (·.stats) never <|
    .nil
  nodup := by decide
  complete _ := rfl

def DiskIoStats.wire : Record SerdeStr Float DiskIoStats where
  make := DiskIoStats.mk
  dflt := {}
  fields :=
    .cons "io_service_bytes" (list PerDiskStats.wire.codec) (·.ioServiceBytes) List.isEmpty <|
    .cons "io_serviced" (list PerDiskStats.wire.codec) (·.ioServiced) List.isEmpty <|
    .cons "io_queued" (list PerDiskStats.wire.codec) (·.ioQueued) List.isEmpty <|
    .cons "sectors" (list PerDiskStats.wire.codec) (·.sectors) List.isEmpty <|
    .cons "io_service_time" (list PerDiskStats.wire.codec) (·.ioServiceTime) List.isEmpty <|
    .cons "io_wait_time" (list PerDiskStats.wire.codec) (·.ioWaitTime) List.isEmpty <|
    .cons "io_merged" (list PerDiskStats.wire.codec) (·.ioMerged) List.isEmpty <|
    .cons "io_time" (list PerDiskStats.wire.codec) (·.ioTime) List.isEmpty <|
    .cons "io_cost_usage" (list PerDiskStats.wire.codec) (·.ioCostUsage) List.isEmpty <|
    .cons "io_cost_wait" (list PerDiskStats.wire.codec) (·.ioCostWait) List.isEmpty <|
    .cons "io_cost_indebt" (list PerDiskStats.wire.codec) (·.ioCostIndebt) List.isEmpty <|
    .cons "io_cost_indelay" (list PerDiskStats.wire.codec) (·.ioCostIndelay) List.isEmpty <|
    .nil
  nodup := by decide
  complete _ := rfl

def HugetlbStats.wire : Record SerdeStr Float HugetlbStats where
  make := HugetlbStats.mk
  dflt := {}
  fields :=
    .cons "usage" u64 (·.usage) isZero <|
    .cons "max_usage" u64 (·.maxUsage) isZero <|
    .cons "failcnt" u64 (·.failcnt) never <|
    .nil
  nodup := by decide
  complete _ := rfl

def MemoryNumaStats.wire : Record SerdeStr Float MemoryNumaStats where
  make := MemoryNumaStats.mk
  dflt := {}
  fields :=
    .cons "file" (byNode u64) (·.file) SortedMap.isEmpty <|
    .cons "anon" (byNode u64) (·.anon) SortedMap.isEmpty <|
    .cons "unevictable" (byNode u64) (·.unevictable) SortedMap.isEmpty <|
    .nil
  nodup := by decide
  complete _ := rfl

def MemoryStatsMemoryData.wire : Record SerdeStr Float MemoryStatsMemoryData where
  make := MemoryStatsMemoryData.mk
  dflt := {}
  fields :=
    .cons "pgfault" u64 (·.pgfault) never <|
    .cons "pgmajfault" u64 (·.pgmajfault) never <|
    .cons "numa_stats" MemoryNumaStats.wire.codec (·.numaStats) never <|
    .nil
  nodup := by decide
  complete _ := rfl

def MemoryStats.wire : Record SerdeStr Float MemoryStats where
  make := MemoryStats.mk
  dflt := {}
  fields :=
    .cons "usage" u64 (·.usage) never <|
    .cons "max_usage" u64 (·.maxUsage) never <|
    .cons "cache" u64 (·.cache) never <|
    .cons "rss" u64 (·.rss) never <|
    .cons "swap" u64 (·.swap) never <|
    .cons "mapped_file" u64 (·.mappedFile) never <|
    .cons "working_set" u64 (·.workingSet) never <|
    .cons "failcnt" u64 (·.failcnt) never <|
    .cons "kernel" u64 (·.kernelUsage) never <|
    .cons "container_data" MemoryStatsMemoryData.wire.codec (·.containerData) never <|
    .cons "hierarchical_data" MemoryStatsMemoryData.wire.codec (·.hierarchicalData) never <|
    .nil
  nodup := by decide
  complete _ := rfl

def InterfaceStats.wire : Record SerdeStr Float InterfaceStats where
  make := InterfaceStats.mk
  dflt := {}
  fields :=
    .cons "name" str (·.name) never <|
    .cons "rx_bytes" u64 (·.rxBytes) never <|
    .cons "rx_packets" u64 (·.rxPackets) never <|
    .cons "rx_errors" u64 (·.rxErrors) never <|
    .cons "rx_dropped" u64 (·.rxDropped) never <|
    .cons "tx_bytes" u64 (·.txBytes) never <|
    .cons "tx_packets" u64 (·.txPackets) never <|
    .cons "tx_errors" u64 (·.txErrors) never <|
    .cons "tx_dropped" u64 (·.txDropped) never <|
    .nil
  nodup := by decide
  complete _ := rfl

def TcpStat.wire : Record SerdeStr Float TcpStat where
  make := TcpStat.mk
  dflt := {}
  fields :=
    .cons "Established" u64 (·.established) never <|
    .cons "SynSent" u64 (·.synSent) never <|
    .cons "SynRecv" u64 (·.synRecv) never <|
    .cons "FinWait1" u64 (·.finWait1) never <|
    .cons "FinWait2" u64 (·.finWait2) never <|
    .cons "TimeWait" u64 (·.timeWait) never <|
    .cons "Close" u64 (·.close) never <|
    .cons "CloseWait" u64 (·.closeWait) never <|
    .cons "LastAck" u64 (·.lastAck) never <|
    .cons "Listen" u64 (·.listen) never <|
    .cons "Closing" u64 (·.closing) never <|
    .nil
  nodup := by decide
  complete _ := rfl

def TcpAdvancedStat.wire : Record SerdeStr Float TcpAdvancedStat where
  make := TcpAdvancedStat.mk
  dflt := {}
  fields :=
    .cons "RtoAlgorithm" u64 (·.rtoAlgorithm) never <|
    .cons "RtoMin" u64 (·.rtoMin) never <|
    .cons "RtoMax" u64 (·.rtoMax) never <|
    .cons "MaxConn" i64 (·.maxConn) never <|
    .cons "ActiveOpens" u64 (·.activeOpens) never <|
    .cons "PassiveOpens" u64 (·.passiveOpens) never <|
    .cons "AttemptFails" u64 (·.attemptFails) never <|
    .cons "EstabResets" u64 (·.estabResets) never <|
    .cons "CurrEstab" u64 (·.currEstab) never <|
    .cons "InSegs" u64 (·.inSegs) never <|
    .cons "OutSegs" u64 (·.outSegs) never <|
    .cons "RetransSegs" u64 (·.retransSegs) never <|
    .cons "InErrs" u64 (·.inErrs) never <|
    .cons "OutRsts" u64 (·.outRsts) never <|
    .cons "InCsumErrors" u64 (·.inCsumErrors) never <|
    .cons "EmbryonicRsts" u64 (·.embryonicRsts) never <|
    .cons "SyncookiesSent" u64 (·.syncookiesSent) never <|
    .cons "SyncookiesRecv" u64 (·.syncookiesRecv) never <|
    .cons "SyncookiesFailed" u64 (·.syncookiesFailed) never <|
    .cons "PruneCalled" u64 (·.pruneCalled) never <|
    .cons "RcvPruned" u64 (·.rcvPruned) never <|
    .cons "OfoPruned" u64 (·.ofoPruned) never <|
    .cons "OutOfWindowIcmps" u64 (·.outOfWindowIcmps) never <|
    .cons "LockDroppedIcmps" u64 (·.lockDroppedIcmps) never <|
    .cons "TW" u64 (·.tw) never <|
    .cons "TWRecycled" u64 (·.twRecycled) never <|
    .cons "TWKilled" u64 (·.twKilled) never <|
    .cons "TCPTimeWaitOverflow" u64 (·.tcpTimeWaitOverflow) never <|
    .cons "TCPTimeouts" u64 (·.tcpTimeouts) never <|
    .cons "TCPSpuriousRTOs" u64 (·.tcpSpuriousRtos) never <|
    .cons "TCPLossProbes" u64 (·.tcpLossProbes) never <|
    .cons "TCPLossProbeRecovery" u64 (·.tcpLossProbeRecovery) never <|
    .cons "TCPRenoRecoveryFail" u64 (·.tcpRenoRecoveryFail) never <|
    .cons "TCPSackRecoveryFail" u64 (·.tcpSackRecoveryFail) never <|
    .cons "TCPRenoFailures" u64 (·.tcpRenoFailures) never <|
    .cons "TCPSackFailures" u64 (·.tcpSackFailures) never <|
    .cons "TCPLossFailures" u64 (·.tcpLossFailures) never <|
    .cons "DelayedACKs" u64 (·.delayedAcks) never <|
    .cons "DelayedACKLocked" u64 (·.delayedAckLocked) never <|
    .cons "DelayedACKLost" u64 (·.delayedAckLost) never <|
    .cons "ListenOverflows" u64 (·.listenOverflows) never <|
    .cons "ListenDrops" u64 (·.listenDrops) never <|
    .cons "TCPHPHits" u64 (·.tcpHpHits) never <|
    .cons "TCPPureAcks" u64 (·.tcpPureAcks) never <|
    .cons "TCPHPAcks" u64 (·.tcpHpAcks) never <|
    .cons "TCPRenoRecovery" u64 (·.tcpRenoRecovery) never <|
    .cons "TCPSackRecovery" u64 (·.tcpSackRecovery) never <|
    .cons "TCPSACKReneging" u64 (·.tcpSackReneging) never <|
    .cons "TCPFACKReorder" u64 (·.tcpFackReorder) never <|
    .cons "TCPSACKReorder" u64 (·.tcpSackReorder) never <|
    .cons "TCPRenoReorder" u64 (·.tcpRenoReorder) never <|
    .cons "TCPTSReorder" u64 (·.tcpTsReorder) never <|
    .cons "TCPFullUndo" u64 (·.tcpFullUndo) never <|
    .cons "TCPPartialUndo" u64 (·.tcpPartialUndo) never <|
    .cons "TCPDSACKUndo" u64 (·.tcpDsackUndo) never <|
    .cons "TCPLossUndo" u64 (·.tcpLossUndo) never <|
    .cons "TCPFastRetrans" u64 (·.tcpFastRetrans) never <|
    .cons "TCPSlowStartRetrans" u64 (·.tcpSlowStartRetrans) never <|
    .cons "TCPLostRetransmit" u64 (·.tcpLostRetransmit) never <|
    .cons "TCPRetransFail" u64 (·.tcpRetransFail) never <|
    .cons "TCPRcvCollapsed" u64 (·.tcpRcvCollapsed) never <|
    .cons "TCPDSACKOldSent" u64 (·.tcpDsackOldSent) never <|
    .cons "TCPDSACKOfoSent" u64 (·.tcpDsackOfoSent) never <|
    .cons "TCPDSACKRecv" u64 (·.tcpDsackRecv) never <|
    .cons "TCPDSACKOfoRecv" u64 (·.tcpDsackOfoRecv) never <|
    .cons "TCPAbortOnData" u64 (·.tcpAbortOnData) never <|
    .cons "TCPAbortOnClose" u64 (·.tcpAbortOnClose) never <|
    .cons "TCPAbortOnMemory" u64 (·.tcpAbortOnMemory) never <|
    .cons "TCPAbortOnTimeout" u64 (·.tcpAbortOnTimeout) never <|
    .cons "TCPAbortOnLinger" u64 (·.tcpAbortOnLinger) never <|
    .cons "TCPAbortFailed" u64 (·.tcpAbortFailed) never <|
    .cons "TCPMemoryPressures" u64 (·.tcpMemoryPressures) never <|
    .cons "TCPMemoryPressuresChrono" u64 (·.tcpMemoryPressuresChrono) never <|
    .cons "TCPSACKDiscard" u64 (·.tcpSackDiscard) never <|
    .cons "TCPDSACKIgnoredOld" u64 (·.tcpDsackIgnoredOld) never <|
    .cons "TCPDSACKIgnoredNoUndo" u64 (·.tcpDsackIgnoredNoUndo) never <|
    .cons "TCPMD5NotFound" u64 (·.tcpMd5NotFound) never <|
    .cons "TCPMD5Unexpected" u64 (·.tcpMd5Unexpected) never <|
    .cons "TCPMD5Failure" u64 (·.tcpMd5Failure) never <|
    .cons "TCPSackShifted" u64 (·.tcpSackShifted) never <|
    .cons "TCPSackMerged" u64 (·.tcpSackMerged) never <|
    .cons "TCPSackShiftFallback" u64 (·.tcpSackShiftFallback) never <|
    .cons "TCPBacklogDrop" u64 (·.tcpBacklogDrop) never <|
    .cons "PFMemallocDrop" u64 (·.pfMemallocDrop) never <|
    .cons "TCPMinTTLDrop" u64 (·.tcpMinTtlDrop) never <|
    .cons "TCPDeferAcceptDrop" u64 (·.tcpDeferAcceptDrop) never <|
    .cons "IPReversePathFilter" u64 (·.ipReversePathFilter) never <|
    .cons "TCPReqQFullDoCookies" u64 (·.tcpReqQFullDoCookies) never <|
    .cons "TCPReqQFullDrop" u64 (·.tcpReqQFullDrop) never <|
    .cons "TCPFastOpenActive" u64 (·.tcpFastOpenActive) never <|
    .cons "TCPFastOpenActiveFail" u64 (·.tcpFastOpenActiveFail) never <|
    .cons "TCPFastOpenPassive" u64 (·.tcpFastOpenPassive) never <|
    .cons "TCPFastOpenPassiveFail" u64 (·.tcpFastOpenPassiveFail) never <|
    .cons "TCPFastOpenListenOverflow" u64 (·.tcpFastOpenListenOverflow) never <|
    .cons "TCPFastOpenCookieReqd" u64 (·.tcpFastOpenCookieReqd) never <|
    .cons "TCPSynRetrans" u64 (·.tcpSynRetrans) never <|
    .cons "TCPOrigDataSent" u64 (·.tcpOrigDataSent) never <|
    .cons "PAWSActive" u64 (·.pawsActive) never <|
    .cons "PAWSEstab" u64 (·.pawsEstab) never <|
    .nil
  nodup := by decide +kernel
  complete _ := rfl

def UdpStat.wire : Record SerdeStr Float UdpStat where
  make := UdpStat.mk
  dflt := {}
  fields :=
    .cons "Listen" u64 (·.listen) never <|
    .cons "Dropped" u64 (·.dropped) never <|
    .cons "RxQueued" u64 (·.rxQueued) never <|
    .cons "TxQueued" u64 (·.txQueued) never <|
    .nil
  nodup := by decide
  complete _ := rfl

def NetworkStats.wire : Flattened SerdeStr Float InterfaceStats NetworkStats where
  make := NetworkStats.mk
  dflt := {}
  part := InterfaceStats.wire
  get := NetworkStats.interface
  fields :=
    .cons "interfaces" (list InterfaceStats.wire.codec) (·.interfaces) List.isEmpty <|
    .cons "tcp" TcpStat.wire.codec (·.tcp) never <|
    .cons "tcp6" TcpStat.wire.codec (·.tcp6) never <|
    .cons "udp" UdpStat.wire.codec (·.udp) never <|
    .cons "udp6" UdpStat.wire.codec (·.udp6) never <|
    .cons "tcp_advanced" TcpAdvancedStat.wire.codec (·.tcpAdvanced) never <|
    .nil
  nodup := by decide
  complete _ := rfl

def FsStats.wire : Record SerdeStr Float FsStats where
  make := FsStats.mk
  dflt := {}
  fields :=
    .cons "device" str (·.device) String.isEmpty <|
    .cons "type" str (·.fsType) never <|
    .cons "capacity" u64 (·.limit) never <|
    .cons "usage" u64 (·.usage) never <|
    .cons "base_usage" u64 (·.baseUsage) never <|
    .cons "available" u64 (·.available) never <|
    .cons "has_inodes" boolean (·.hasInodes) never <|
    .cons "inodes" u64 (·.inodes) never <|
    .cons "inodes_free" u64 (·.inodesFree) never <|
    .cons "reads_completed" u64 (·.readsCompleted) never <|
    .cons "reads_merged" u64 (·.readsMerged) never <|
    .cons "sectors_read" u64 (·.sectorsRead) never <|
    .cons "read_time" u64 (·.readTime) never <|
    .cons "writes_completed" u64 (·.writesCompleted) never <|
    .cons "writes_merged" u64 (·.writesMerged) never <|
    .cons "sectors_written" u64 (·.sectorsWritten) never <|
    .cons "write_time" u64 (·.writeTime) never <|
    .cons "io_in_progress" u64 (·.ioInProgress) never <|
    .cons "io_time" u64 (·.ioTime) never <|
    .cons "weighted_io_time" u64 (·.weightedIoTime) never <|
    .nil
  nodup := by decide
  complete _ := rfl

def AcceleratorStats.wire : Record SerdeStr Float AcceleratorStats where
  make := AcceleratorStats.mk
  dflt := {}
  fields :=
    .cons "make" str (·.make) never <|
    .cons "model" str (·.model) never <|
    .cons "id" str (·.id) never <|
    .cons "memory_total" u64 (·.memoryTotal) never <|
    .cons "memory_used" u64 (·.memoryUsed) never <|
    .cons "duty_cycle" u64 (·.dutyCycle) never <|
    .nil
  nodup := by decide
  complete _ := rfl

def UlimitSpec.wire : Record SerdeStr Float UlimitSpec where
  make := UlimitSpec.mk
  dflt := {}
  fields :=
    .cons "name" str (·.name) never <|
    .cons "soft_limit" i64 (·.softLimit) never <|
    .cons "hard_limit" i64 (·.hardLimit) never <|
    .nil
  nodup := by decide
  complete _ := rfl

def ProcessStats.wire : Record SerdeStr Float ProcessStats where
  make := ProcessStats.mk
  dflt := {}
  fields :=
    .cons "process_count" u64 (·.processCount) never <|
    .cons "fd_count" u64 (·.fdCount) never <|
    .cons "socket_count" u64 (·.socketCount) never <|
    .cons "threads_current" u64 (·.threadsCurrent) isZero <|
    .cons "threads_max" u64 (·.threadsMax) isZero <|
    .cons "ulimits" (list UlimitSpec.wire.codec) (·.ulimits) List.isEmpty <|
    .nil
  nodup := by decide
  complete _ := rfl

def MetricVal.wire (w : WireText) : Record SerdeStr Float MetricVal where
  make := MetricVal.mk
  dflt := {}
  fields :=
    .cons "label" str (·.label) String.isEmpty <|
    .cons "labels" (named str) (·.labels) SortedMap.isEmpty <|
    .cons "timestamp" w.time (·.timestamp) never <|
    .cons "int_value" i64 (·.intValue) isZero <|
    .cons "float_value" w.float (·.floatValue) isZero <|
    .nil
  nodup := by simp [Fields.keys]
  complete _ := rfl

def PerfValue.wire (w : WireText) : Record SerdeStr Float PerfValue where
  make := PerfValue.mk
  dflt := {}
  fields :=
    .cons "scaling_ratio" w.float (·.scalingRatio) never <|
    .cons "value" u64 (·.value) never <|
    .cons "name" str (·.name) never <|
    .nil
  nodup := by simp [Fields.keys]
  complete _ := rfl

def PerfStat.wire (w : WireText) : Flattened SerdeStr Float PerfValue PerfStat where
  make := PerfStat.mk
  dflt := {}
  part := PerfValue.wire w
  get := PerfStat.perfValue
  fields :=
    .cons "cpu" i64 (·.cpu) never <|
    .nil
  nodup := by simp [PerfValue.wire, Fields.keys]
  complete _ := rfl

def PerfUncoreStat.wire (w : WireText) : Flattened SerdeStr Float PerfValue PerfUncoreStat where
  make := PerfUncoreStat.mk
  dflt := {}
  part := PerfValue.wire w
  get := PerfUncoreStat.perfValue
  fields :=
    .cons "socket" i64 (·.socket) never <|
    .cons "pmu" str (·.pmu) never <|
    .nil
  nodup := by simp [PerfValue.wire, Fields.keys]
  complete _ := rfl

def MemoryBandwidthStats.wire : Record SerdeStr Float MemoryBandwidthStats where
  make := MemoryBandwidthStats.mk
  dflt := {}
  fields :=
    .cons "mbm_total_bytes" u64 (·.totalBytes) isZero <|
    .cons "mbm_local_bytes" u64 (·.localBytes) isZero <|
    .nil
  nodup := by decide
  complete _ := rfl

def CacheStats.wire : Record SerdeStr Float CacheStats where
  make := CacheStats.mk
  dflt := {}
  fields :=
    .cons "llc_occupancy" u64 (·.llcOccupancy) isZero <|
    .nil
  nodup := by decide
  complete _ := rfl

def ResctrlStats.wire : Record SerdeStr Float ResctrlStats where
  make := ResctrlStats.mk
  dflt := {}
  fields :=
    .cons "memory_bandwidth" (list MemoryBandwidthStats.wire.codec) (·.memoryBandwidth)
      List.isEmpty <|
    .cons "cache" (list CacheStats.wire.codec) (·.cache) List.isEmpty <|
    .nil
  nodup := by decide
  complete _ := rfl

def CpuSetStats.wire : Record SerdeStr Float CpuSetStats where
  make := CpuSetStats.mk
  dflt := {}
  fields :=
    .cons "memory_migrate" u64 (·.memoryMigrate) never <|
    .nil
  nodup := by decide
  complete _ := rfl

def ContainerStats.wire (w : WireText) : Record SerdeStr Float ContainerStats where
  make := ContainerStats.mk
  dflt := {}
  fields :=
    .cons "timestamp" w.time (·.timestamp) never <|
    .cons "cpu" CpuStats.wire.codec (·.cpu) never <|
    .cons "diskio" DiskIoStats.wire.codec (·.diskIo) never <|
    .cons "memory" MemoryStats.wire.codec (·.memory) never <|
    .cons "hugetlb" (named HugetlbStats.wire.codec) (·.hugetlb) SortedMap.isEmpty <|
    .cons "network" NetworkStats.wire.codec (·.network) never <|
    .cons "filesystem" (list FsStats.wire.codec) (·.filesystem) List.isEmpty <|
    .cons "task_stats" LoadStats.wire.codec (·.taskStats) never <|
    .cons "accelerators" (list AcceleratorStats.wire.codec) (·.accelerators) List.isEmpty <|
    .cons "processes" ProcessStats.wire.codec (·.processes) never <|
    .cons "custom_metrics" (named (list (MetricVal.wire w).codec)) (·.customMetrics)
      SortedMap.isEmpty <|
    .cons "perf_stats" (list (PerfStat.wire w).codec) (·.perfStats) List.isEmpty <|
    .cons "perf_uncore_stats" (list (PerfUncoreStat.wire w).codec) (·.perfUncoreStats)
      List.isEmpty <|
    .cons "referenced_memory" u64 (·.referencedMemory) isZero <|
    .cons "resctrl" ResctrlStats.wire.codec (·.resctrl) never <|
    .cons "cpuset" CpuSetStats.wire.codec (·.cpuSet) never <|
    .cons "oom_events" u64 (·.oomEvents) isZero <|
    .nil
  nodup := by simp [Fields.keys]
  complete _ := rfl

end Cadvisor
