/-!
# TCP and UDP counters

The counters of a network namespace, as the v1 and v2 wire types share them.
-/

set_option autoImplicit false

namespace Cadvisor

structure TcpStat where
  established : UInt64 := 0
  synSent : UInt64 := 0
  synRecv : UInt64 := 0
  finWait1 : UInt64 := 0
  finWait2 : UInt64 := 0
  timeWait : UInt64 := 0
  close : UInt64 := 0
  closeWait : UInt64 := 0
  lastAck : UInt64 := 0
  listen : UInt64 := 0
  closing : UInt64 := 0

structure TcpAdvancedStat where
  rtoAlgorithm : UInt64 := 0
  rtoMin : UInt64 := 0
  rtoMax : UInt64 := 0
  maxConn : Int64 := 0
  activeOpens : UInt64 := 0
  passiveOpens : UInt64 := 0
  attemptFails : UInt64 := 0
  estabResets : UInt64 := 0
  currEstab : UInt64 := 0
  inSegs : UInt64 := 0
  outSegs : UInt64 := 0
  retransSegs : UInt64 := 0
  inErrs : UInt64 := 0
  outRsts : UInt64 := 0
  inCsumErrors : UInt64 := 0
  embryonicRsts : UInt64 := 0
  syncookiesSent : UInt64 := 0
  syncookiesRecv : UInt64 := 0
  syncookiesFailed : UInt64 := 0
  pruneCalled : UInt64 := 0
  rcvPruned : UInt64 := 0
  ofoPruned : UInt64 := 0
  outOfWindowIcmps : UInt64 := 0
  lockDroppedIcmps : UInt64 := 0
  tw : UInt64 := 0
  twRecycled : UInt64 := 0
  twKilled : UInt64 := 0
  tcpTimeWaitOverflow : UInt64 := 0
  tcpTimeouts : UInt64 := 0
  tcpSpuriousRtos : UInt64 := 0
  tcpLossProbes : UInt64 := 0
  tcpLossProbeRecovery : UInt64 := 0
  tcpRenoRecoveryFail : UInt64 := 0
  tcpSackRecoveryFail : UInt64 := 0
  tcpRenoFailures : UInt64 := 0
  tcpSackFailures : UInt64 := 0
  tcpLossFailures : UInt64 := 0
  delayedAcks : UInt64 := 0
  delayedAckLocked : UInt64 := 0
  delayedAckLost : UInt64 := 0
  listenOverflows : UInt64 := 0
  listenDrops : UInt64 := 0
  tcpHpHits : UInt64 := 0
  tcpPureAcks : UInt64 := 0
  tcpHpAcks : UInt64 := 0
  tcpRenoRecovery : UInt64 := 0
  tcpSackRecovery : UInt64 := 0
  tcpSackReneging : UInt64 := 0
  tcpFackReorder : UInt64 := 0
  tcpSackReorder : UInt64 := 0
  tcpRenoReorder : UInt64 := 0
  tcpTsReorder : UInt64 := 0
  tcpFullUndo : UInt64 := 0
  tcpPartialUndo : UInt64 := 0
  tcpDsackUndo : UInt64 := 0
  tcpLossUndo : UInt64 := 0
  tcpFastRetrans : UInt64 := 0
  tcpSlowStartRetrans : UInt64 := 0
  tcpLostRetransmit : UInt64 := 0
  tcpRetransFail : UInt64 := 0
  tcpRcvCollapsed : UInt64 := 0
  tcpDsackOldSent : UInt64 := 0
  tcpDsackOfoSent : UInt64 := 0
  tcpDsackRecv : UInt64 := 0
  tcpDsackOfoRecv : UInt64 := 0
  tcpAbortOnData : UInt64 := 0
  tcpAbortOnClose : UInt64 := 0
  tcpAbortOnMemory : UInt64 := 0
  tcpAbortOnTimeout : UInt64 := 0
  tcpAbortOnLinger : UInt64 := 0
  tcpAbortFailed : UInt64 := 0
  tcpMemoryPressures : UInt64 := 0
  tcpMemoryPressuresChrono : UInt64 := 0
  tcpSackDiscard : UInt64 := 0
  tcpDsackIgnoredOld : UInt64 := 0
  tcpDsackIgnoredNoUndo : UInt64 := 0
  tcpMd5NotFound : UInt64 := 0
  tcpMd5Unexpected : UInt64 := 0
  tcpMd5Failure : UInt64 := 0
  tcpSackShifted : UInt64 := 0
  tcpSackMerged : UInt64 := 0
  tcpSackShiftFallback : UInt64 := 0
  tcpBacklogDrop : UInt64 := 0
  pfMemallocDrop : UInt64 := 0
  tcpMinTtlDrop : UInt64 := 0
  tcpDeferAcceptDrop : UInt64 := 0
  ipReversePathFilter : UInt64 := 0
  tcpReqQFullDoCookies : UInt64 := 0
  tcpReqQFullDrop : UInt64 := 0
  tcpFastOpenActive : UInt64 := 0
  tcpFastOpenActiveFail : UInt64 := 0
  tcpFastOpenPassive : UInt64 := 0
  tcpFastOpenPassiveFail : UInt64 := 0
  tcpFastOpenListenOverflow : UInt64 := 0
  tcpFastOpenCookieReqd : UInt64 := 0
  tcpSynRetrans : UInt64 := 0
  tcpOrigDataSent : UInt64 := 0
  pawsActive : UInt64 := 0
  pawsEstab : UInt64 := 0

structure UdpStat where
  listen : UInt64 := 0
  dropped : UInt64 := 0
  rxQueued : UInt64 := 0
  txQueued : UInt64 := 0

end Cadvisor
