import Libp2px.Vtcp.SendBuf
import Libp2px.Vtcp.RecvBuf
import Libp2px.Vtcp.Congestion

/-!
# Connections: state, segment builders and the send path

The first part of `vtcp/conn.go`: the connection record, `NewConn`, the segment builders, the timers, `processACK`,
`retransmit` and `flushSendQueue`.  A method that changes the connection is a function from connections to
connections; what it queues stands in `outgoing`.  `now` is the clock reading of the call.

Fields the model adds to the source's: `hung` is set when a loop of the source does not end (the call never returns
and keeps the lock), `entered` records every state the connection was put in, `iss` our initial sequence number, and a
queued segment carries its position and the free space of its sender.  A condition variable is the number of its
broadcasts.  The two buffers are allocated together, so one flag `opened` says that both pointers are non-nil.
-/

namespace Libp2px.Vtcp

/-- `ConnConfig`, without the addresses and the writer. -/
structure ConnConfig where
  localPort : BitVec 16 := 0
  remotePort : BitVec 16 := 0
  mss : Int := 0
  noWindowScaling : Bool := false
  enableTimestamps : Bool := false
  enableSACK : Bool := false
  congestionControl : CCName := .highspeed
  keepalive : Bool := false
  keepaliveIdle : Int := 0
  keepaliveInterval : Int := 0
  keepaliveCount : Int := 0
  sendBufSize : Int := 0
  recvBufSize : Int := 0

def ConnConfig.effMSS (cfg : ConnConfig) : Nat := if cfg.mss > 0 then cfg.mss.toNat else defaultMSS

def ConnConfig.effRecvBuf (cfg : ConnConfig) : Nat :=
  if cfg.recvBufSize > 0 then cfg.recvBufSize.toNat else defaultRecvBuf

/-- A queued segment, with the position of its sequence number in the stream of its sender (the number without
wrapping) and the free receive space of its sender when it was built. -/
structure Packet where
  seg : Segment
  pos : Nat
  space : Nat
  deriving DecidableEq, Repr

structure Conn (σ : Type) where
  localPort : BitVec 16
  remotePort : BitVec 16
  state : State := .closed
  opened : Bool := false
  sendBuf : SendBuf
  sndWnd : BitVec 32 := defaultWindowSize
  mss : Nat
  recvBuf : RecvBuf
  recvBufCap : Nat
  cc : σ
  rto : RTOCalculator := {}
  rtoTimer : Option Int := none
  retries : Nat := 0
  sndWndShift : Nat := 0
  rcvWndShift : Nat
  wscaleOK : Bool := false
  tsEnabled : Bool
  tsOK : Bool := false
  tsRecent : BitVec 32 := 0
  tsOffset : BitVec 32 := 0
  sackEnabled : Bool
  sackOK : Bool := false
  finPending : Bool := false
  pendingFinSeq : BitVec 32 := 0
  sendBufCap : Nat
  ccName : CCName
  persistTimer : Option Int := none
  persistBackoff : Int := 0
  timeWaitTimer : Option Int := none
  keepalive : Bool
  keepaliveIdle : Int
  keepaliveIntv : Int
  keepaliveMax : Int
  keepaliveSent : Int := 0
  lastRecv : Int
  keepaliveTimer : Option Int := none
  outgoing : List Packet := []
  closed : Bool := false
  establishedClosed : Bool := false
  finRecvdClosed : Bool := false
  readDeadline : Option Int := none
  writeDeadline : Option Int := none
  sendCond : Nat := 0
  recvCond : Nat := 0
  hung : Bool := false
  iss : BitVec 32 := 0
  entered : List State := []

/-- The shift `NewConn` computes: the first of `0..14` that makes the buffer size fit in 16 bits, else `14`. -/
def autoWndShift (recvBufCap : Nat) : Nat := ((List.range 15).find? fun s => recvBufCap >>> s ≤ 65535).getD 14

namespace Conn

variable {σ : Type} [CongestionController σ]

open CongestionController

/-- `NewConn`.  The buffers are placeholders until the connection is opened. -/
def newConn (cfg : ConnConfig) (now : Int) : Conn σ where
  localPort := cfg.localPort
  remotePort := cfg.remotePort
  sendBuf := newSendBuf 0 0
  mss := cfg.effMSS
  recvBuf := newRecvBuf 0 0
  recvBufCap := cfg.effRecvBuf
  cc := CongestionController.new cfg.congestionControl (BitVec.ofNat 32 cfg.effMSS)
  rcvWndShift := if cfg.noWindowScaling then 0 else autoWndShift cfg.effRecvBuf
  tsEnabled := cfg.enableTimestamps
  sackEnabled := cfg.enableSACK
  sendBufCap := if cfg.sendBufSize ≤ 0 then defaultSendBuf else cfg.sendBufSize.toNat
  ccName := cfg.congestionControl
  keepalive := cfg.keepalive
  keepaliveIdle := if cfg.keepaliveIdle = 0 then defaultKeepaliveIdle else cfg.keepaliveIdle
  keepaliveIntv := if cfg.keepaliveInterval = 0 then defaultKeepaliveInterval else cfg.keepaliveInterval
  keepaliveMax := if cfg.keepaliveCount = 0 then defaultKeepaliveCount else cfg.keepaliveCount
  lastRecv := now

def setState (c : Conn σ) (s : State) : Conn σ := { c with state := s, entered := c.entered ++ [s] }

def recvBufSize (c : Conn σ) : Nat := if c.recvBufCap > 0 then c.recvBufCap else defaultRecvBuf

def freeSpace (c : Conn σ) : Nat := if c.opened then c.recvBuf.window.toNat else c.recvBufSize

def queueSeg (c : Conn σ) (seg : Segment) : Conn σ :=
  { c with outgoing := c.outgoing ++ [⟨seg, c.sendBuf.pos seg.seq, c.freeSpace⟩] }

def sendBufSize (c : Conn σ) : Nat :=
  if c.opened then c.sendBuf.cap else if c.sendBufCap > 0 then c.sendBufCap else defaultSendBuf

def rcvWindow (c : Conn σ) : BitVec 16 :=
  let avail := if c.opened then c.recvBuf.window.toNat else c.recvBufSize
  let swsThresh := if c.recvBufSize / 2 < c.mss then c.recvBufSize / 2 else c.mss
  let avail := if avail < swsThresh then 0 else avail
  let avail := if c.wscaleOK then avail >>> c.rcvWndShift else avail
  BitVec.ofNat 16 (if avail > 65535 then 65535 else avail)

def tsNow (c : Conn σ) (now : Int) : BitVec 32 := BitVec.ofInt 32 (now / 1000000) - c.tsOffset

def buildSYNOptions (c : Conn σ) (now : Int) : List TcpOption :=
  [mssOption (BitVec.ofNat 16 c.mss), wscaleOption (BitVec.ofNat 8 c.rcvWndShift)] ++
    (if c.sackEnabled then [sackPermOption] else []) ++
    (if c.tsEnabled then [timestampOption (c.tsNow now) 0] else [])

/-- The options that `addOptions` appends. -/
def segOptions (c : Conn σ) (now : Int) : List TcpOption :=
  (if c.tsOK then [timestampOption (c.tsNow now) c.tsRecent] else []) ++
    (if c.sackOK && c.opened && c.recvBuf.hasOOO then [sackOption c.recvBuf.sackBlocks] else [])

/-- The bare SYN of `Connect` and of its retransmission. -/
def synSegment (c : Conn σ) (now : Int) (seq : BitVec 32) : Segment where
  srcPort := c.localPort
  dstPort := c.remotePort
  seq := seq
  flags := flagSYN
  window := c.rcvWindow
  options := c.buildSYNOptions now

/-- The SYN-ACK of `AcceptSYN`, of a simultaneous open and of its retransmission. -/
def synAckSegment (c : Conn σ) (now : Int) (seq : BitVec 32) : Segment where
  srcPort := c.localPort
  dstPort := c.remotePort
  seq := seq
  ack := c.recvBuf.nxt
  flags := flagSYN ||| flagACK
  window := c.rcvWindow
  options := c.buildSYNOptions now

/-- The RST in answer to an unacceptable acknowledgment. -/
def rstSegment (c : Conn σ) (seq : BitVec 32) : Segment where
  srcPort := c.localPort
  dstPort := c.remotePort
  seq := seq
  flags := flagRST

def ackSegment (c : Conn σ) (now : Int) (seq : BitVec 32) (flags : BitVec 8) (payload : List Byte) : Segment where
  srcPort := c.localPort
  dstPort := c.remotePort
  seq := seq
  ack := c.recvBuf.nxt
  flags := flags
  window := c.rcvWindow
  options := c.segOptions now
  payload := payload

def queueACK (now : Int) (c : Conn σ) : Conn σ := c.queueSeg (c.ackSegment now c.sendBuf.nxt flagACK [])

/-! ### Timers -/

def startRTO (c : Conn σ) : Conn σ := { c with rtoTimer := some c.rto.rto }

def stopRTO (c : Conn σ) : Conn σ := { c with rtoTimer := none }

def stopPersist (c : Conn σ) : Conn σ := { c with persistTimer := none, persistBackoff := 0 }

/-- `startPersist`; `stopPersist` resets the backoff first, so it starts at the current RTO. -/
def startPersist (c : Conn σ) : Conn σ := { c with persistTimer := some c.rto.rto, persistBackoff := c.rto.rto }

def stopKeepalive (c : Conn σ) : Conn σ := { c with keepaliveTimer := none }

def startKeepalive (c : Conn σ) : Conn σ := { c.stopKeepalive.stopPersist with keepaliveTimer := some c.keepaliveIdle }

def startTimeWait (c : Conn σ) : Conn σ := { c.stopKeepalive.stopPersist with timeWaitTimer := some timeWaitDuration }

omit [CongestionController σ] in
theorem startKeepalive_eq (c : Conn σ) :
    c.startKeepalive =
      { c with keepaliveTimer := some c.keepaliveIdle, persistTimer := none, persistBackoff := 0 } := rfl

omit [CongestionController σ] in
theorem startTimeWait_eq (c : Conn σ) :
    c.startTimeWait =
      { c with keepaliveTimer := none, persistTimer := none, persistBackoff := 0
               timeWaitTimer := some timeWaitDuration } := rfl

def restartTimeWait (c : Conn σ) : Conn σ :=
  if c.timeWaitTimer.isSome then { c with timeWaitTimer := some timeWaitDuration } else c

/-! ### Lifecycle -/

def safeCloseEstablished (c : Conn σ) : Conn σ := { c with establishedClosed := true }

def broadcastRecv (c : Conn σ) : Conn σ := { c with recvCond := c.recvCond + 1 }

def broadcastSend (c : Conn σ) : Conn σ := { c with sendCond := c.sendCond + 1 }

/-- `safeCloseFinRecvd`: the first call closes the channel and wakes the readers. -/
def safeCloseFinRecvd (c : Conn σ) : Conn σ :=
  if c.finRecvdClosed then c else { c with finRecvdClosed := true, recvCond := c.recvCond + 1 }

omit [CongestionController σ] in
theorem safeCloseFinRecvd_frame (c : Conn σ) : let d := c.safeCloseFinRecvd
    d = { c with finRecvdClosed := d.finRecvdClosed, recvCond := d.recvCond } := by
  unfold safeCloseFinRecvd
  split <;> rfl

omit [CongestionController σ] in
theorem state_safeCloseFinRecvd (c : Conn σ) : c.safeCloseFinRecvd.state = c.state := by
  rw [safeCloseFinRecvd_frame]

/-- `c.state = StateClosed; c.closed.Store(true)`. -/
def shut (c : Conn σ) : Conn σ := { c.setState .closed with closed := true }

/-! ### The send path -/

def queueFIN (now : Int) (c : Conn σ) : Conn σ :=
  let c := c.queueSeg (c.ackSegment now c.sendBuf.nxt (flagFIN ||| flagACK) [])
  { c with sendBuf := c.sendBuf.advanceSent 1 }

def retransmit (now : Int) (c : Conn σ) : Conn σ :=
  match c.sendBuf.retransmitData c.mss with
  | none => { c with hung := true }
  | some data =>
    if data = [] then c
    else
      let c := c.queueSeg (c.ackSegment now c.sendBuf.una (flagACK ||| flagPSH) data)
      startRTO { c with rto := c.rto.invalidateTiming }

omit [CongestionController σ] in
theorem retransmit_frame (now : Int) (c : Conn σ) : let d := retransmit now c
    d = { c with rto := d.rto, rtoTimer := d.rtoTimer, outgoing := d.outgoing, hung := d.hung } := by
  unfold retransmit
  split
  · rfl
  · split <;> rfl

def effWnd (c : Conn σ) : BitVec 32 := if sendWindow c.cc < c.sndWnd then sendWindow c.cc else c.sndWnd

/-- The body of the loop of `flushSendQueue` once it decided to send `n` bytes. -/
def sendChunk (now : Int) (n : Nat) (c : Conn σ) : Conn σ :=
  let data := c.sendBuf.peekUnsent n
  let seg := c.ackSegment now c.sendBuf.nxt (flagACK ||| flagPSH) data
  let c := c.queueSeg seg
  let c := { c with sendBuf := c.sendBuf.advanceSent data.length, rto := c.rto.startTiming now seg.seq }
  if c.sendBuf.unacked > 0 ∧ c.rtoTimer = none then c.startRTO else c

/-- How many bytes the next round of the loop of `flushSendQueue` sends; `none` when the loop ends. -/
def chunkSize (c : Conn σ) : Option Nat :=
  if c.sendBuf.pending ≤ 0 then none
  else
    let avail : Int := c.effWnd.toNat - c.sendBuf.unacked
    if avail ≤ 0 then none
    else
      let n := min (min avail.toNat c.mss) c.sendBuf.pending.toNat
      if n < c.mss ∧ c.sendBuf.unacked > 0 then none
      else if c.sendBuf.peekUnsent n = [] then none
      else some n

/-- The loop of `flushSendQueue`. Every round sends a pending byte, so `fuel` at least their number is never used up
(`chunkSize_flushLoop`). -/
def flushLoop (now : Int) : Nat → Conn σ → Conn σ
  | 0, c => c
  | fuel + 1, c =>
    match c.chunkSize with
    | none => c
    | some n => flushLoop now fuel (c.sendChunk now n)

/-- The end of `flushSendQueue`: the persist timer is started when the window is zero and data is pending. -/
def armPersist (c : Conn σ) : Conn σ :=
  if c.sendBuf.pending > 0 ∧ c.sndWnd = 0 ∧ c.persistTimer = none then c.startPersist else c

def flushSendQueue (now : Int) (c : Conn σ) : Conn σ := armPersist (flushLoop now c.sendBuf.pending.toNat c)

/-! ### Acknowledgments -/

def updateSACK (opts : List TcpOption) (c : Conn σ) : Conn σ :=
  if c.sackOK then { c with sendBuf := c.sendBuf.markSACKed (getSACKBlocks opts) } else c

/-- The duplicate acknowledgment branch of `processACK`. -/
def processDupACK (now : Int) (opts : List TcpOption) (c : Conn σ) : Conn σ :=
  let r := onDupACK c.cc
  let c := { c with cc := r.1 }
  let c :=
    if r.2 then
      retransmit now { c with cc := onFastRetransmit c.cc (BitVec.ofNat 32 c.sendBuf.unacked) c.sendBuf.nxt }
    else c
  updateSACK opts c

/-- The controller after an ACK of `acked` new bytes up to `ack`: recovery ends at the recovery point. -/
def ccAfterACK (cc : σ) (ack acked : BitVec 32) : σ :=
  let cc := onACK cc acked
  if inRecovery cc && seqAfterEq ack (recoverySeq cc) then exitRecovery cc else cc

/-- The buffer and the controller after an acknowledgment that advances `SND.UNA`. -/
def applyACK (ack : BitVec 32) (c : Conn σ) : Conn σ :=
  let r := c.sendBuf.acknowledge ack
  { c with sendBuf := r.1, retries := 0, cc := ccAfterACK c.cc ack r.2 }

/-- The timers after an acknowledgment that advances `SND.UNA`. -/
def rearm (now : Int) (ack : BitVec 32) (c : Conn σ) : Conn σ :=
  let c := if c.sndWnd > 0 ∧ c.persistTimer.isSome then c.stopPersist else c
  let c := { c with rto := c.rto.ackReceived now ack }
  if c.sendBuf.unacked > 0 then c.startRTO else c.stopRTO

omit [CongestionController σ] in
theorem updateSACK_frame (opts : List TcpOption) (c : Conn σ) : let d := updateSACK opts c
    d = { c with sendBuf := { c.sendBuf with sacked := d.sendBuf.sacked } } := by
  unfold updateSACK SendBuf.markSACKed
  split
  · split <;> rfl
  · rfl

omit [CongestionController σ] in
theorem rearm_frame (now : Int) (ack : BitVec 32) (c : Conn σ) : let d := rearm now ack c
    d = { c with rto := c.rto.ackReceived now ack, persistTimer := d.persistTimer, persistBackoff := d.persistBackoff
                 rtoTimer := if c.sendBuf.unacked > 0 then some (c.rto.ackReceived now ack).rto else none } := by
  have hpersist : let d := if c.sndWnd > 0 ∧ c.persistTimer.isSome then c.stopPersist else c
      d = { c with persistTimer := d.persistTimer, persistBackoff := d.persistBackoff } := by
    split <;> rfl
  unfold rearm
  rw [hpersist]
  simp only
  split <;> rfl

theorem newACK_frame (now : Int) (ack : BitVec 32) (opts : List TcpOption) (c : Conn σ) :
    let d := rearm now ack (updateSACK opts (c.applyACK ack))
    d = { c with sendBuf := { (c.sendBuf.acknowledge ack).1 with sacked := d.sendBuf.sacked }, retries := 0
                 cc := ccAfterACK c.cc ack (c.sendBuf.acknowledge ack).2, rto := c.rto.ackReceived now ack
                 persistTimer := d.persistTimer, persistBackoff := d.persistBackoff
                 rtoTimer := if (c.sendBuf.acknowledge ack).1.unacked > 0 then some (c.rto.ackReceived now ack).rto
                   else none } := by
  rw [rearm_frame, updateSACK_frame]
  rfl

/-- The branch of `processACK` for an acknowledgment that advances `SND.UNA`. -/
def processNewACK (now : Int) (ack : BitVec 32) (opts : List TcpOption) (c : Conn σ) : Conn σ :=
  broadcastSend (flushSendQueue now (rearm now ack (updateSACK opts (c.applyACK ack))))

def processACK (now : Int) (ack : BitVec 32) (opts : List TcpOption) (c : Conn σ) : Conn σ :=
  if !seqAfter ack c.sendBuf.una then processDupACK now opts c
  else if seqAfter ack c.sendBuf.nxt then queueACK now c
  else processNewACK now ack opts c

theorem processACK_new {ack : BitVec 32} {c : Conn σ} (now : Int) (opts : List TcpOption)
    (hlo : seqAfter ack c.sendBuf.una = true) (hhi : seqAfter ack c.sendBuf.nxt = false) :
    processACK now ack opts c = processNewACK now ack opts c := by
  unfold processACK
  rw [hlo, hhi]
  rfl

end Conn

end Libp2px.Vtcp
