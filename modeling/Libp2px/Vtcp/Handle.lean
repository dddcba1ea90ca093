import Libp2px.Vtcp.Conn

/-!
# Connections: opening and incoming segments

The opening calls of `vtcp/conn.go` (`Connect` up to its wait, `AcceptSYN`, `AcceptCookie`, `SetupForHandshake`) and
`HandleSegment` with its state handlers.  The random initial sequence number of an opening call is an argument.  The
handlers of the source end with `drainOutgoing`; here the queued segments stay in `outgoing` and the caller of
`handleSegment` takes them.
-/

namespace Libp2px.Vtcp.Conn

variable {σ : Type} [CongestionController σ]

open CongestionController

/-! ### Options and validation -/

/-- The MSS narrowing of `AcceptSYN` and `handleSynSent`. -/
def narrowMSS (opts : List TcpOption) (c : Conn σ) : Conn σ :=
  let mss := (getMSS opts).toNat
  if mss > 0 ∧ mss < c.mss then { c with mss := mss } else c

def negotiateOptions (opts : List TcpOption) (c : Conn σ) : Conn σ :=
  let c :=
    match getWScale opts with
    | some ws => { c with sndWndShift := if ws.toNat > 14 then 14 else ws.toNat, wscaleOK := true }
    | none => c
  let c := if c.sackEnabled && hasSACKPerm opts then { c with sackOK := true } else c
  match c.tsEnabled, getTimestamp opts with
  | true, some (tsVal, _) => { c with tsRecent := tsVal, tsOK := true }
  | _, _ => c

omit [CongestionController σ] in
theorem negotiate_eq (opts : List TcpOption) (c : Conn σ) :
    ∃ ts, (ts = c.tsRecent ∧ (c.tsEnabled && (getTimestamp opts).isSome) = false ∨
        c.tsEnabled = true ∧ ∃ ecr, getTimestamp opts = some (ts, ecr)) ∧
      negotiateOptions opts (narrowMSS opts c) =
        { c with
          mss := if (getMSS opts).toNat > 0 ∧ (getMSS opts).toNat < c.mss then (getMSS opts).toNat else c.mss
          sndWndShift := (getWScale opts).elim c.sndWndShift fun ws => if ws.toNat > 14 then 14 else ws.toNat
          wscaleOK := c.wscaleOK || (getWScale opts).isSome
          sackOK := c.sackOK || (c.sackEnabled && hasSACKPerm opts)
          tsOK := c.tsOK || (c.tsEnabled && (getTimestamp opts).isSome), tsRecent := ts } := by
  have hmss : narrowMSS opts c = { c with
      mss := if (getMSS opts).toNat > 0 ∧ (getMSS opts).toNat < c.mss then (getMSS opts).toNat else c.mss } := by
    unfold narrowMSS
    simp only
    split <;> rfl
  have hsack : ∀ d : Conn σ, (if d.sackEnabled && hasSACKPerm opts then { d with sackOK := true } else d) =
      { d with sackOK := d.sackOK || (d.sackEnabled && hasSACKPerm opts) } := by
    intro d
    cases hs : d.sackEnabled && hasSACKPerm opts with
    | true => rw [if_pos rfl, Bool.or_true]
    | false => rw [if_neg Bool.false_ne_true, Bool.or_false]
  rw [hmss]
  unfold negotiateOptions
  simp only [hsack]
  rcases getWScale opts with _ | ws <;> rcases getTimestamp opts with _ | ⟨tv, te⟩ <;> cases hte : c.tsEnabled <;> simp

/-- The PAWS test of `updateTimestamp`: the timestamp is missing, not negotiated, or not older than `tsRecent`. -/
def pawsOK (opts : List TcpOption) (c : Conn σ) : Bool :=
  match c.tsOK, getTimestamp opts with
  | true, some (tsVal, _) => !(c.tsRecent != 0 && decide ((tsVal - c.tsRecent).toInt < 0))
  | _, _ => true

/-- The update of `updateTimestamp` on a segment that passes PAWS. -/
def recordTimestamp (opts : List TcpOption) (c : Conn σ) : Conn σ :=
  match c.tsOK, getTimestamp opts with
  | true, some (tsVal, _) => { c with tsRecent := tsVal }
  | _, _ => c

omit [CongestionController σ] in
theorem recordTimestamp_eq (opts : List TcpOption) (c : Conn σ) :
    ∃ ts, c.recordTimestamp opts = { c with tsRecent := ts } := by
  unfold recordTimestamp
  split
  · exact ⟨_, rfl⟩
  · exact ⟨c.tsRecent, rfl⟩

def acceptWnd (c : Conn σ) : BitVec 32 :=
  if BitVec.ofNat 32 c.recvBufCap = 0 then BitVec.ofNat 32 defaultRecvBuf else BitVec.ofNat 32 c.recvBufCap

/-- `segmentAcceptable`; the window is never zero, so the branches for a zero window are not reached. -/
def segmentAcceptable (seg : Segment) (c : Conn σ) : Bool :=
  if !c.opened then true
  else if seg.segLen = 0 then seqInRange seg.seq c.recvBuf.nxt (c.recvBuf.nxt + c.acceptWnd)
  else
    seqInRange seg.seq c.recvBuf.nxt (c.recvBuf.nxt + c.acceptWnd) ||
      seqInRange (seg.seq + seg.segLen - 1) c.recvBuf.nxt (c.recvBuf.nxt + c.acceptWnd)

inductive RSTVerdict
  | accept
  | challenge
  | ignore
  deriving DecidableEq, Repr

/-- `validateRST` in the synchronized states, the only ones it is called in. -/
def validateRST (seg : Segment) (c : Conn σ) : RSTVerdict :=
  if !c.opened then .accept
  else if seg.seq = c.recvBuf.nxt then .accept
  else if seqInRange seg.seq c.recvBuf.nxt (c.recvBuf.nxt + c.recvBuf.window) then .challenge
  else .ignore

/-! ### Opening -/

/-- The allocation of the two buffers in the opening calls. -/
def openBufs (cap : Nat) (iss irs : BitVec 32) (c : Conn σ) : Conn σ :=
  { c with sendBuf := newSendBuf cap iss, recvBuf := newRecvBuf irs c.recvBufCap, opened := true, iss := iss }

/-- `Connect` up to its wait for the handshake; nothing happens unless the state is CLOSED. -/
def connect (now : Int) (iss : BitVec 32) (c : Conn σ) : Conn σ :=
  if c.state ≠ .closed then c
  else
    let c := (c.openBufs c.sendBufSize iss 0).setState .synSent
    let c := c.queueSeg (c.synSegment now iss)
    startRTO { c with sendBuf := c.sendBuf.advanceSent 1, rto := c.rto.startTiming now iss }

def acceptSYN (now : Int) (iss : BitVec 32) (syn : Segment) (c : Conn σ) : Conn σ :=
  if c.state ≠ .closed ∧ c.state ≠ .listen then c
  else
    let c := negotiateOptions syn.options (narrowMSS syn.options c)
    let c := (c.openBufs c.sendBufCap iss (syn.seq + 1)).setState .synReceived
    let c := c.queueSeg (c.synAckSegment now iss)
    let c := { c with sendBuf := c.sendBuf.advanceSent 1, recvBuf := (c.recvBuf.insert (syn.seq + 1) syn.payload).1 }
    c.startRTO

def acceptCookie (remoteSeq ourISS : BitVec 32) (mss : BitVec 16) (initialData : List Byte) (c : Conn σ) :
    Conn σ :=
  if c.state ≠ .closed ∧ c.state ≠ .listen then c
  else
    let c := if mss.toNat < c.mss then { c with mss := mss.toNat } else c
    let c := { c.openBufs c.sendBufCap (ourISS + 1) remoteSeq with iss := ourISS }
    let c := (c.setState .established).safeCloseEstablished
    let c := if c.keepalive then c.startKeepalive else c
    let c := { c with recvBuf := (c.recvBuf.insert remoteSeq initialData).1 }
    c.queueSeg { c.ackSegment 0 c.sendBuf.nxt flagACK [] with options := [] }

def setupForHandshake (iss : BitVec 32) (c : Conn σ) : Conn σ :=
  let c := (c.openBufs c.sendBufCap iss 0).setState .synSent
  { c with sendBuf := c.sendBuf.advanceSent 1 }

/-! ### The handlers -/

def handleClosed (seg : Segment) (c : Conn σ) : Conn σ :=
  if seg.hasFlag flagRST then c
  else if seg.hasFlag flagACK then c.queueSeg (c.rstSegment seg.ack)
  else c.queueSeg { c.rstSegment 0 with ack := seg.seq + seg.segLen, flags := flagRST ||| flagACK }

/-- The window update from an incoming segment: `uint32(seg.Window) << c.sndWndShift`. -/
def scaledWindow (seg : Segment) (c : Conn σ) : BitVec 32 := (seg.window.zeroExtend 32) <<< c.sndWndShift

/-- The branch of `handleSynSent` for an acceptable SYN-ACK. -/
def completeActiveOpen (now : Int) (seg : Segment) (c : Conn σ) : Conn σ :=
  let c := { c with sendBuf := (c.sendBuf.acknowledge seg.ack).1, retries := 0 }
  let c := c.stopRTO
  let c := { c with recvBuf := newRecvBuf (seg.seq + 1) c.recvBufCap, sndWnd := c.scaledWindow seg,
                    cc := CongestionController.new c.ccName (BitVec.ofNat 32 c.mss),
                    rto := c.rto.ackReceived now seg.ack }
  let c := c.setState .established
  let c :=
    if seg.payload ≠ [] then
      broadcastRecv { c with recvBuf := (c.recvBuf.insert (seg.seq + 1) seg.payload).1 }
    else c
  let c := flushSendQueue now (queueACK now c)
  let c := if c.keepalive then c.startKeepalive else c
  c.safeCloseEstablished

omit [CongestionController σ] in
theorem startKeepalive_frame (c : Conn σ) : let d := if c.keepalive then c.startKeepalive else c
    d = { c with keepaliveTimer := d.keepaliveTimer, persistTimer := d.persistTimer
                 persistBackoff := d.persistBackoff } := by
  split <;> rfl

/-- The connection that has taken a cookie and the first data in, before it answers. -/
def cookieAccepted (remoteSeq ourISS : BitVec 32) (m : Nat) (initialData : List Byte) (kt pt : Option Int) (pb : Int)
    (c : Conn σ) : Conn σ :=
  { (c.openBufs c.sendBufCap (ourISS + 1) remoteSeq).setState .established with
    iss := ourISS, mss := m, establishedClosed := true, keepaliveTimer := kt, persistTimer := pt, persistBackoff := pb
    recvBuf := ((newRecvBuf remoteSeq c.recvBufCap).insert remoteSeq initialData).1 }

variable {c : Conn σ} {seg : Segment}

omit [CongestionController σ] in
theorem acceptCookie_frame (remoteSeq ourISS : BitVec 32) (mss : BitVec 16) (initialData : List Byte)
    (hst : c.state = .closed ∨ c.state = .listen) :
    ∃ m kt pt pb, let d := c.cookieAccepted remoteSeq ourISS m initialData kt pt pb
      acceptCookie remoteSeq ourISS mss initialData c =
        d.queueSeg { d.ackSegment 0 d.sendBuf.nxt flagACK [] with options := [] } := by
  have hno : ¬(c.state ≠ .closed ∧ c.state ≠ .listen) := by tauto
  have hmss : ∃ m, (if mss.toNat < c.mss then { c with mss := mss.toNat } else c) = { c with mss := m } := by
    split
    · exact ⟨_, rfl⟩
    · exact ⟨c.mss, rfl⟩
  obtain ⟨m, hmss⟩ := hmss
  unfold acceptCookie
  rw [if_neg hno, hmss]
  simp only
  have hopen : ({ openBufs { c with mss := m }.sendBufCap (ourISS + 1) remoteSeq { c with mss := m } with
        iss := ourISS }.setState .established).safeCloseEstablished =
      { (c.openBufs c.sendBufCap (ourISS + 1) remoteSeq).setState .established with
        iss := ourISS, mss := m, establishedClosed := true } := rfl
  rw [hopen, startKeepalive_frame]
  exact ⟨m, _, _, _, rfl⟩

/-- The connection that has taken the SYN-ACK in, before it answers; `rc` counts the wake-ups of readers. -/
def synAcked (now : Int) (seg : Segment) (rc : Nat) (c : Conn σ) : Conn σ :=
  { c.setState .established with
    sendBuf := (c.sendBuf.acknowledge seg.ack).1, retries := 0, rtoTimer := none, sndWnd := c.scaledWindow seg
    recvBuf := ((newRecvBuf (seg.seq + 1) c.recvBufCap).insert (seg.seq + 1) seg.payload).1
    cc := CongestionController.new c.ccName (BitVec.ofNat 32 c.mss), rto := c.rto.ackReceived now seg.ack
    recvCond := rc }

theorem completeActiveOpen_frame (now : Int) (seg : Segment) (c : Conn σ) :
    ∃ rc, let d := completeActiveOpen now seg c
      d = { flushSendQueue now (queueACK now (c.synAcked now seg rc)) with
            keepaliveTimer := d.keepaliveTimer, persistTimer := d.persistTimer, persistBackoff := d.persistBackoff
            establishedClosed := true } := by
  have hdata : ∃ rc, (if seg.payload ≠ [] then
      broadcastRecv { c.synAcked now seg c.recvCond with
        recvBuf := ((newRecvBuf (seg.seq + 1) c.recvBufCap).insert (seg.seq + 1) seg.payload).1 }
      else { c.synAcked now seg c.recvCond with recvBuf := newRecvBuf (seg.seq + 1) c.recvBufCap }) =
      c.synAcked now seg rc := by
    by_cases hp : seg.payload = []
    · refine ⟨c.recvCond, ?_⟩
      rw [if_neg (not_not.2 hp), synAcked, hp]
      rfl
    · exact ⟨c.recvCond + 1, if_pos hp⟩
  obtain ⟨rc, hdata⟩ := hdata
  refine ⟨rc, ?_⟩
  rw [← hdata]
  exact congrArg safeCloseEstablished (startKeepalive_frame _)

/-- The branch of `handleSynSent` for a bare SYN: simultaneous open. -/
def simultaneousOpen (now : Int) (seg : Segment) (c : Conn σ) : Conn σ :=
  let c := { c with recvBuf := newRecvBuf (seg.seq + 1) c.recvBufCap, sndWnd := c.scaledWindow seg }
  let c := { c.setState .synReceived with retries := 0 }
  let c := c.stopRTO
  let c := { c with recvBuf := (c.recvBuf.insert (seg.seq + 1) seg.payload).1 }
  (c.queueSeg (c.synAckSegment now c.sendBuf.una)).startRTO

def handleSynSent (now : Int) (seg : Segment) (c : Conn σ) : Conn σ :=
  if seg.hasFlag flagACK ∧ (seqBeforeEq seg.ack c.sendBuf.una ∨ seqAfter seg.ack c.sendBuf.nxt) then
    if seg.hasFlag flagRST then c else c.queueSeg (c.rstSegment seg.ack)
  else if seg.hasFlag flagRST then
    if seg.hasFlag flagACK then c.shut.stopRTO.safeCloseEstablished.safeCloseFinRecvd else c
  else if !seg.hasFlag flagSYN then c
  else
    let c := negotiateOptions seg.options (narrowMSS seg.options c)
    if seg.hasFlag flagACK then completeActiveOpen now seg c else simultaneousOpen now seg c

def processFINStateTransition (c : Conn σ) : Conn σ :=
  match c.state with
  | .established => (c.setState .closeWait).safeCloseFinRecvd
  | .finWait1 =>
    let c := if c.sendBuf.unacked = 0 then (c.setState .timeWait).stopRTO.startTimeWait else c.setState .closing
    c.safeCloseFinRecvd
  | .finWait2 => (c.setState .timeWait).stopRTO.startTimeWait.safeCloseFinRecvd
  | _ => c

omit [CongestionController σ] in
theorem processFINStateTransition_frame (c : Conn σ) : let d := c.processFINStateTransition
    d = { c with state := d.state, entered := d.entered, finRecvdClosed := d.finRecvdClosed, recvCond := d.recvCond
                 rtoTimer := d.rtoTimer, keepaliveTimer := d.keepaliveTimer, persistTimer := d.persistTimer
                 persistBackoff := d.persistBackoff, timeWaitTimer := d.timeWaitTimer } := by
  unfold processFINStateTransition
  split
  · rw [safeCloseFinRecvd_frame]
    rfl
  · rw [safeCloseFinRecvd_frame]
    split <;> rfl
  · rw [safeCloseFinRecvd_frame]
    rfl
  · rfl

omit [CongestionController σ] in
theorem recvBuf_processFINStateTransition (c : Conn σ) : c.processFINStateTransition.recvBuf = c.recvBuf := by
  rw [processFINStateTransition_frame]

omit [CongestionController σ] in
theorem processFINStateTransition_synReceived (hs : c.processFINStateTransition.state = .synReceived) :
    c.state = .synReceived := by
  unfold processFINStateTransition at hs
  split at hs
  · rw [state_safeCloseFinRecvd] at hs
    cases hs
  · rw [state_safeCloseFinRecvd] at hs
    split at hs <;> cases hs
  · rw [state_safeCloseFinRecvd] at hs
    cases hs
  · exact hs

/-- `d` is `c` after data or a FIN: only the receiving side, the state and the timers may differ; SYN-RECEIVED is not
entered. -/
structure Taken (c d : Conn σ) : Prop where
  frame : d =
    { c with recvBuf := d.recvBuf, finPending := d.finPending, pendingFinSeq := d.pendingFinSeq, state := d.state
             entered := d.entered, finRecvdClosed := d.finRecvdClosed, recvCond := d.recvCond, rtoTimer := d.rtoTimer
             keepaliveTimer := d.keepaliveTimer, persistTimer := d.persistTimer, persistBackoff := d.persistBackoff
             timeWaitTimer := d.timeWaitTimer }
  synReceived : d.state = .synReceived → c.state = .synReceived

omit [CongestionController σ] in
theorem Taken.trans {c d e : Conn σ} (h : Taken c d) (h' : Taken d e) : Taken c e := by
  refine ⟨?_, fun hs => h.synReceived (h'.synReceived hs)⟩
  rw [h'.frame, h.frame]

omit [CongestionController σ] in
theorem taken_processFINStateTransition (c : Conn σ) : Taken c c.processFINStateTransition := by
  refine ⟨?_, processFINStateTransition_synReceived⟩
  rw [processFINStateTransition_frame]

def processData (seg : Segment) (c : Conn σ) : Conn σ :=
  let r := c.recvBuf.insert seg.seq seg.payload
  let finReady := c.finPending && decide (c.pendingFinSeq = r.1.nxt)
  let c :=
    if finReady then { c with recvBuf := r.1.consumeFIN, finPending := false } else { c with recvBuf := r.1 }
  let c := if r.2 > 0 then c.broadcastRecv else c
  if finReady then c.processFINStateTransition else c

omit [CongestionController σ] in
theorem taken_processData (seg : Segment) (c : Conn σ) : Taken c (processData seg c) := by
  unfold processData
  simp only
  split
  · refine Taken.trans ?_ (taken_processFINStateTransition _)
    split <;> exact ⟨rfl, id⟩
  · split <;> exact ⟨rfl, id⟩

def processFIN (seg : Segment) (c : Conn σ) : Conn σ :=
  let finSeq := seg.seq + seg.dataLen
  if finSeq = c.recvBuf.nxt then processFINStateTransition { c with recvBuf := c.recvBuf.consumeFIN }
  else { c with finPending := true, pendingFinSeq := finSeq }

/-- The ACK part of `handleDataState` and `handleCloseWait`: the acknowledgment is processed with the window known
before, then the new one is taken. -/
def processSegACK (now : Int) (seg : Segment) (c : Conn σ) : Conn σ :=
  if seg.hasFlag flagACK then
    let c := processACK now seg.ack seg.options c
    { c with sndWnd := c.scaledWindow seg }
  else c

theorem processSegACK_of_ack (now : Int) (hack : seg.hasFlag flagACK = true) :
    processSegACK now seg c =
      { processACK now seg.ack seg.options c with
        sndWnd := (processACK now seg.ack seg.options c).scaledWindow seg } := by
  unfold processSegACK
  rw [if_pos hack]

def handleDataState (now : Int) (seg : Segment) (c : Conn σ) : Conn σ :=
  if !c.pawsOK seg.options then queueACK now c
  else
    let c := processSegACK now seg (c.recordTimestamp seg.options)
    let c := if seg.payload ≠ [] then processData seg c else c
    let c :=
      if seg.hasFlag flagFIN then processFIN seg c
      else if c.state = .finWait1 ∧ seg.hasFlag flagACK ∧ seg.ack = c.sendBuf.nxt then c.setState .finWait2
      else c
    if seg.payload ≠ [] ∨ seg.hasFlag flagFIN then queueACK now c else c

theorem handleDataState_of_paws (now : Int) (hp : c.pawsOK seg.options = false) :
    handleDataState now seg c = queueACK now c := by
  unfold handleDataState
  rw [if_pos (by rw [hp]; rfl)]

def dataAndFIN (seg : Segment) (c : Conn σ) : Conn σ :=
  let c := if seg.payload ≠ [] then processData seg c else c
  if seg.hasFlag flagFIN then processFIN seg c
  else if c.state = .finWait1 ∧ seg.hasFlag flagACK ∧ seg.ack = c.sendBuf.nxt then c.setState .finWait2
  else c

theorem handleDataState_eq (now : Int) (hp : c.pawsOK seg.options = true) :
    handleDataState now seg c =
      if seg.payload ≠ [] ∨ seg.hasFlag flagFIN then
        queueACK now (dataAndFIN seg (processSegACK now seg (c.recordTimestamp seg.options)))
      else dataAndFIN seg (processSegACK now seg (c.recordTimestamp seg.options)) := by
  unfold handleDataState
  rw [if_neg (by rw [hp]; decide)]
  rfl

omit [CongestionController σ] in
theorem taken_processFIN (seg : Segment) (c : Conn σ) : Taken c (processFIN seg c) := by
  unfold processFIN
  simp only
  split
  · exact Taken.trans (d := { c with recvBuf := c.recvBuf.consumeFIN }) ⟨rfl, id⟩ (taken_processFINStateTransition _)
  · exact ⟨rfl, id⟩

omit [CongestionController σ] in
theorem taken_dataAndFIN (seg : Segment) (c : Conn σ) : Taken c (dataAndFIN seg c) := by
  have hdata : Taken c (if seg.payload ≠ [] then processData seg c else c) := by
    split
    · exact taken_processData seg c
    · exact ⟨rfl, id⟩
  unfold dataAndFIN
  generalize (if seg.payload ≠ [] then processData seg c else c) = d at hdata
  simp only
  split
  · exact hdata.trans (taken_processFIN seg d)
  · split
    · exact hdata.trans ⟨rfl, fun hs => by cases hs⟩
    · exact hdata

/-- The part of `handleSynReceived` that enters ESTABLISHED. -/
def completePassiveOpen (seg : Segment) (c : Conn σ) : Conn σ :=
  let c := { c with sendBuf := (c.sendBuf.acknowledge seg.ack).1, retries := 0 }
  let c := c.stopRTO
  let c := { c with sndWnd := c.scaledWindow seg }
  let c := c.setState .established
  let c := if c.keepalive then c.startKeepalive else c
  c.safeCloseEstablished

omit [CongestionController σ] in
theorem completePassiveOpen_eq (seg : Segment) (c : Conn σ) : let d := completePassiveOpen seg c
    d = { c.setState .established with
          sendBuf := (c.sendBuf.acknowledge seg.ack).1, retries := 0, rtoTimer := none, sndWnd := c.scaledWindow seg
          keepaliveTimer := d.keepaliveTimer, persistTimer := d.persistTimer, persistBackoff := d.persistBackoff
          establishedClosed := true } :=
  congrArg safeCloseEstablished (startKeepalive_frame _)

def handleSynReceived (now : Int) (seg : Segment) (c : Conn σ) : Conn σ :=
  if seg.ack ≠ c.sendBuf.nxt then c.queueSeg (c.rstSegment seg.ack)
  else handleDataState now seg (completePassiveOpen seg c)

def handleCloseWait (now : Int) (seg : Segment) (c : Conn σ) : Conn σ := processSegACK now seg c

def handleClosing (now : Int) (seg : Segment) (c : Conn σ) : Conn σ :=
  let c :=
    if seg.hasFlag flagACK ∧ seg.ack = c.sendBuf.nxt then (c.setState .timeWait).stopRTO.startTimeWait else c
  queueACK now c

def handleLastAck (seg : Segment) (c : Conn σ) : Conn σ :=
  if seg.hasFlag flagACK ∧ seg.ack = c.sendBuf.nxt then
    c.shut.stopRTO.stopKeepalive.stopPersist.broadcastRecv.broadcastSend
  else c

def dispatch (now : Int) (seg : Segment) (c : Conn σ) : Conn σ :=
  match c.state with
  | .synReceived => handleSynReceived now seg c
  | .established => handleDataState now seg c
  | .finWait1 => handleDataState now seg c
  | .finWait2 => handleDataState now seg c
  | .closeWait => handleCloseWait now seg c
  | .closing => handleClosing now seg c
  | .lastAck => handleLastAck seg c
  | .timeWait => queueACK now c.restartTimeWait
  | _ => c

def resetTeardown (c : Conn σ) : Conn σ :=
  c.shut.stopRTO.stopPersist.stopKeepalive.broadcastRecv.broadcastSend.safeCloseEstablished.safeCloseFinRecvd

omit [CongestionController σ] in
theorem resetTeardown_frame (c : Conn σ) : let d := c.resetTeardown
    d = { c.shut with
          rtoTimer := none, persistTimer := none, persistBackoff := 0, keepaliveTimer := none
          sendCond := c.sendCond + 1, establishedClosed := true, finRecvdClosed := d.finRecvdClosed
          recvCond := d.recvCond } :=
  safeCloseFinRecvd_frame c.shut.stopRTO.stopPersist.stopKeepalive.broadcastRecv.broadcastSend.safeCloseEstablished

/-- The special acceptance rule of `handleSynchronized`: a SYN-ACK of our SYN in SYN-RECEIVED. -/
def synRcvdOK (seg : Segment) (c : Conn σ) : Bool :=
  decide (c.state = .synReceived) && seg.hasFlag flagSYN && seg.hasFlag flagACK && decide (seg.ack = c.sendBuf.nxt)

def handleSynchronized (now : Int) (seg : Segment) (c : Conn σ) : Conn σ :=
  if !c.segmentAcceptable seg ∧ !c.synRcvdOK seg then
    if seg.hasFlag flagRST then c else queueACK now c
  else if seg.hasFlag flagRST then
    match c.validateRST seg with
    | .challenge => queueACK now c
    | .ignore => c
    | .accept => c.resetTeardown
  else if seg.hasFlag flagSYN ∧ c.state ≠ .synReceived then queueACK now c
  else if !seg.hasFlag flagACK then c
  else dispatch now seg c

/-- The checks that `handleSynchronized` makes before the handler of the state sees the segment. -/
structure Passes (seg : Segment) (c : Conn σ) : Prop where
  acceptable : (c.segmentAcceptable seg || c.synRcvdOK seg) = true
  rst : seg.hasFlag flagRST = false
  syn : seg.hasFlag flagSYN = false ∨ c.state = .synReceived
  ack : seg.hasFlag flagACK = true

theorem Passes.handleSynchronized (now : Int) (h : c.Passes seg) :
    handleSynchronized now seg c = dispatch now seg c := by
  have hacc : ¬((!c.segmentAcceptable seg) = true ∧ (!c.synRcvdOK seg) = true) := by
    have hin := h.acceptable
    rintro ⟨h₁, h₂⟩
    simp only [Bool.not_eq_true'] at h₁ h₂
    rw [h₁, h₂] at hin
    cases hin
  have hsyn : ¬(seg.hasFlag flagSYN = true ∧ c.state ≠ .synReceived) := by
    rintro ⟨h₁, h₂⟩
    cases h₁.symm.trans (h.syn.resolve_right h₂)
  unfold Conn.handleSynchronized
  rw [if_neg hacc, if_neg (by rw [h.rst]; decide), if_neg hsyn, if_neg (by rw [h.ack]; decide)]

/-- `HandleSegment`; the segments to send are in `outgoing`. -/
def handleSegment (now : Int) (seg : Segment) (c : Conn σ) : Conn σ :=
  let c := { c with lastRecv := now, keepaliveSent := 0 }
  match c.state with
  | .closed => handleClosed seg c
  | .listen => c
  | .synSent => handleSynSent now seg c
  | _ => handleSynchronized now seg c

/-- The connection once `HandleSegment` has recorded the arrival of a segment. -/
def touch (now : Int) (c : Conn σ) : Conn σ := { c with lastRecv := now, keepaliveSent := 0 }

theorem handleSegment_synchronized {now : Int} (hs : c.state.synchronized = true) :
    c.handleSegment now seg = handleSynchronized now seg (c.touch now) := by
  unfold handleSegment
  simp only
  split
  · rename_i hst
    have hst' : c.state = .closed := hst
    rw [hst'] at hs
    cases hs
  · rename_i hst
    have hst' : c.state = .listen := hst
    rw [hst'] at hs
    cases hs
  · rename_i hst
    have hst' : c.state = .synSent := hst
    rw [hst'] at hs
    cases hs
  · rfl

omit [CongestionController σ] in
theorem passes_touch {now : Int} : (c.touch now).Passes seg ↔ c.Passes seg :=
  ⟨fun h => { h with }, fun h => { h with }⟩

theorem Passes.handleSegment (now : Int) (h : c.Passes seg)
    (hsync : c.state.synchronized = true) : c.handleSegment now seg = dispatch now seg (c.touch now) := by
  rw [handleSegment_synchronized hsync]
  exact (passes_touch.2 h).handleSynchronized now

/-! ### What a segment leads to -/

def resetAccepted (seg : Segment) (c : Conn σ) : Bool :=
  seg.hasFlag flagRST &&
    match c.state with
    | .closed => false
    | .listen => false
    | .synSent => seg.hasFlag flagACK && !seqBeforeEq seg.ack c.sendBuf.una && !seqAfter seg.ack c.sendBuf.nxt
    | _ => (c.segmentAcceptable seg || c.synRcvdOK seg) && decide (c.validateRST seg = .accept)

def takesACK (seg : Segment) (c : Conn σ) : Bool :=
  (c.segmentAcceptable seg || c.synRcvdOK seg) && !seg.hasFlag flagRST &&
    (!seg.hasFlag flagSYN || c.state == .synReceived) && seg.hasFlag flagACK &&
    match c.state with
    | .synReceived => decide (seg.ack = c.sendBuf.nxt) && c.pawsOK seg.options
    | .established => c.pawsOK seg.options
    | .finWait1 => c.pawsOK seg.options
    | .finWait2 => c.pawsOK seg.options
    | .closeWait => true
    | _ => false

omit [CongestionController σ] in
theorem Passes.of_takesACK (h : c.takesACK seg = true) : c.Passes seg := by
  simp only [takesACK, Bool.and_eq_true, Bool.not_eq_true', Bool.or_eq_true (!_), beq_iff_eq] at h
  obtain ⟨⟨⟨⟨hacc, hrst⟩, hsyn⟩, hack⟩, -⟩ := h
  exact ⟨hacc, hrst, hsyn, hack⟩

omit [CongestionController σ] in
theorem Passes.takesACK_eq (h : c.Passes seg) :
    c.takesACK seg = match c.state with
      | .synReceived => decide (seg.ack = c.sendBuf.nxt) && c.pawsOK seg.options
      | .established => c.pawsOK seg.options
      | .finWait1 => c.pawsOK seg.options
      | .finWait2 => c.pawsOK seg.options
      | .closeWait => true
      | _ => false := by
  have hsyn : (!seg.hasFlag flagSYN || c.state == .synReceived) = true := by
    rcases h.syn with hs | hs <;> rw [hs] <;> simp
  unfold takesACK
  rw [h.acceptable, h.rst, hsyn, h.ack]
  rfl

omit [CongestionController σ] in
/-- Nothing of the segment is taken over: no acknowledgment, and no SYN or acknowledgment of ours that opens. -/
structure Leaves (seg : Segment) (c : Conn σ) : Prop where
  ack : c.takesACK seg = false
  syn : c.state = .synSent → (seg.hasFlag flagSYN && !seg.hasFlag flagRST &&
    (!seg.hasFlag flagACK || !seqBeforeEq seg.ack c.sendBuf.una && !seqAfter seg.ack c.sendBuf.nxt)) = false
  passive : c.state = .synReceived → c.Passes seg → seg.ack ≠ c.sendBuf.nxt

/-- What `HandleSegment` makes of a connection once it has recorded the arrival. -/
inductive Handled (now : Int) (seg : Segment) (c : Conn σ) : Conn σ → Prop
  -- nothing is taken over
  | ignored (ht : c.Leaves seg) : Handled now seg c c
  | answered (ht : c.Leaves seg) (hs : c.state.synchronized = true) : Handled now seg c (queueACK now c)
  | refused {rst : Segment} (ht : c.Leaves seg)
      (hst : c.state = .closed ∨ c.state = .synSent ∨ c.state = .synReceived) (hr : rst = c.rstSegment seg.ack ∨
        rst = { c.rstSegment 0 with ack := seg.seq + seg.segLen, flags := flagRST ||| flagACK }) :
      Handled now seg c (c.queueSeg rst)
  | closing (ht : c.Leaves seg) (hst : c.state = .closing) (hack : seg.ack = c.sendBuf.nxt) :
      Handled now seg c (queueACK now (c.setState .timeWait).stopRTO.startTimeWait)
  | timeWait (ht : c.Leaves seg) (hst : c.state = .timeWait) :
      Handled now seg c (queueACK now { c with timeWaitTimer := c.restartTimeWait.timeWaitTimer })
  -- the end
  | lastAck (ht : c.Leaves seg) (hst : c.state = .lastAck) (hack : seg.ack = c.sendBuf.nxt) :
      Handled now seg c c.shut.stopRTO.stopKeepalive.stopPersist.broadcastRecv.broadcastSend
  | reset (ht : c.Leaves seg) (hs : c.state.synchronized = true) (hr : c.resetAccepted seg = true) :
      Handled now seg c c.resetTeardown
  | refusedOpen (ht : c.Leaves seg) (hst : c.state = .synSent) (hr : c.resetAccepted seg = true) :
      Handled now seg c c.shut.stopRTO.safeCloseEstablished.safeCloseFinRecvd
  -- the handshake
  | synAck (hst : c.state = .synSent) (hsyn : seg.hasFlag flagSYN = true) (hrst : seg.hasFlag flagRST = false)
      (hack : seg.hasFlag flagACK = true) (hlo : seqBeforeEq seg.ack c.sendBuf.una = false)
      (hhi : seqAfter seg.ack c.sendBuf.nxt = false) :
      Handled now seg c (completeActiveOpen now seg (negotiateOptions seg.options (narrowMSS seg.options c)))
  | syn (hst : c.state = .synSent) (hsyn : seg.hasFlag flagSYN = true) (hrst : seg.hasFlag flagRST = false)
      (hack : seg.hasFlag flagACK = false) :
      Handled now seg c (simultaneousOpen now seg (negotiateOptions seg.options (narrowMSS seg.options c)))
  | passive (hst : c.state = .synReceived) (hp : c.Passes seg) (hack : seg.ack = c.sendBuf.nxt) :
      Handled now seg c (handleDataState now seg (completePassiveOpen seg c))
  -- the acknowledgment is processed
  | data (hst : c.state = .established ∨ c.state = .finWait1 ∨ c.state = .finWait2) (hp : c.Passes seg)
      (ht : c.takesACK seg = true) (hpaws : c.pawsOK seg.options = true) : Handled now seg c (handleDataState now seg c)
  | closeWait (hst : c.state = .closeWait) (hp : c.Passes seg) (ht : c.takesACK seg = true) :
      Handled now seg c (processSegACK now seg c)

omit [CongestionController σ] in
theorem Leaves.of_state (st : State) (hst : c.state = st) (hs : st ≠ .synSent) (ht : c.takesACK seg = false)
    (hpassive : st ≠ .synReceived ∨ (c.Passes seg → seg.ack ≠ c.sendBuf.nxt)) : c.Leaves seg :=
  ⟨ht, fun h => absurd (hst.symm.trans h) hs, fun h => hpassive.resolve_left (not_not.2 (hst.symm.trans h))⟩

theorem Passes.handled_dispatch (now : Int) (hp : c.Passes seg) (hsync : c.state.synchronized = true) :
    Handled now seg c (dispatch now seg c) := by
  have htakes := hp.takesACK_eq
  have hdata : ∀ st, c.state = st → st = .established ∨ st = .finWait1 ∨ st = .finWait2 →
      Handled now seg c (handleDataState now seg c) := by
    rintro st rfl hst
    have ht : c.takesACK seg = c.pawsOK seg.options := by
      rw [htakes]
      rcases hst with hs | hs | hs <;> rw [hs]
    cases hpaws : c.pawsOK seg.options with
    | true => exact .data hst hp (ht.trans hpaws) hpaws
    | false =>
      rw [handleDataState_of_paws now hpaws]
      refine .answered (.of_state _ rfl ?_ (ht.trans hpaws) (.inl ?_)) hsync <;>
        rcases hst with h | h | h <;> rw [h] <;> decide
  have hidle : ∀ st, c.state = st → st = .closing ∨ st = .lastAck ∨ st = .timeWait → c.Leaves seg := by
    rintro st hst (rfl | rfl | rfl) <;>
      exact .of_state _ hst (by decide) (by rw [htakes, hst]) (.inl (by decide))
  unfold dispatch
  cases hst : c.state with
  | closed | listen | synSent =>
    rw [hst] at hsync
    cases hsync
  | synReceived =>
    show Handled now seg c (handleSynReceived now seg c)
    unfold handleSynReceived
    split
    · rename_i hack
      refine .refused (.of_state _ hst (by decide) ?_ (.inr fun _ => hack)) (.inr (.inr hst)) (.inl rfl)
      rw [htakes, hst]
      simp [hack]
    · rename_i hack
      exact .passive hst hp (not_not.1 hack)
  | established => exact hdata _ hst (.inl rfl)
  | finWait1 => exact hdata _ hst (.inr (.inl rfl))
  | finWait2 => exact hdata _ hst (.inr (.inr rfl))
  | closeWait => exact .closeWait hst hp (by rw [htakes, hst])
  | closing =>
    show Handled now seg c (handleClosing now seg c)
    unfold handleClosing
    simp only
    split
    · rename_i hack
      exact .closing (hidle _ hst (.inl rfl)) hst hack.2
    · exact .answered (hidle _ hst (.inl rfl)) hsync
  | lastAck =>
    show Handled now seg c (handleLastAck seg c)
    unfold handleLastAck
    split
    · rename_i hack
      exact .lastAck (hidle _ hst (.inr (.inl rfl))) hst hack.2
    · exact .ignored (hidle _ hst (.inr (.inl rfl)))
  | timeWait =>
    have htimer : c.restartTimeWait = { c with timeWaitTimer := c.restartTimeWait.timeWaitTimer } := by
      unfold restartTimeWait
      split <;> rfl
    show Handled now seg c (queueACK now c.restartTimeWait)
    rw [htimer]
    exact .timeWait (hidle _ hst (.inr (.inr rfl))) hst

theorem handled_handleSynchronized (now : Int) (seg : Segment) (hsync : c.state.synchronized = true) :
    Handled now seg c (handleSynchronized now seg c) := by
  have hleaves : ¬c.Passes seg → c.Leaves seg := fun h =>
    .of_state _ rfl (fun hs => by rw [hs] at hsync; cases hsync)
      (Bool.eq_false_of_not_eq_true fun ht => h (.of_takesACK ht)) (.inr fun hp => absurd hp h)
  unfold handleSynchronized
  split
  · rename_i hacc
    have ht : c.Leaves seg := by
      refine hleaves fun h => ?_
      have hin := h.acceptable
      simp only [Bool.not_eq_true'] at hacc
      rw [hacc.1, hacc.2] at hin
      cases hin
    split
    · exact .ignored ht
    · exact .answered ht hsync
  · rename_i hacc
    have hin : (c.segmentAcceptable seg || c.synRcvdOK seg) = true := by
      by_contra h
      exact hacc (by simpa using h)
    split
    · rename_i hrst
      have ht : c.Leaves seg := hleaves fun h => by cases hrst.symm.trans h.rst
      split
      · exact .answered ht hsync
      · exact .ignored ht
      · rename_i hv
        refine .reset ht hsync ?_
        unfold resetAccepted
        rw [hrst, hin, hv]
        cases hst : c.state <;> rw [hst] at hsync <;> first | rfl | cases hsync
    · rename_i hrst
      split
      · rename_i hsyn
        exact .answered (hleaves fun h => by cases hsyn.1.symm.trans (h.syn.resolve_right hsyn.2)) hsync
      · rename_i hsyn
        split
        · rename_i hack
          refine .ignored (hleaves fun h => ?_)
          rw [h.ack] at hack
          cases hack
        · rename_i hack
          refine Passes.handled_dispatch now ⟨hin, by simpa using hrst, ?_, by simpa using hack⟩ hsync
          by_contra h
          refine hsyn ?_
          simpa using h

theorem handled_handleSynSent (now : Int) (seg : Segment) (hst : c.state = .synSent) :
    Handled now seg c (handleSynSent now seg c) := by
  have hleaves : (seg.hasFlag flagSYN && !seg.hasFlag flagRST && (!seg.hasFlag flagACK ||
      !seqBeforeEq seg.ack c.sendBuf.una && !seqAfter seg.ack c.sendBuf.nxt)) = false → c.Leaves seg := fun h =>
    ⟨by simp [takesACK, hst], fun _ => h, fun hs => by cases hst.symm.trans hs⟩
  unfold handleSynSent
  split
  · rename_i hbad
    have ht := hleaves (by rcases hbad with ⟨hack, h | h⟩ <;> simp [hack, h])
    split
    · exact .ignored ht
    · exact .refused ht (.inr (.inl hst)) (.inl rfl)
  · rename_i hok
    split
    · rename_i hrst
      have ht := hleaves (by simp [hrst])
      split
      · rename_i hack
        refine .refusedOpen ht hst ?_
        simpa [resetAccepted, hst, hrst, hack] using hok
      · exact .ignored ht
    · rename_i hrst
      split
      · rename_i hsyn
        exact .ignored (hleaves (by simp [Bool.not_eq_true' _ ▸ hsyn]))
      · rename_i hsyn
        have hsyn' : seg.hasFlag flagSYN = true := by simpa using hsyn
        have hrst' : seg.hasFlag flagRST = false := by simpa using hrst
        simp only
        split
        · rename_i hack
          simp only [hack, true_and, not_or, Bool.not_eq_true] at hok
          exact .synAck hst hsyn' hrst' hack hok.1 hok.2
        · rename_i hack
          exact .syn hst hsyn' hrst' (by simpa using hack)

/-- Inversion of `HandleSegment`. -/
theorem handled (now : Int) (seg : Segment) (c : Conn σ) :
    Handled now seg (c.touch now) (c.handleSegment now seg) := by
  show Handled now seg (c.touch now) (match (c.touch now).state with
    | .closed => handleClosed seg (c.touch now)
    | .listen => c.touch now
    | .synSent => handleSynSent now seg (c.touch now)
    | _ => handleSynchronized now seg (c.touch now))
  generalize c.touch now = d
  have hidle : ∀ st, d.state = st → st = .closed ∨ st = .listen → d.Leaves seg := by
    rintro st hst (rfl | rfl) <;>
      exact .of_state _ hst (by decide) (by simp [takesACK, hst]) (.inl (by decide))
  split
  · rename_i hst
    have ht := hidle _ hst (.inl rfl)
    unfold handleClosed
    split
    · exact .ignored ht
    · split
      · exact .refused ht (.inl hst) (.inl rfl)
      · exact .refused ht (.inl hst) (.inr rfl)
  · rename_i hst
    exact .ignored (hidle _ hst (.inr rfl))
  · rename_i hst
    exact handled_handleSynSent now seg hst
  · rename_i h₁ h₂ h₃
    refine handled_handleSynchronized now seg ?_
    cases hst : d.state <;> first | rfl | simp_all
def fastRetransmits (seg : Segment) (c : Conn σ) : Bool :=
  c.takesACK seg && !seqAfter seg.ack c.sendBuf.una && (onDupACK c.cc).2

end Libp2px.Vtcp.Conn
