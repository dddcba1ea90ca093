import Libp2px.Vtcp.Core

/-!
# Connections refine the protocol core

Every call and callback of a connection is a sequence of core steps (`Host.next_core`).  The proof follows the
functions of the source from the inside out: one lemma for each function, with the callee's lemma used by name.
-/

set_option linter.unusedSectionVars false

namespace Libp2px.Vtcp

variable {σ : Type}

open CongestionController

def Host.coreWith (h : Host σ) (c : Conn σ) : Core where
  state := c.state
  entered := c.entered
  closed := c.closed
  established := c.establishedClosed
  finRecvd := c.finRecvdClosed
  opened := c.opened
  iss := c.iss
  sendBuf := c.sendBuf
  recvBuf := c.recvBuf
  recvBufCap := c.recvBufCap
  finPending := c.finPending
  pendingFinSeq := c.pendingFinSeq
  mss := c.mss
  sndWndShift := c.sndWndShift
  rcvWndShift := c.rcvWndShift
  wscaleOK := c.wscaleOK
  tsEnabled := c.tsEnabled
  tsOK := c.tsOK
  sackEnabled := c.sackEnabled
  sackOK := c.sackOK
  accepted := h.accepted
  returned := h.returned
  emitted := h.sent ++ c.outgoing
  received := h.received

def Host.core (h : Host σ) : Core := h.coreWith h.conn

namespace Conn

variable {e : Event} {o : Occasion} (h : Host σ) (c : Conn σ)

/-! ### Updates outside the core -/

theorem coreWith_queueSeg (seg : Segment) : h.coreWith (c.queueSeg seg) = (h.coreWith c).emit seg := by
  simp only [Host.coreWith, queueSeg, Core.emit, List.append_assoc]
  rfl

@[simp] theorem coreWith_startRTO : h.coreWith c.startRTO = h.coreWith c := rfl
@[simp] theorem coreWith_stopRTO : h.coreWith c.stopRTO = h.coreWith c := rfl
@[simp] theorem coreWith_stopPersist : h.coreWith c.stopPersist = h.coreWith c := rfl
@[simp] theorem coreWith_stopKeepalive : h.coreWith c.stopKeepalive = h.coreWith c := rfl
@[simp] theorem coreWith_broadcastRecv : h.coreWith c.broadcastRecv = h.coreWith c := rfl
@[simp] theorem coreWith_broadcastSend : h.coreWith c.broadcastSend = h.coreWith c := rfl

@[simp] theorem coreWith_startTimeWait : h.coreWith c.startTimeWait = h.coreWith c := by
  rw [startTimeWait_eq]
  rfl

theorem coreWith_shut : h.coreWith c.shut = (h.coreWith c).shut false false := by
  simp [Host.coreWith, shut, setState, Core.shut, Core.setState]

theorem coreWith_shutDown :
    h.coreWith c.shut.stopRTO.stopKeepalive.stopPersist.broadcastRecv.broadcastSend = (h.coreWith c).shut false false :=
  coreWith_shut h c

theorem coreWith_setState (st : State) : h.coreWith (c.setState st) = (h.coreWith c).setState st := rfl

theorem coreWith_safeCloseEstablished :
    h.coreWith c.safeCloseEstablished = { h.coreWith c with established := true } := rfl

theorem coreWith_armPersist : h.coreWith c.armPersist = h.coreWith c := by
  unfold armPersist; split <;> rfl

theorem coreWith_rearm (now : Int) (ack : BitVec 32) : h.coreWith (rearm now ack c) = h.coreWith c := by
  rw [rearm_frame]
  rfl

variable (opts : List TcpOption) (seq : BitVec 32)

theorem coreWith_safeCloseFinRecvd :
    h.coreWith c.safeCloseFinRecvd = { h.coreWith c with finRecvd := true } := by
  unfold safeCloseFinRecvd
  split
  · rename_i hf
    simp [Host.coreWith, hf]
  · rfl

theorem coreWith_negotiate :
    h.coreWith (negotiateOptions opts (narrowMSS opts c)) = (h.coreWith c).negotiate opts := by
  obtain ⟨ts, -, h⟩ := negotiate_eq opts c
  rw [h]
  unfold Core.negotiate
  cases getWScale opts <;> rfl

/-! ### Segment kinds -/

variable {seg : Segment} {now' : Int} {now : Int} {iss : BitVec 32}

theorem isControl_ack (hp : seg.payload = []) (hf : seg.flags = flagACK) : Core.IsControl seg :=
  ⟨hp, by rw [Segment.hasFlag, hf]; decide, by rw [Segment.hasFlag, hf]; decide⟩

theorem hasFlag_ack_rst (hf : seg.flags = flagACK) : seg.hasFlag flagRST = false := by
  rw [Segment.hasFlag, hf]
  decide

theorem isControl_rst : Core.IsControl (c.rstSegment seq) :=
  ⟨rfl, by show (flagRST &&& flagSYN != 0) = false; decide, by show (flagRST &&& flagFIN != 0) = false; decide⟩

theorem isData_psh (now : Int) (seq : BitVec 32) {data : List Byte} (hd : data ≠ []) :
    Core.IsData (c.ackSegment now seq (flagACK ||| flagPSH) data) seq data :=
  ⟨rfl, rfl, hd, by show ((flagACK ||| flagPSH) &&& flagSYN != 0) = false; decide,
    by show ((flagACK ||| flagPSH) &&& flagFIN != 0) = false; decide,
    by show ((flagACK ||| flagPSH) &&& flagRST != 0) = false; decide⟩

theorem isFin_fin (now : Int) (seq : BitVec 32) : Core.IsFin (c.ackSegment now seq (flagFIN ||| flagACK) []) seq :=
  ⟨rfl, rfl, by show ((flagFIN ||| flagACK) &&& flagSYN != 0) = false; decide,
    by show ((flagFIN ||| flagACK) &&& flagFIN != 0) = true; decide,
    by show ((flagFIN ||| flagACK) &&& flagRST != 0) = false; decide⟩

theorem isSyn_syn (now : Int) (seq : BitVec 32) : Core.IsSyn (h.coreWith c) (c.synSegment now seq) :=
  ⟨rfl, by show (flagSYN &&& flagSYN != 0) = true; decide, by show (flagSYN &&& flagFIN != 0) = false; decide,
    by show (flagSYN &&& flagRST != 0) = false; decide, c.tsNow now, rfl⟩

theorem isSyn_synAck (now : Int) (seq : BitVec 32) : Core.IsSyn (h.coreWith c) (c.synAckSegment now seq) :=
  ⟨rfl, by show ((flagSYN ||| flagACK) &&& flagSYN != 0) = true; decide,
    by show ((flagSYN ||| flagACK) &&& flagFIN != 0) = false; decide,
    by show ((flagSYN ||| flagACK) &&& flagRST != 0) = false; decide, c.tsNow now, rfl⟩

theorem reports_ackSegment (now : Int) (seq : BitVec 32) (flags : BitVec 8) (data : List Byte) :
    (h.coreWith c).Reports (c.ackSegment now seq flags data) :=
  ⟨fun _ => rfl, fun _ _ => rfl, fun _ => .inr ⟨c.tsNow now, c.tsRecent, rfl⟩⟩

theorem reports_withoutOptions (now : Int) (seq : BitVec 32) (flags : BitVec 8) (data : List Byte) :
    (h.coreWith c).Reports { c.ackSegment now seq flags data with options := [] } :=
  ⟨fun _ => rfl, fun _ _ => rfl, fun _ => .inl rfl⟩

theorem reports_rst {s : Core} (hrst : seg.hasFlag flagRST = true) (hopt : seg.options = []) :
    s.Reports seg := by
  refine ⟨fun h => ?_, fun h => ?_, fun _ => .inl hopt⟩ <;> cases h.symm.trans hrst

theorem hasFlag_rstSegment : (c.rstSegment seq).hasFlag flagRST = true := by
  show (flagRST &&& flagRST != 0) = true
  decide

theorem hasFlag_rstSegment_ack : ¬(c.rstSegment seq).hasFlag flagACK = true := by
  show ¬(flagRST &&& flagACK != 0) = true
  decide

theorem reports_rstSegment {s : Core} : s.Reports (c.rstSegment seq) :=
  reports_rst (hasFlag_rstSegment c seq) rfl

theorem reports_syn (now : Int) (seq : BitVec 32) : (h.coreWith c).Reports (c.synSegment now seq) :=
  ⟨fun _ => rfl, fun _ hack => absurd hack (by show ¬(flagSYN &&& flagACK != 0) = true; decide),
    fun hsyn => absurd hsyn (by show ¬(flagSYN &&& flagSYN != 0) = false; decide)⟩

theorem reports_synAck (now : Int) (seq : BitVec 32) : (h.coreWith c).Reports (c.synAckSegment now seq) :=
  ⟨fun _ => rfl, fun _ _ => rfl,
    fun hsyn => absurd hsyn (by show ¬((flagSYN ||| flagACK) &&& flagSYN != 0) = false; decide)⟩

theorem updateSACK_steps (hs : Core.acksData c.state = true) :
    CoreSteps e o (h.coreWith c) (h.coreWith (updateSACK opts c)) := by
  unfold updateSACK
  split
  · exact .single (.sack hs)
  · exact .refl _

/-- A retransmission that sends something is one the occasion allows. -/
def MayRetransmit (o : Occasion) (c : Conn σ) : Prop :=
  ∀ data, c.sendBuf.retransmitData c.mss = some data → data ≠ [] → o.retransmit c.sendBuf

theorem retransmit_steps (now : Int) (hs : c.closed = false ∨ c.state ≠ .closed) (ho : MayRetransmit o c) :
    CoreSteps e o (h.coreWith c) (h.coreWith (retransmit now c)) := by
  unfold retransmit
  split
  · exact .refl _
  · rename_i data hd
    split
    · exact .refl _
    · rename_i hne
      refine .single ?_
      have heq := coreWith_queueSeg h c (c.ackSegment now c.sendBuf.una (flagACK ||| flagPSH) data)
      show CoreStep e o (h.coreWith c) (h.coreWith (c.queueSeg _))
      rw [heq]
      exact .rexmit hs (ho data hd hne) hd (isData_psh c now _ hne) (reports_ackSegment h c now _ _ _)

theorem queueACK_step (now : Int) (hs : c.state.synchronized = true) :
    CoreStep e o (h.coreWith c) (h.coreWith (queueACK now c)) := by
  rw [queueACK, coreWith_queueSeg]
  exact .control (isControl_ack rfl rfl) (reports_ackSegment h c now _ _ _) (.inr ⟨hasFlag_ack_rst rfl, hs⟩)

theorem queueRST_step : CoreStep e o (h.coreWith c) (h.coreWith (c.queueSeg (c.rstSegment seq))) := by
  rw [coreWith_queueSeg]
  exact .control (isControl_rst c seq) (reports_rstSegment c seq) (.inl ⟨hasFlag_rstSegment c seq, fun hack =>
    absurd hack (hasFlag_rstSegment_ack c seq)⟩)

theorem sendChunk_step (now : Int) {n : Nat} (hs : c.closed = false ∨ c.state ≠ .closed)
    (hp : c.sendBuf.pending > 0) (hd : c.sendBuf.peekUnsent n ≠ []) :
    CoreStep e o (h.coreWith c) (h.coreWith (c.sendChunk now n)) := by
  have hstep : CoreStep e o (h.coreWith c) _ :=
    .chunk (n := n) hs hp (isData_psh c now c.sendBuf.nxt hd) (reports_ackSegment h c now _ _ _)
  have heq : h.coreWith (c.sendChunk now n) = { (h.coreWith c).emit (c.ackSegment now c.sendBuf.nxt
      (flagACK ||| flagPSH) (c.sendBuf.peekUnsent n)) with
        sendBuf := c.sendBuf.advanceSent (c.sendBuf.peekUnsent n).length } := by
    rw [← coreWith_queueSeg]
    unfold sendChunk
    simp only
    split <;> rfl
  rw [heq]
  exact hstep

variable [CongestionController σ]

/-! ### The send path -/

theorem chunkSize_some {c : Conn σ} {n : Nat} (hn : c.chunkSize = some n) :
    c.sendBuf.pending > 0 ∧ c.sendBuf.peekUnsent n ≠ [] := by
  unfold chunkSize at hn
  split at hn
  · cases hn
  · rename_i hp
    simp only at hn
    split at hn
    · cases hn
    · split at hn
      · cases hn
      · split at hn
        · cases hn
        · rename_i hd
          cases hn
          exact ⟨by omega, hd⟩

theorem flushLoop_steps (now : Int) (fuel : Nat) (hs : c.closed = false ∨ c.state ≠ .closed) :
    CoreSteps e o (h.coreWith c) (h.coreWith (flushLoop now fuel c)) := by
  induction fuel generalizing c with
  | zero => exact .refl _
  | succ fuel ih =>
    unfold flushLoop
    split
    · exact .refl _
    · rename_i n hn
      obtain ⟨hp, hd⟩ := chunkSize_some hn
      refine (CoreSteps.single (sendChunk_step h c now hs hp hd)).trans (ih _ ?_)
      unfold sendChunk
      simp only
      split <;> exact hs

theorem flushSendQueue_steps (now : Int) (hs : c.closed = false ∨ c.state ≠ .closed) :
    CoreSteps e o (h.coreWith c) (h.coreWith (flushSendQueue now c)) := by
  unfold flushSendQueue
  rw [coreWith_armPersist]
  exact flushLoop_steps h c now _ hs

/-! ### Acknowledgments -/

theorem state_updateSACK : (updateSACK opts c).state = c.state := by
  rw [updateSACK_frame]

theorem state_rearm (now : Int) (ack : BitVec 32) : (rearm now ack c).state = c.state := by
  rw [rearm_frame]

theorem state_retransmit (now : Int) : (retransmit now c).state = c.state := by
  rw [retransmit_frame]

theorem ne_closed_of_acksData {st : State} (hs : Core.acksData st = true) : st ≠ .closed := by
  rintro rfl
  cases hs

theorem processDupACK_steps (now : Int) (opts : List TcpOption) (hs : Core.acksData c.state = true)
    (ho : (onDupACK c.cc).2 = true → MayRetransmit o c) :
    CoreSteps e o (h.coreWith c) (h.coreWith (processDupACK now opts c)) := by
  unfold processDupACK
  simp only
  refine CoreSteps.trans ?_ (updateSACK_steps h _ opts ?_)
  rotate_left
  · split
    · rw [state_retransmit]
      exact hs
    · exact hs
  split
  · rename_i hd
    refine CoreSteps.trans ?_ (retransmit_steps h _ now (.inr (ne_closed_of_acksData hs)) (ho hd))
    exact .refl _
  · exact .refl _

theorem processNewACK_steps (he : e = .segment now' seg) (now : Int)
    (opts : List TcpOption) (hs : Core.acksData c.state = true) (hlo : seqAfter seg.ack c.sendBuf.una = true)
    (hhi : seqAfter seg.ack c.sendBuf.nxt = false) :
    CoreSteps e o (h.coreWith c) (h.coreWith (processNewACK now seg.ack opts c)) := by
  have h₁ : CoreSteps e o (h.coreWith c) (h.coreWith (c.applyACK seg.ack)) := .single (.ack he hs hlo hhi)
  have h₂ := updateSACK_steps (e := e) (o := o) h (c.applyACK seg.ack) opts hs
  have hs' : (rearm now seg.ack (updateSACK opts (c.applyACK seg.ack))).state ≠ .closed := by
    rw [state_rearm, state_updateSACK]
    exact ne_closed_of_acksData hs
  have h₃ := flushSendQueue_steps (e := e) (o := o) h (rearm now seg.ack (updateSACK opts (c.applyACK seg.ack))) now
    (.inr hs')
  rw [coreWith_rearm] at h₃
  rw [processNewACK, coreWith_broadcastSend]
  exact (h₁.trans h₂).trans h₃

/-- A duplicate acknowledgment that triggers a fast retransmit is one the occasion allows. -/
def MayFastRetransmit (o : Occasion) (seg : Segment) (c : Conn σ) : Prop :=
  seqAfter seg.ack c.sendBuf.una = false → (onDupACK c.cc).2 = true → MayRetransmit o c

theorem processACK_steps (he : e = .segment now' seg) (now : Int)
    (opts : List TcpOption) (hs : Core.acksData c.state = true) (ho : MayFastRetransmit o seg c) :
    CoreSteps e o (h.coreWith c) (h.coreWith (processACK now seg.ack opts c)) := by
  unfold processACK
  split
  · rename_i hlo
    exact processDupACK_steps h c now opts hs (ho (by simpa using hlo))
  · rename_i hlo
    split
    · exact .single (queueACK_step h c now (Core.synchronized_of_acksData hs))
    · rename_i hhi
      exact processNewACK_steps h c he now opts hs (by simpa using hlo) (by simpa using hhi)

theorem processSegACK_steps (he : e = .segment now' seg) (now : Int)
    (hs : Core.acksData c.state = true) (ho : MayFastRetransmit o seg c) :
    CoreSteps e o (h.coreWith c) (h.coreWith (processSegACK now seg c)) := by
  unfold processSegACK
  split
  · refine (processACK_steps h c he now seg.options hs ho).trans ?_
    exact .refl _
  · exact .refl _

/-! ### The send path leaves the state alone -/

/-- The flush changes `SND.NXT`, the RTO and persist timers and the queue of outgoing segments only. -/
theorem flushLoop_frame (now : Int) (fuel : Nat) : let d := flushLoop now fuel c
    d = { c with sendBuf := { c.sendBuf with nxt := d.sendBuf.nxt }, outgoing := d.outgoing, rto := d.rto
                 rtoTimer := d.rtoTimer } := by
  induction fuel generalizing c with
  | zero => rfl
  | succ fuel ih =>
    unfold flushLoop
    split
    · rfl
    · rw [ih]
      unfold sendChunk
      simp only
      split <;> rfl

theorem flushSendQueue_frame (now : Int) : let d := flushSendQueue now c
    d = { c with sendBuf := { c.sendBuf with nxt := d.sendBuf.nxt }, outgoing := d.outgoing, rto := d.rto
                 rtoTimer := d.rtoTimer, persistTimer := d.persistTimer, persistBackoff := d.persistBackoff } := by
  rw [flushSendQueue, flushLoop_frame]
  unfold armPersist
  split <;> rfl

theorem state_flushSendQueue (now : Int) : (flushSendQueue now c).state = c.state := by
  rw [flushSendQueue_frame]

theorem closed_flushSendQueue (now : Int) : (flushSendQueue now c).closed = c.closed := by
  rw [flushSendQueue_frame]

theorem processNewACK_frame (now : Int) (ack : BitVec 32) (opts : List TcpOption) (c : Conn σ) :
    let d := processNewACK now ack opts c
    d = { c with sendBuf := d.sendBuf, retries := 0, cc := ccAfterACK c.cc ack (c.sendBuf.acknowledge ack).2
                 rto := d.rto, rtoTimer := d.rtoTimer, persistTimer := d.persistTimer
                 persistBackoff := d.persistBackoff, outgoing := d.outgoing, sendCond := c.sendCond + 1 } := by
  unfold processNewACK
  rw [flushSendQueue_frame, newACK_frame]
  rfl

theorem una_processNewACK (now : Int) (ack : BitVec 32) (opts : List TcpOption) (c : Conn σ) :
    (processNewACK now ack opts c).sendBuf.una = (c.sendBuf.acknowledge ack).1.una := by
  unfold processNewACK
  rw [flushSendQueue_frame, newACK_frame]
  rfl

theorem processACK_frame (now : Int) (ack : BitVec 32) (opts : List TcpOption) (c : Conn σ) :
    let d := processACK now ack opts c
    d = { c with sendBuf := d.sendBuf, cc := d.cc, rto := d.rto, rtoTimer := d.rtoTimer, persistTimer := d.persistTimer
                 persistBackoff := d.persistBackoff, retries := d.retries, outgoing := d.outgoing
                 sendCond := d.sendCond, hung := d.hung } ∧ c.sendCond ≤ d.sendCond := by
  unfold processACK
  split
  · unfold processDupACK
    rw [updateSACK_frame]
    simp only
    split
    · rw [retransmit_frame]
      exact ⟨rfl, le_rfl⟩
    · exact ⟨rfl, le_rfl⟩
  · split
    · exact ⟨rfl, le_rfl⟩
    · refine ⟨?_, ?_⟩ <;> rw [processNewACK_frame]
      exact Nat.le_succ _

theorem processSegACK_frame (now : Int) (seg : Segment) (c : Conn σ) : let d := processSegACK now seg c
    d = { c with sendBuf := d.sendBuf, sndWnd := d.sndWnd, cc := d.cc, rto := d.rto, rtoTimer := d.rtoTimer
                 persistTimer := d.persistTimer, persistBackoff := d.persistBackoff, retries := d.retries
                 outgoing := d.outgoing, sendCond := d.sendCond, hung := d.hung } := by
  unfold processSegACK
  split
  · rw [(processACK_frame now seg.ack seg.options c).1]
  · rfl

theorem sendCond_processSegACK (now : Int) (seg : Segment) (c : Conn σ) :
    c.sendCond ≤ (processSegACK now seg c).sendCond := by
  unfold processSegACK
  split
  · exact (processACK_frame now seg.ack seg.options c).2
  · exact le_rfl

theorem state_processSegACK (now : Int) (seg : Segment) : (processSegACK now seg c).state = c.state := by
  rw [processSegACK_frame]

/-! ### Data and FIN -/

theorem processFINStateTransition_core (s : Core) (hs : s = h.coreWith c) :
    h.coreWith c.processFINStateTransition =
      if Core.awaitsFIN s.state then
        { s.setState (Core.afterFIN (s.sendBuf.unacked == 0) s.state) with finRecvd := true }
      else s := by
  subst hs
  unfold processFINStateTransition
  have hst : (h.coreWith c).state = c.state := rfl
  have hsb : (h.coreWith c).sendBuf = c.sendBuf := rfl
  rw [hst, hsb]
  cases c.state with
  | established => simp [coreWith_safeCloseFinRecvd, coreWith_setState, Core.awaitsFIN, Core.afterFIN]
  | finWait1 =>
    by_cases hu : c.sendBuf.unacked = 0 <;>
      simp [coreWith_safeCloseFinRecvd, coreWith_setState, Core.awaitsFIN, Core.afterFIN, hu]
  | finWait2 => simp [coreWith_safeCloseFinRecvd, coreWith_setState, Core.awaitsFIN, Core.afterFIN]
  | _ => simp [Core.awaitsFIN]

def dataState (st : State) : Prop := st = .established ∨ st = .finWait1 ∨ st = .finWait2

theorem seesFIN_processFINStateTransition (hs : Core.seesFIN c.state = true) :
    Core.seesFIN c.processFINStateTransition.state = true := by
  unfold processFINStateTransition
  split
  · rw [state_safeCloseFinRecvd]
    rfl
  · rw [state_safeCloseFinRecvd]
    split <;> rfl
  · rw [state_safeCloseFinRecvd]
    rfl
  · exact hs

theorem seesFIN_processData (seg : Segment) (hs : Core.seesFIN c.state = true) :
    Core.seesFIN (processData seg c).state = true := by
  unfold processData
  simp only
  split
  · apply seesFIN_processFINStateTransition
    split <;> exact hs
  · split <;> exact hs

theorem processData_steps (he : e = .segment now seg) (hs : dataState c.state) :
    CoreSteps e o (h.coreWith c) (h.coreWith (processData seg c)) := by
  have hins : CoreSteps e o (h.coreWith c) ((h.coreWith c).insert seg.seq seg.payload) := .single (.insert he hs)
  refine hins.trans ?_
  unfold processData
  simp only
  by_cases hf : (c.finPending && decide (c.pendingFinSeq = (c.recvBuf.insert seg.seq seg.payload).1.nxt)) = true
  · simp only [hf, ↓reduceIte]
    obtain ⟨hp, hq⟩ := Bool.and_eq_true_iff.1 hf
    refine .single ?_
    have hstep : CoreStep e o ((h.coreWith c).insert seg.seq seg.payload) _ := .finDeferred he hp hs (of_decide_eq_true hq)
    have heq : ∀ d : Conn σ, h.coreWith d = { (h.coreWith c).insert seg.seq seg.payload with
        recvBuf := (c.recvBuf.insert seg.seq seg.payload).1.consumeFIN, finPending := false } →
        h.coreWith d.processFINStateTransition =
          { ((h.coreWith c).insert seg.seq seg.payload).consumeFIN with finPending := false } := by
      intro d hd
      rw [processFINStateTransition_core h d _ rfl, hd]
      unfold Core.consumeFIN
      simp only
      split <;> rfl
    rw [heq]
    · exact hstep
    · split <;> rfl
  · simp only [hf, Bool.false_eq_true, ↓reduceIte]
    apply CoreSteps.of_eq
    split <;> rfl

theorem processFIN_steps (he : e = .segment now seg)
    (hfin : seg.hasFlag flagFIN = true) (hs : Core.seesFIN c.state = true) :
    CoreSteps e o (h.coreWith c) (h.coreWith (processFIN seg c)) := by
  unfold processFIN
  simp only
  split
  · rename_i hseq
    have hstep : CoreStep e o (h.coreWith c) _ := .finIn he hfin hs hseq
    rw [processFINStateTransition_core h _ _ rfl]
    exact .single hstep
  · exact .single (.finDefer he hfin)

theorem dataAndFIN_steps (he : e = .segment now seg) (hs : dataState c.state) :
    CoreSteps e o (h.coreWith c) (h.coreWith (dataAndFIN seg c)) ∧ (dataAndFIN seg c).state.synchronized = true := by
  have hsees : Core.seesFIN c.state = true := by
    rcases hs with hs | hs | hs <;> rw [hs] <;> rfl
  have hdata : CoreSteps e o (h.coreWith c) (h.coreWith (if seg.payload ≠ [] then processData seg c else c)) ∧
      Core.seesFIN (if seg.payload ≠ [] then processData seg c else c).state = true := by
    split
    · exact ⟨processData_steps h c he hs, seesFIN_processData c seg hsees⟩
    · exact ⟨.refl _, hsees⟩
  unfold dataAndFIN
  simp only
  generalize (if seg.payload ≠ [] then processData seg c else c) = d at hdata
  obtain ⟨hdata, hsees⟩ := hdata
  split
  · refine ⟨hdata.trans (processFIN_steps h d he ‹_› hsees), Core.synchronized_of_seesFIN ?_⟩
    unfold processFIN
    simp only
    split
    · exact seesFIN_processFINStateTransition _ hsees
    · exact hsees
  · split
    · rename_i hc
      exact ⟨hdata.trans (.single (.finAcked he hc.1 hc.2.2)), rfl⟩
    · exact ⟨hdata, Core.synchronized_of_seesFIN hsees⟩

theorem handleDataState_steps (he : e = .segment now' seg) (now : Int)
    (hs : dataState c.state) (ho : c.pawsOK seg.options = true → MayFastRetransmit o seg c) :
    CoreSteps e o (h.coreWith c) (h.coreWith (handleDataState now seg c)) := by
  have hacks : Core.acksData c.state = true := by
    rcases hs with hs | hs | hs <;> rw [hs] <;> rfl
  cases hpaws : c.pawsOK seg.options with
  | false =>
    rw [handleDataState_of_paws now hpaws]
    exact .single (queueACK_step h c now (Core.synchronized_of_acksData hacks))
  | true =>
    obtain ⟨ts, hts⟩ := recordTimestamp_eq seg.options c
    rw [handleDataState_eq now hpaws, hts]
    have hack : CoreSteps e o (h.coreWith c) (h.coreWith (processSegACK now seg { c with tsRecent := ts })) :=
      processSegACK_steps h { c with tsRecent := ts } he now hacks (ho hpaws)
    have hstate : (processSegACK now seg { c with tsRecent := ts }).state = c.state := state_processSegACK _ now seg
    generalize processSegACK now seg { c with tsRecent := ts } = d at hack hstate
    obtain ⟨hsteps, hsync⟩ := dataAndFIN_steps (e := e) (o := o) h d he (by rw [hstate]; exact hs)
    split
    · exact (hack.trans hsteps).trans (.single (queueACK_step h _ now hsync))
    · exact hack.trans hsteps

section

variable {c}

theorem handleSegment_takesACK (now : Int) (hs : Core.acksData c.state = true) (ht : c.takesACK seg = true) :
    seg.hasFlag flagACK = true ∧ (c.state ≠ .closeWait → c.pawsOK seg.options = true) ∧
      c.handleSegment now seg =
        if c.state = .closeWait then processSegACK now seg (c.touch now) else handleDataState now seg (c.touch now) := by
  have hcases : c.state = .established ∨ c.state = .finWait1 ∨ c.state = .finWait2 ∨ c.state = .closeWait := by
    simp only [Core.acksData, Core.awaitsFIN, Bool.or_eq_true, beq_iff_eq] at hs
    tauto
  have hsync : c.state.synchronized = true := by
    rcases hcases with hs | hs | hs | hs <;> rw [hs] <;> rfl
  have hpass := Passes.of_takesACK ht
  have hack := hpass.ack
  have hstate : ∀ st, c.state = st → (c.touch now).state = st := fun st h => h
  have hst := hpass.takesACK_eq.symm.trans ht
  rw [hpass.handleSegment now hsync]
  unfold dispatch
  rcases hcases with hs | hs | hs | hs
  all_goals
    rw [hs] at hst
    simp only [hstate _ hs, hs]
  · exact ⟨hack, fun _ => hst, rfl⟩
  · exact ⟨hack, fun _ => hst, rfl⟩
  · exact ⟨hack, fun _ => hst, rfl⟩
  · exact ⟨hack, fun h => absurd rfl h, rfl⟩

theorem handleSegment_taken (now : Int) (hs : Core.acksData c.state = true) (ht : c.takesACK seg = true) :
    ∃ ts d, Taken (processSegACK now seg { c.touch now with tsRecent := ts }) d ∧
      (c.handleSegment now seg = d ∨ c.handleSegment now seg = queueACK now d) := by
  obtain ⟨-, hpaws, heq⟩ := handleSegment_takesACK now hs ht
  by_cases hcw : c.state = .closeWait
  · rw [if_pos hcw] at heq
    exact ⟨c.tsRecent, _, ⟨rfl, id⟩, .inl heq⟩
  · obtain ⟨ts, hts⟩ := recordTimestamp_eq seg.options (c.touch now)
    rw [if_neg hcw, handleDataState_eq (c := c.touch now) now (hpaws hcw), hts] at heq
    refine ⟨ts, _, taken_dataAndFIN seg _, ?_⟩
    split at heq
    · exact .inr heq
    · exact .inl heq

end

/-! ### The state handlers -/

theorem completePassiveOpen_steps (he : e = .segment now seg)
    (hs : c.state = .synReceived) (hack : seg.ack = c.sendBuf.nxt) :
    CoreSteps e o (h.coreWith c) (h.coreWith (completePassiveOpen seg c)) := by
  have h₁ : CoreSteps e o (h.coreWith c) _ := .single (.synRcvdAck he hs hack)
  refine h₁.trans ((CoreSteps.single (.establish rfl)).trans (.of_eq ?_))
  rw [completePassiveOpen_eq]
  rfl

theorem completePassiveOpen_frame (seg : Segment) :
    (completePassiveOpen seg c).state = .established ∧
      (completePassiveOpen seg c).sendBuf = (c.sendBuf.acknowledge seg.ack).1 ∧
      (completePassiveOpen seg c).cc = c.cc ∧ (completePassiveOpen seg c).mss = c.mss ∧
      ∀ opts, (completePassiveOpen seg c).pawsOK opts = c.pawsOK opts := by
  rw [completePassiveOpen_eq]
  exact ⟨rfl, rfl, rfl, rfl, fun _ => rfl⟩

theorem mayFastRetransmit_completePassiveOpen (hack : seg.ack = c.sendBuf.nxt) (ho : MayFastRetransmit o seg c) :
    MayFastRetransmit o seg (completePassiveOpen seg c) := by
  obtain ⟨-, hsb, hcc, hmss, -⟩ := completePassiveOpen_frame c seg
  by_cases hlo : seqAfter seg.ack c.sendBuf.una = true
  · -- the acknowledgment took everything, so nothing is left to retransmit
    intro _ _ data hd hne
    rw [hsb] at hd
    exact absurd (SendBuf.retransmitData_of_unacked_eq_zero (SendBuf.unacked_acknowledge_nxt hack hlo) hd) hne
  · intro h1 h2
    have heq : (c.sendBuf.acknowledge seg.ack).1 = c.sendBuf := by
      unfold SendBuf.acknowledge
      simp [hlo]
    unfold MayRetransmit
    rw [hsb, heq, hmss]
    rw [hcc] at h2
    exact ho (by simpa using hlo) h2

/-- The fast retransmits that `HandleSegment` makes are ones the occasion allows. -/
def SegmentMayRetransmit (o : Occasion) (seg : Segment) (c : Conn σ) : Prop :=
  c.takesACK seg = true → MayFastRetransmit o seg c

theorem resetTeardown_core : h.coreWith c.resetTeardown = (h.coreWith c).shut true true := by
  unfold resetTeardown
  rw [coreWith_safeCloseFinRecvd, coreWith_safeCloseEstablished]
  simp [coreWith_shut, Core.shut]

/-! ### The handshake -/

theorem completeActiveOpen_steps (he : e = .segment now' seg) (now : Int)
    (d : Conn σ) (hd : h.coreWith d = (h.coreWith c).negotiate seg.options) (hs : c.state = .synSent)
    (hsyn : seg.hasFlag flagSYN = true) (hack : seg.hasFlag flagACK = true)
    (hlo : seqBeforeEq seg.ack c.sendBuf.una = false) (hhi : seqAfter seg.ack c.sendBuf.nxt = false) :
    CoreSteps e o (h.coreWith c) (h.coreWith (completeActiveOpen now seg d)) := by
  have hsb : d.sendBuf = c.sendBuf := congrArg Core.sendBuf hd
  have hcap : d.recvBufCap = c.recvBufCap := congrArg Core.recvBufCap hd
  have h₁ : CoreSteps e o (h.coreWith c) _ := .single (.synAckIn he hs hsyn hack hlo hhi)
  refine h₁.trans ?_
  obtain ⟨rc, hopen⟩ := completeActiveOpen_frame now seg d
  have hcore : h.coreWith (d.synAcked now seg rc) = ({ ((h.coreWith c).negotiate seg.options).setState .established with
      sendBuf := (c.sendBuf.acknowledge seg.ack).1
      recvBuf := newRecvBuf (seg.seq + 1) c.recvBufCap } : Core).insert (seg.seq + 1) seg.payload := by
    rw [← hd, ← hsb, ← hcap]
    rfl
  rw [hopen]
  show CoreSteps e o (({ ((h.coreWith c).negotiate seg.options).setState .established with
      sendBuf := (c.sendBuf.acknowledge seg.ack).1
      recvBuf := newRecvBuf (seg.seq + 1) c.recvBufCap } : Core).insert (seg.seq + 1) seg.payload)
    { h.coreWith (flushSendQueue now (queueACK now (d.synAcked now seg rc))) with established := true }
  rw [← hcore]
  refine (CoreSteps.single (queueACK_step h _ now rfl)).trans ?_
  have hne : (queueACK now (d.synAcked now seg rc)).state ≠ .closed := State.noConfusion
  refine (flushSendQueue_steps h _ now (.inr hne)).trans ?_
  refine .single (.establish ?_)
  show (flushSendQueue now (queueACK now (d.synAcked now seg rc))).state = _
  rw [state_flushSendQueue]
  rfl

theorem queueSynAck_step (now : Int) (hs : c.state = .synReceived) :
    CoreStep e o (h.coreWith c) (h.coreWith (c.queueSeg (c.synAckSegment now c.sendBuf.una))) := by
  rw [coreWith_queueSeg]
  refine .syn (.inr hs) (isSyn_synAck h c now _) rfl (reports_synAck h c now _) ?_
  show ((flagSYN ||| flagACK) &&& flagACK != 0) = decide (c.state = .synReceived)
  rw [hs]
  rfl

theorem queueSyn_step (now : Int) (hs : c.state = .synSent) :
    CoreStep e o (h.coreWith c) (h.coreWith (c.queueSeg (c.synSegment now c.sendBuf.una))) := by
  rw [coreWith_queueSeg]
  refine .syn (.inl hs) (isSyn_syn h c now _) rfl (reports_syn h c now _) ?_
  show (flagSYN &&& flagACK != 0) = decide (c.state = .synReceived)
  rw [hs]
  rfl

theorem simultaneousOpen_steps (he : e = .segment now' seg) (now : Int)
    (d : Conn σ) (hd : h.coreWith d = (h.coreWith c).negotiate seg.options) (hs : c.state = .synSent)
    (hsyn : seg.hasFlag flagSYN = true) (hack : seg.hasFlag flagACK = false) :
    CoreSteps e o (h.coreWith c) (h.coreWith (simultaneousOpen now seg d)) := by
  have hcap : d.recvBufCap = c.recvBufCap := congrArg Core.recvBufCap hd
  have h₁ : CoreSteps e o (h.coreWith c) _ := .single (.synIn he hs hsyn hack)
  refine h₁.trans ?_
  unfold simultaneousOpen
  simp only
  rw [coreWith_startRTO]
  refine CoreSteps.trans (.of_eq ?_) (.single (queueSynAck_step h _ now rfl))
  show ({ ((h.coreWith c).negotiate seg.options).setState .synReceived with
      recvBuf := newRecvBuf (seg.seq + 1) c.recvBufCap } : Core).insert (seg.seq + 1) seg.payload = _
  rw [← hd, ← hcap]
  rfl

theorem queueRefusal_step (he : e = .segment now seg) :
    CoreStep e o (h.coreWith c) (h.coreWith (c.queueSeg
      { c.rstSegment 0 with ack := seg.seq + seg.segLen, flags := flagRST ||| flagACK })) := by
  rw [coreWith_queueSeg]
  have hrst : ({ c.rstSegment 0 with ack := seg.seq + seg.segLen, flags := flagRST ||| flagACK } : Segment).hasFlag
      flagRST = true := by
    show ((flagRST ||| flagACK) &&& flagRST != 0) = true
    decide
  exact .control ⟨rfl, by show ((flagRST ||| flagACK) &&& flagSYN != 0) = false; decide,
    by show ((flagRST ||| flagACK) &&& flagFIN != 0) = false; decide⟩
    (reports_rst hrst rfl) (.inl ⟨hrst, fun _ => ⟨now, seg, he⟩⟩)

variable {c} in
theorem Handled.steps {d : Conn σ} (hd : Handled now seg c d) (he : e = .segment now' seg)
    (hr : c.resetAccepted seg = true → o.reset) (ho : SegmentMayRetransmit o seg c) :
    CoreSteps e o (h.coreWith c) (h.coreWith d) := by
  have hneg := coreWith_negotiate h c seg.options
  have hreset : c.resetAccepted seg = true → CoreStep e o (h.coreWith c) ((h.coreWith c).shut true true) := by
    intro hacc
    refine .shut (.reset he ?_ (Bool.and_eq_true_iff.1 hacc).1 (hr hacc))
    show c.state ≠ .closed
    intro hst
    simp [resetAccepted, hst] at hacc
  cases hd with
  | ignored => exact .refl _
  | answered _ hs => exact .single (queueACK_step h c now hs)
  | refused _ _ hrst =>
    rcases hrst with rfl | rfl
    · exact .single (queueRST_step h c seg.ack)
    · exact .single (queueRefusal_step h c he)
  | closing _ hst hack =>
    have h₁ : CoreSteps e o (h.coreWith c) _ := .single (.closingAcked he hst hack)
    exact h₁.trans (.single (queueACK_step h (c.setState .timeWait).stopRTO.startTimeWait now rfl))
  | timeWait _ hst =>
    have hs : ({ c with timeWaitTimer := c.restartTimeWait.timeWaitTimer } : Conn σ).state.synchronized = true := by
      rw [hst]
      rfl
    exact .single (queueACK_step h _ now hs)
  | lastAck _ hst hack =>
    rw [coreWith_shutDown]
    exact .single (.shut (.lastAck he hst hack))
  | reset _ _ hacc =>
    rw [resetTeardown_core]
    exact .single (hreset hacc)
  | refusedOpen _ _ hacc =>
    have hcore : h.coreWith c.shut.stopRTO.safeCloseEstablished.safeCloseFinRecvd = (h.coreWith c).shut true true := by
      rw [coreWith_safeCloseFinRecvd, coreWith_safeCloseEstablished, coreWith_stopRTO, coreWith_shut]
      simp [Core.shut]
    rw [hcore]
    exact .single (hreset hacc)
  | synAck hst hsyn _ hack hlo hhi => exact completeActiveOpen_steps h c he now _ hneg hst hsyn hack hlo hhi
  | syn hst hsyn _ hack => exact simultaneousOpen_steps h c he now _ hneg hst hsyn hack
  | passive hst hp hack =>
    obtain ⟨hest, -, -, -, hpaws⟩ := completePassiveOpen_frame c seg
    refine (completePassiveOpen_steps h c he hst hack).trans (handleDataState_steps h _ he now (.inl hest) fun h1 => ?_)
    refine mayFastRetransmit_completePassiveOpen c hack (ho ?_)
    rw [hp.takesACK_eq, hst, ← hpaws, h1, decide_eq_true hack]
    rfl
  | data hst _ ht => exact handleDataState_steps h c he now hst fun _ => ho ht
  | closeWait hst _ ht => exact processSegACK_steps h c he now (by rw [hst]; rfl) (ho ht)

theorem handleSegment_steps (he : e = .segment now' seg) (now : Int)
    (hr : c.resetAccepted seg = true → o.reset) (ho : SegmentMayRetransmit o seg c) :
    CoreSteps e o (h.coreWith c) (h.coreWith (handleSegment now seg c)) :=
  (handled now seg c).steps h he hr ho

/-! ### Opening calls -/

theorem connect_steps (he : e = .connect now iss) :
    CoreSteps e o (h.coreWith c) (h.coreWith (connect now iss c)) := by
  unfold connect
  split
  · exact .refl _
  · rename_i hs
    simp only
    rw [coreWith_startRTO]
    generalize hc₁ : (c.openBufs c.sendBufSize iss 0).setState .synSent = c₁
    have hsyn : Core.IsSyn (h.coreWith c) (c₁.synSegment now iss) := by
      obtain ⟨hp, h1, h2, h3, ts, ho⟩ := isSyn_syn h c₁ now iss
      refine ⟨hp, h1, h2, h3, ts, ?_⟩
      rw [ho, ← hc₁]
      rfl
    have hrep : (((h.coreWith c).openBufs c.sendBufSize iss 0 1).setState .synSent).Reports (c₁.synSegment now iss) := by
      have hrep := reports_syn h c₁ now iss
      rw [← hc₁] at hrep ⊢
      exact { hrep with }
    have hnoack : (flagSYN &&& flagACK != 0) = false := by decide
    refine CoreSteps.trans (.single (.connect c.sendBufSize he (not_not.1 hs) hsyn rfl hrep hnoack)) (.of_eq ?_)
    have hq := coreWith_queueSeg h { c₁ with sendBuf := c₁.sendBuf.advanceSent 1 } (c₁.synSegment now iss)
    refine Eq.trans ?_ (hq.symm.trans rfl)
    rw [← hc₁]
    rfl

theorem acceptSYN_steps {syn : Segment} (he : e = .acceptSYN now iss syn) :
    CoreSteps e o (h.coreWith c) (h.coreWith (acceptSYN now iss syn c)) := by
  unfold acceptSYN
  split
  · exact .refl _
  · rename_i hs
    have hs' : c.state = .closed ∨ c.state = .listen := by
      by_cases h1 : c.state = .closed
      · exact .inl h1
      · exact .inr (by_contra fun h2 => hs ⟨h1, h2⟩)
    simp only
    rw [coreWith_startRTO]
    have hneg := coreWith_negotiate h c syn.options
    generalize negotiateOptions syn.options (narrowMSS syn.options c) = d at hneg
    generalize hc₁ : (d.openBufs d.sendBufCap iss (syn.seq + 1)).setState .synReceived = c₁
    have hsyn : Core.IsSyn ((h.coreWith c).negotiate syn.options) (c₁.synAckSegment now iss) := by
      obtain ⟨hp, h1, h2, h3, ts, ho⟩ := isSyn_synAck h c₁ now iss
      refine ⟨hp, h1, h2, h3, ts, ?_⟩
      rw [ho, ← hneg, ← hc₁]
      rfl
    have hrep : ((((h.coreWith c).negotiate syn.options).openBufs d.sendBufCap iss (syn.seq + 1) 1).setState
        .synReceived).Reports (c₁.synAckSegment now iss) := by
      have hrep := reports_synAck h c₁ now iss
      rw [← hneg]
      rw [← hc₁] at hrep ⊢
      exact { hrep with }
    refine CoreSteps.trans (.single (.acceptSYN d.sendBufCap he hs' hsyn rfl hrep
      (by show ((flagSYN ||| flagACK) &&& flagACK != 0) = true; decide))) (.of_eq ?_)
    have hq := coreWith_queueSeg h { c₁ with sendBuf := c₁.sendBuf.advanceSent 1 } (c₁.synAckSegment now iss)
    refine Eq.trans ?_ ((congrArg (Core.insert · (syn.seq + 1) syn.payload) hq).symm.trans rfl)
    rw [← hneg, ← hc₁]
    rfl

theorem acceptCookie_steps {remoteSeq ourISS : BitVec 32} {mss : BitVec 16} {data : List Byte}
    (he : e = .acceptCookie remoteSeq ourISS mss data) :
    CoreSteps e o (h.coreWith c) (h.coreWith (acceptCookie remoteSeq ourISS mss data c)) := by
  by_cases hst : c.state = .closed ∨ c.state = .listen
  · obtain ⟨m, kt, pt, pb, hopen⟩ := acceptCookie_frame remoteSeq ourISS mss data hst
    rw [hopen, coreWith_queueSeg]
    have hcore : h.coreWith (c.cookieAccepted remoteSeq ourISS m data kt pt pb) =
        { ((((h.coreWith c).openBufs c.sendBufCap (ourISS + 1) remoteSeq 0).setState .established).insert remoteSeq
          data) with iss := ourISS, established := true, mss := m } := by
      simp [Host.coreWith, cookieAccepted, openBufs, setState, Core.openBufs, Core.setState, Core.insert,
        SendBuf.advanceSent]
    have hstep : CoreStep e o (h.coreWith c) _ := .acceptCookie c.sendBufCap m he hst
    rw [← hcore] at hstep
    refine (CoreSteps.single hstep).trans ?_
    exact .single (.control (isControl_ack rfl rfl) (reports_withoutOptions h _ _ _ _ _)
      (.inr ⟨hasFlag_ack_rst rfl, rfl⟩))
  · have hsame : acceptCookie remoteSeq ourISS mss data c = c := if_pos (not_or.1 hst)
    rw [hsame]
    exact .refl _

theorem setupForHandshake_steps (he : e = .setupForHandshake iss) (ho : c.opened = false)
    (hc : c.closed = false) : CoreSteps e o (h.coreWith c) (h.coreWith (setupForHandshake iss c)) :=
  .single (.setup c.sendBufCap he ho hc)

/-! ### Timer callbacks -/

theorem windowProbe_steps (hs : c.closed = false ∨ c.state ≠ .closed) :
    CoreSteps e o (h.coreWith c) (h.coreWith c.windowProbe) := by
  unfold windowProbe
  split
  · rename_i hp
    have hdata : Core.IsData { c.ackSegment 0 c.sendBuf.nxt flagACK (c.sendBuf.peekUnsent 1) with options := [] }
        c.sendBuf.nxt (c.sendBuf.peekUnsent 1) :=
      ⟨rfl, rfl, hp.2, by show (flagACK &&& flagSYN != 0) = false; decide,
        by show (flagACK &&& flagFIN != 0) = false; decide, hasFlag_ack_rst rfl⟩
    have hstep : CoreStep e o (h.coreWith c) _ :=
      .chunk hs hp.1 hdata (reports_withoutOptions h c _ _ _ _)
    rw [← coreWith_queueSeg] at hstep
    exact .single hstep
  · exact .refl _

theorem onPersistTimeout_steps (now : Int) : CoreSteps e o (h.coreWith c) (h.coreWith (onPersistTimeout now c)) := by
  unfold onPersistTimeout
  split
  · exact .refl _
  · rename_i hc
    rw [not_or] at hc
    split
    · exact flushSendQueue_steps h c.stopPersist now (.inr hc.2)
    · exact windowProbe_steps h c (.inr hc.2)

theorem queueFIN_core (now : Int) :
    h.coreWith (queueFIN now c) =
      { (h.coreWith c).emit (c.ackSegment now c.sendBuf.nxt (flagFIN ||| flagACK) []) with
        sendBuf := c.sendBuf.advanceSent 1 } := by
  rw [← coreWith_queueSeg]
  rfl

theorem resend_steps (he : e = .rto now') (now : Int) (hc : c.closed = false)
    (hf : c.state = .finWait1 ∨ c.state = .lastAck → o.repeatFIN c.sendBuf)
    (ho : c.state = .established ∨ c.state = .closeWait → MayRetransmit o c) :
    CoreSteps e o (h.coreWith c) (h.coreWith (resend now c)) := by
  have hrefin : c.state = .finWait1 ∨ c.state = .lastAck →
      CoreSteps e o (h.coreWith c) (h.coreWith (queueFIN now c)) := by
    intro hs
    rw [queueFIN_core]
    exact .single (.refin he hc hs (hf hs) (isFin_fin c now _) (reports_ackSegment h c now _ _ _))
  unfold resend
  split
  · exact .single (queueSyn_step h c now ‹_›)
  · exact .single (queueSynAck_step h c now ‹_›)
  · exact retransmit_steps h c now (.inl hc) (ho (.inl ‹_›))
  · exact retransmit_steps h c now (.inl hc) (ho (.inr ‹_›))
  · exact hrefin (.inl ‹_›)
  · exact hrefin (.inr ‹_›)
  · exact .refl _

theorem giveUp_core : h.coreWith c.giveUp = (h.coreWith c).shut true false := by
  unfold giveUp
  rw [coreWith_safeCloseEstablished, coreWith_shutDown]
  simp [Core.shut]

theorem onRTOTimeout_steps (he : e = .rto now') (now : Int) (hg : c.exhausted = true → o.giveUp)
    (hf : c.repeatsFIN e = true → o.repeatFIN c.sendBuf) (ho : c.retransmits e = true → o.retransmit c.sendBuf) :
    CoreSteps e o (h.coreWith c) (h.coreWith (onRTOTimeout now c)) := by
  rcases onRTOTimeout_cases now c with ⟨-, heq⟩ | ⟨hopen, ⟨hex, -, heq⟩ | ⟨hre, heq⟩⟩ <;> rw [heq]
  · exact .refl _
  · rw [giveUp_core]
    exact .single (.shut (.giveUp he hopen.2 hopen.1 (hg hex)))
  · rw [coreWith_startRTO]
    refine resend_steps h { c with retries := c.retries + 1, rto := c.rto.backoff.invalidateTiming,
                                   cc := onTimeout c.cc } he now hopen.1 (fun hs => hf ?_) fun hs _ _ _ => ho ?_
    · rw [he]
      simpa [repeatsFIN, hre] using hs
    · rw [he]
      simpa [retransmits, hre] using hs

theorem onTimeWaitExpired_steps (he : e = .timeWait) (hs : State.timeWait ∈ c.entered) :
    CoreSteps e o (h.coreWith c) (h.coreWith c.onTimeWaitExpired) := by
  have hcore : h.coreWith c.onTimeWaitExpired = (h.coreWith c).shut false false := coreWith_shut h c
  rw [hcore]
  exact .single (.shut (.timeWait he hs))

theorem keepaliveAbort_core : h.coreWith c.keepaliveAbort = (h.coreWith c).shut true true := by
  unfold keepaliveAbort
  rw [coreWith_safeCloseFinRecvd, coreWith_safeCloseEstablished]
  simp only [coreWith_broadcastSend, coreWith_broadcastRecv, coreWith_stopRTO, coreWith_shut]
  simp [Core.shut]

theorem onKeepalive_steps (he : e = .keepalive now') (now : Int)
    (hk : c.keepaliveExpired now = true → o.idle) : CoreSteps e o (h.coreWith c) (h.coreWith (onKeepalive now c)) := by
  rcases onKeepalive_cases now c with hsame | ⟨hs, hc, ⟨hexp, habort⟩ | ⟨-, d, ks, kt, hd, hrearm⟩⟩
  · rw [hsame]
    exact .refl _
  · rw [habort, keepaliveAbort_core]
    exact .single (.shut (.keepalive he hs hc (hk hexp)))
  · have hprobe : CoreSteps e o (h.coreWith c) (h.coreWith d) := by
      rcases hd with rfl | rfl
      · exact .refl _
      · have hsync : c.state.synchronized = true := by
          rcases hs with hs | hs <;> rw [hs] <;> rfl
        rw [coreWith_queueSeg]
        exact .single (.control (isControl_ack rfl rfl) (reports_ackSegment h c now _ _ _)
          (.inr ⟨hasFlag_ack_rst rfl, hsync⟩))
    rw [hrearm]
    exact hprobe

/-! ### Application calls -/

theorem writeLoop_steps {g : Host σ} (now : Int) (rest : List Byte) (written : Nat) (hc : c.closed = false)
    (hs : (∃ now i, e = .resume now i ∧ o.resume c.state) ∨
      ∃ now b, e = .write now b ∧ (c.state = .established ∨ c.state = .closeWait)) :
    CoreSteps e o (g.coreWith c)
      ({ g with accepted := g.accepted ++ rest.take (c.writeLoop now rest written).2.1 }.coreWith
        (c.writeLoop now rest written).1) := by
  have hw : CoreStep e o (g.coreWith c) _ := .write (p := rest) hc hs
  refine CoreSteps.trans (.single hw) ?_
  unfold writeLoop
  simp only
  split
  · exact flushSendQueue_steps { g with accepted := g.accepted ++ rest.take (c.sendBuf.write rest).2 }
      { c with sendBuf := (c.sendBuf.write rest).1 } now (.inl hc)
  · split
    · split <;> exact .refl _
    · exact .refl _

def beforeFIN (now : Int) (c : Conn σ) : Conn σ := if c.state = .established then flushSendQueue now c else c

theorem close_steps (he : e = .close now) (ho : o.fin (c.beforeFIN now).sendBuf) :
    CoreSteps e o (h.coreWith c) (h.coreWith (close now c)) := by
  have hshut : c.closed = false → c.state ≠ .established →
      CoreSteps e o (h.coreWith c) (h.coreWith c.shut.stopRTO.stopKeepalive.stopPersist.broadcastRecv.broadcastSend) := by
    intro hc hs
    rw [coreWith_shutDown]
    exact .single (.shut (.close he hc hs))
  have hfin : ∀ (d : Conn σ) (st : State), d.closed = false → o.fin d.sendBuf →
      (d.state = .established ∧ st = .finWait1) ∨ (d.state = .closeWait ∧ st = .lastAck) ∨
        (d.state = .synReceived ∧ st = .finWait1) →
      CoreSteps e o (h.coreWith d)
        (h.coreWith (queueFIN now (d.setState st)).startRTO.broadcastRecv.broadcastSend) := by
    intro d st hc ho hs
    rw [coreWith_broadcastSend, coreWith_broadcastRecv, coreWith_startRTO, queueFIN_core]
    exact .single (.fin he hc hs ho (isFin_fin (d.setState st) now _) (reports_ackSegment h d now _ _ _))
  unfold close
  split
  · exact .refl _
  · rename_i hc
    rw [Bool.not_eq_true] at hc
    split
    · rename_i hs
      refine (flushSendQueue_steps h c now (.inl hc)).trans (hfin _ _ ?_ ?_ (.inl ⟨?_, rfl⟩))
      · rw [closed_flushSendQueue]
        exact hc
      · rw [beforeFIN, if_pos hs] at ho
        exact ho
      · rw [state_flushSendQueue]
        exact hs
    · rename_i hs
      exact hfin c _ hc (by simpa [beforeFIN, hs] using ho) (.inr (.inl ⟨hs, rfl⟩))
    · exact hshut hc (by simp [*])
    · rename_i hs
      exact hfin c _ hc (by simpa [beforeFIN, hs] using ho) (.inr (.inr ⟨hs, rfl⟩))
    · exact .refl _
    · exact .refl _
    · exact hshut hc (by assumption)

theorem abort_steps (he : e = .abort) (ho : c.state ≠ .closed → o.abort) :
    CoreSteps e o (h.coreWith c) (h.coreWith c.abort) := by
  unfold abort
  split
  · exact .refl _
  · rename_i hs
    simp only
    have h₁ : CoreSteps e o (h.coreWith c) ((h.coreWith c).shut true true) := .single (.shut (.abort he hs (ho hs)))
    refine h₁.trans ?_
    rw [coreWith_safeCloseFinRecvd, coreWith_safeCloseEstablished, coreWith_broadcastSend, coreWith_broadcastRecv]
    have hshut : h.coreWith c.shut.stopRTO.stopKeepalive.stopPersist = (h.coreWith c).shut false false :=
      coreWith_shut h c
    generalize c.shut.stopRTO.stopKeepalive.stopPersist = d at hshut
    split
    · rw [coreWith_queueSeg, hshut]
      have hrst : CoreStep e o ((h.coreWith c).shut true true) _ :=
        .control (isControl_rst d d.sendBuf.nxt) (reports_rstSegment d _)
          (.inl ⟨hasFlag_rstSegment d _, fun hack => absurd hack (hasFlag_rstSegment_ack d _)⟩)
      refine CoreSteps.trans (.single hrst) (.of_eq ?_)
      simp [Core.shut, Core.emit, Core.setState, Core.freeSpace]
    · rw [hshut]
      exact .of_eq (by simp [Core.shut])

end Conn

namespace Host

variable [CongestionController σ] {e : Event} {o : Occasion}

theorem core_finish (h : Host σ) (c : Conn σ) : (h.finish c).core = h.coreWith c := by
  simp [core, finish, coreWith]

theorem core_finishWrite (h : Host σ) (rest : List Byte) (r : Conn σ × Nat × Conn.WriteResult) :
    (h.finishWrite rest r).core = { h with accepted := h.accepted ++ rest.take r.2.1 }.coreWith r.1 := by
  unfold finishWrite
  simp only
  split <;> simp [core, finish, coreWith]

def occasion (h : Host σ) (e : Event) : Occasion where
  reset := ∃ now seg, e = .segment now seg ∧ h.conn.resetAccepted seg = true
  giveUp := h.conn.exhausted = true
  idle := ∃ now, e = .keepalive now ∧ h.conn.keepaliveExpired now = true
  abort := h.conn.state ≠ .closed
  resume st := st = h.conn.state ∧ h.writers ≠ []
  repeatFIN sb := sb = h.conn.sendBuf ∧ h.conn.repeatsFIN e = true
  retransmit sb := sb = h.conn.sendBuf ∧ h.conn.retransmits e = true
  fin sb := ∃ now, e = .close now ∧ sb = (h.conn.beforeFIN now).sendBuf

variable {h : Host σ} {P : Host σ → Event → Prop}

theorem receive_steps {c : Conn σ} {seg : Segment}
    (hs : ∀ g : Host σ, CoreSteps e o (g.coreWith h.conn) (g.coreWith c)) :
    CoreSteps e o { h.core with received := h.received ++ [seg] }
      { h.finish c with received := h.received ++ [seg] }.core := by
  refine (hs { h with received := h.received ++ [seg] }).trans (.of_eq ?_)
  simp [core, finish, coreWith]

theorem finishRead_steps {now : Int} {n : Nat} (he : e = .read now n) :
    CoreSteps e o h.core (h.finishRead (h.conn.read now n)).core := by
  unfold Conn.read
  split
  · split
    · exact .refl _
    · split
      · exact .refl _
      · split
        · split <;> exact .refl _
        · exact .refl _
  · rename_i hr
    rw [not_or] at hr
    have ho : h.conn.opened = true := by simpa using hr.1
    exact .single (.read he ho)

theorem finishWrite_steps {now : Int} {b : List Byte} (he : e = .write now b) :
    CoreSteps e o h.core (h.finishWrite b (h.conn.write now b)).core := by
  rw [core_finishWrite]
  unfold Conn.write
  split
  · simp only [List.take_zero, List.append_nil]
    exact .refl _
  · rename_i hc
    split
    · simp only [List.take_zero, List.append_nil]
      exact .refl _
    · rename_i hs
      refine Conn.writeLoop_steps h.conn now b 0 (by simpa using hc) (.inr ⟨now, b, he, ?_⟩)
      by_contra hn
      exact hs (not_or.1 hn)

theorem resume_steps {now : Int} {i : Nat} (he : e = .resume now i) (ho : o.resume h.conn.state)
    (w : Writer) (ws : List Writer) :
    CoreSteps e o h.core (finishWrite { h with writers := ws } w.rest (h.conn.writeResume now w.rest w.written)).core := by
  rw [core_finishWrite]
  unfold Conn.writeResume
  split
  · simp only [List.take_zero, List.append_nil]
    exact .refl _
  · rename_i hc
    exact Conn.writeLoop_steps (g := { h with writers := ws }) h.conn now w.rest w.written (by simpa using hc)
      (.inl ⟨now, i, he, ho⟩)

theorem apply_of_next {h h' : Host σ} (hn : h.next e = some h') : h.apply e = some h' ∧ h'.conn.hung = false := by
  unfold next at hn
  split at hn
  · split at hn
    · cases hn
    · rename_i ha hh
      cases hn
      exact ⟨ha, by simpa using hh⟩
  · cases hn

theorem next_of_apply {h h' : Host σ} (ha : h.apply e = some h') (hh : h'.conn.hung = false) :
    h.next e = some h' := by
  unfold next
  rw [ha]
  exact if_neg (by rw [hh]; decide)

inductive Called (h : Host σ) : Event → Conn σ → Prop
  | connect (now : Int) (iss : BitVec 32) : Called h (.connect now iss) (h.conn.connect now iss)
  | acceptSYN (now : Int) (iss : BitVec 32) (syn : Segment) :
    Called h (.acceptSYN now iss syn) (h.conn.acceptSYN now iss syn)
  | acceptCookie (remoteSeq ourISS : BitVec 32) (mss : BitVec 16) (data : List Byte) :
    Called h (.acceptCookie remoteSeq ourISS mss data) (h.conn.acceptCookie remoteSeq ourISS mss data)
  | setupForHandshake (iss : BitVec 32) (ho : h.conn.opened = false) :
    Called h (.setupForHandshake iss) (h.conn.setupForHandshake iss)
  | segment (now : Int) (seg : Segment) : Called h (.segment now seg) (h.conn.handleSegment now seg)
  | rto (now : Int) : Called h (.rto now) (h.conn.onRTOTimeout now)
  | persist (now : Int) : Called h (.persist now) (h.conn.onPersistTimeout now)
  | keepalive (now : Int) : Called h (.keepalive now) (h.conn.onKeepalive now)
  | timeWait : Called h .timeWait h.conn.onTimeWaitExpired
  | write (now : Int) (b : List Byte) : Called h (.write now b) (h.conn.write now b).1
  | resume (now : Int) {i : Nat} {w : Writer} (hw : h.writers[i]? = some w) :
    Called h (.resume now i) (h.conn.writeResume now w.rest w.written).1
  | read (now : Int) (n : Nat) : Called h (.read now n) (h.conn.read now n).1
  | close (now : Int) : Called h (.close now) (h.conn.close now)
  | abort : Called h .abort h.conn.abort
  | setDeadline (dl : Option Int) : Called h (.setDeadline dl)
    { h.conn with readDeadline := dl, writeDeadline := dl, recvCond := h.conn.recvCond + 1 }
  | setReadDeadline (dl : Option Int) : Called h (.setReadDeadline dl)
    { h.conn with readDeadline := dl, recvCond := h.conn.recvCond + 1 }
  | setWriteDeadline (dl : Option Int) : Called h (.setWriteDeadline dl)
    { h.conn with writeDeadline := dl, sendCond := h.conn.sendCond + 1 }
  | broadcastSend : Called h .broadcastSend h.conn.broadcastSend

structure Left (h : Host σ) (e : Event) (c : Conn σ) (h' : Host σ) : Prop where
  conn : h'.conn = { c with outgoing := h'.conn.outgoing }
  emitted : h'.sent ++ h'.conn.outgoing = h.sent ++ c.outgoing
  received : h'.received = (h.core.receive e).received
  outgoing : h.conn.outgoing = [] → h'.conn.outgoing = []
  writers : h'.writers = h.writers ∨ (∃ now b, e = .write now b) ∨ ∃ now i, e = .resume now i

theorem called_of_next {h h' : Host σ} (hn : h.next e = some h') : ∃ c, Called h e c ∧ Left h e c h' := by
  have happ := (apply_of_next hn).1
  have hsent : ∀ l : List Packet, h.sent ++ l ++ [] = h.sent ++ l := fun l => List.append_nil _
  cases e with
  | setupForHandshake iss =>
    simp only [apply] at happ
    split at happ
    · cases happ
    · rename_i ho
      cases happ
      exact ⟨_, .setupForHandshake iss (by simpa using (not_or.1 ho).1), rfl, hsent _, rfl, fun _ => rfl, .inl rfl⟩
  | timeWait =>
    simp only [apply] at happ
    split at happ
    · cases happ
      exact ⟨_, .timeWait, rfl, hsent _, rfl, fun _ => rfl, .inl rfl⟩
    · cases happ
  | write now b =>
    cases happ
    refine ⟨_, .write now b, ?_⟩
    unfold finishWrite
    simp only
    split <;> exact ⟨rfl, hsent _, rfl, fun _ => rfl, .inr (.inl ⟨now, b, rfl⟩)⟩
  | resume now i =>
    simp only [apply] at happ
    split at happ
    · cases happ
    · rename_i w hw
      split at happ
      · cases happ
        refine ⟨_, .resume now hw, ?_⟩
        unfold finishWrite
        simp only
        split <;> exact ⟨rfl, hsent _, rfl, fun _ => rfl, .inr (.inr ⟨now, i, rfl⟩)⟩
      · cases happ
  | read now n =>
    cases happ
    refine ⟨_, .read now n, ?_⟩
    unfold finishRead
    split <;> rw [Conn.read_frame] <;> exact ⟨rfl, rfl, rfl, id, .inl rfl⟩
  | setDeadline | setReadDeadline | setWriteDeadline | broadcastSend =>
    cases happ
    exact ⟨_, by constructor, rfl, rfl, rfl, id, .inl rfl⟩
  | _ =>
    cases happ
    exact ⟨_, by constructor, rfl, hsent _, rfl, fun _ => rfl, .inl rfl⟩

theorem next_core {h h' : Host σ} (hn : h.next e = some h') :
    CoreSteps e (h.occasion e) (h.core.receive e) h'.core := by
  have happ := (apply_of_next hn).1
  have hfin : ∀ c : Conn σ, CoreSteps e (h.occasion e) (h.coreWith h.conn) (h.coreWith c) → h.finish c = h' →
      CoreSteps e (h.occasion e) (h.coreWith h.conn) h'.core := by
    rintro c hs rfl
    rw [core_finish]
    exact hs
  cases e with
  | connect now iss => exact hfin _ (Conn.connect_steps h h.conn rfl) (Option.some.inj happ)
  | acceptSYN now iss syn =>
    rw [← Option.some.inj happ]
    exact receive_steps fun g => Conn.acceptSYN_steps g h.conn rfl
  | acceptCookie remoteSeq ourISS mss data =>
    exact hfin _ (Conn.acceptCookie_steps h h.conn rfl) (Option.some.inj happ)
  | setupForHandshake iss =>
    simp only [apply] at happ
    split at happ
    · cases happ
    · rename_i ho
      rw [not_or, Bool.not_eq_true, Bool.not_eq_true] at ho
      exact hfin _ (Conn.setupForHandshake_steps h h.conn rfl ho.1 ho.2) (Option.some.inj happ)
  | segment now seg =>
    rw [← Option.some.inj happ]
    refine receive_steps fun g => Conn.handleSegment_steps g h.conn rfl now ?_ ?_
    · intro hr
      exact ⟨now, seg, rfl, hr⟩
    · intro ht hlo hd _ _ _
      refine ⟨rfl, ?_⟩
      simp [Conn.retransmits, Conn.fastRetransmits, ht, hlo, hd]
  | rto now =>
    refine hfin _ (Conn.onRTOTimeout_steps h h.conn rfl now ?_ ?_ ?_) (Option.some.inj happ)
    · exact id
    · exact fun hr => ⟨rfl, hr⟩
    · exact fun hr => ⟨rfl, hr⟩
  | persist now => exact hfin _ (Conn.onPersistTimeout_steps h h.conn now) (Option.some.inj happ)
  | keepalive now =>
    exact hfin _ (Conn.onKeepalive_steps h h.conn rfl now fun hk => ⟨now, rfl, hk⟩) (Option.some.inj happ)
  | timeWait =>
    simp only [apply] at happ
    split at happ
    · exact hfin _ (Conn.onTimeWaitExpired_steps h h.conn rfl ‹_›) (Option.some.inj happ)
    · cases happ
  | write now b =>
    rw [← Option.some.inj happ]
    exact finishWrite_steps rfl
  | resume now i =>
    simp only [apply] at happ
    split at happ
    · cases happ
    · rename_i w hw
      split at happ
      · rw [← Option.some.inj happ]
        have hwriters : h.writers ≠ [] := by
          intro hnil
          rw [hnil] at hw
          cases hw
        exact resume_steps (o := h.occasion (.resume now i)) rfl ⟨rfl, hwriters⟩ _ _
      · cases happ
  | read now n =>
    rw [← Option.some.inj happ]
    exact finishRead_steps rfl
  | close now => exact hfin _ (Conn.close_steps h h.conn rfl ⟨now, rfl, rfl⟩) (Option.some.inj happ)
  | abort => exact hfin _ (Conn.abort_steps h h.conn rfl id) (Option.some.inj happ)
  | setDeadline dl =>
    rw [← Option.some.inj happ]
    exact .refl _
  | setReadDeadline dl =>
    rw [← Option.some.inj happ]
    exact .refl _
  | setWriteDeadline dl =>
    rw [← Option.some.inj happ]
    exact .refl _
  | broadcastSend =>
    rw [← Option.some.inj happ]
    exact .refl _

theorem reach_core {I : Core → Prop} (hr : (system σ).Reach P h)
    (h₀ : ∀ (cfg : ConnConfig) (now : Int), I (fresh cfg now : Host σ).core)
    (hstep : ∀ (g : Host σ) (e : Event) (t : Core), I g.core → P g e →
      CoreSteps e (g.occasion e) (g.core.receive e) t → I t) : I h.core := by
  refine hr.invariant (I := fun g => I g.core) ?_ ?_
  · rintro g ⟨cfg, now, rfl⟩
    exact h₀ cfg now
  · intro g e g' _ hg hP hn
    exact hstep g e _ hg hP (next_core hn)

theorem outgoing_next {h h' : Host σ} (hn : h.next e = some h') (ho : h.conn.outgoing = []) :
    h'.conn.outgoing = [] := by
  obtain ⟨c, -, hleft⟩ := called_of_next hn
  exact hleft.outgoing ho

theorem outgoing_eq_nil (hr : (system σ).Reach P h) :
    h.conn.outgoing = [] := by
  refine hr.invariant (I := fun g => g.conn.outgoing = []) ?_ ?_
  · rintro g ⟨cfg, now, rfl⟩
    rfl
  · intro g e g' _ hg _ hn
    exact outgoing_next hn hg

theorem emitted_core (hr : (system σ).Reach P h) :
    h.core.emitted = h.sent := by
  show h.sent ++ h.conn.outgoing = h.sent
  rw [outgoing_eq_nil hr, List.append_nil]

end Host

end Libp2px.Vtcp
