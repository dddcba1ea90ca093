import Libp2px.Vtcp.Flush

/-!
# What an event does to the sender

`SenderStep` says once what an event can do to the send buffer, the RTO and persist timers and the waiting `Write`
calls of a connection that is in ESTABLISHED or CLOSE-WAIT afterwards; `Host.sender_step` shows that these are all the
possibilities.  The invariants about timers and about blocked `Write` calls are proved on sender steps.
-/

namespace Libp2px.Vtcp

open CongestionController

set_option linter.unusedSectionVars false

variable {σ : Type} [CongestionController σ]

namespace Conn

def sends (c : Conn σ) : Prop := c.state = .established ∨ c.state = .closeWait

instance (c : Conn σ) : Decidable c.sends := by
  unfold sends
  infer_instance

structure SameData (c d : Conn σ) : Prop where
  buf : d.sendBuf.buf = c.sendBuf.buf
  cap : d.sendBuf.cap = c.sendBuf.cap
  una : d.sendBuf.una = c.sendBuf.una
  nxt : d.sendBuf.nxt = c.sendBuf.nxt
  sendCond : c.sendCond ≤ d.sendCond

structure SameSender (c d : Conn σ) : Prop extends SameData c d where
  rtoTimer : d.rtoTimer = c.rtoTimer
  persistTimer : d.persistTimer = c.persistTimer

section

omit [CongestionController σ]

variable {c d e : Conn σ}

theorem SameData.trans (h₁ : SameData c d) (h₂ : SameData d e) : SameData c e :=
  ⟨h₂.buf.trans h₁.buf, h₂.cap.trans h₁.cap, h₂.una.trans h₁.una, h₂.nxt.trans h₁.nxt,
    le_trans h₁.sendCond h₂.sendCond⟩

theorem SameData.of_sendBuf (h : d.sendBuf = c.sendBuf) (hc : c.sendCond ≤ d.sendCond) : SameData c d := by
  refine ⟨?_, ?_, ?_, ?_, hc⟩ <;> rw [h]

theorem SameSender.of_sendBuf (h : d.sendBuf = c.sendBuf) (hr : d.rtoTimer = c.rtoTimer)
    (hp : d.persistTimer = c.persistTimer) (hc : c.sendCond ≤ d.sendCond) : SameSender c d :=
  ⟨SameData.of_sendBuf h hc, hr, hp⟩

theorem SameData.source (h : SameData c d) (hb : e.sendBuf = c.sendBuf) (hc : e.sendCond = c.sendCond) :
    SameData e d :=
  (SameData.of_sendBuf hb.symm hc.le).trans h

theorem SameSender.source (h : SameSender c d) (hb : e.sendBuf = c.sendBuf) (hc : e.sendCond = c.sendCond)
    (hr : e.rtoTimer = c.rtoTimer) (hp : e.persistTimer = c.persistTimer) : SameSender e d :=
  ⟨h.toSameData.source hb hc, h.rtoTimer.trans hr.symm, h.persistTimer.trans hp.symm⟩

theorem SameSender.refl (c : Conn σ) : SameSender c c := SameSender.of_sendBuf rfl rfl rfl le_rfl

theorem SameSender.trans (h₁ : SameSender c d) (h₂ : SameSender d e) : SameSender c e :=
  ⟨h₁.toSameData.trans h₂.toSameData, h₂.rtoTimer.trans h₁.rtoTimer, h₂.persistTimer.trans h₁.persistTimer⟩

theorem SameData.waiting (h : SameData c d) : d.Waiting ↔ c.Waiting := by
  unfold Waiting SendBuf.pending SendBuf.unacked
  rw [h.buf, h.una, h.nxt]

theorem SameSender.armed (h : SameSender c d) : d.Armed ↔ c.Armed := by
  unfold Armed
  rw [h.rtoTimer, h.persistTimer]

/-- What is done to a connection leaves its sender alone, if it sends afterwards. -/
def Frame (c d : Conn σ) : Prop := d.sends → c.sends ∧ SameSender c d

theorem Frame.refl (c : Conn σ) : Frame c c := fun hs => ⟨hs, SameSender.refl c⟩

theorem Frame.trans (h₁ : Frame c d) (h₂ : Frame d e) : Frame c e := by
  intro hs
  obtain ⟨hd, h₂'⟩ := h₂ hs
  obtain ⟨hc, h₁'⟩ := h₁ hd
  exact ⟨hc, h₁'.trans h₂'⟩

theorem Frame.of_not_sends (h : ¬d.sends) : Frame c d := fun hs => absurd hs h

theorem not_sends (st : State) (hst : st ≠ .established ∧ st ≠ .closeWait) (hd : d.state = st) : ¬d.sends := by
  rintro (hs | hs)
  · exact hst.1 (hd.symm.trans hs)
  · exact hst.2 (hd.symm.trans hs)

theorem frame_queueACK (now : Int) (c : Conn σ) : Frame c (queueACK now c) :=
  fun hs => ⟨hs, SameSender.of_sendBuf rfl rfl rfl le_rfl⟩

theorem frame_processFINStateTransition (c : Conn σ) : Frame c c.processFINStateTransition := by
  unfold processFINStateTransition
  split
  · rename_i hs
    intro _
    rw [safeCloseFinRecvd_frame]
    exact ⟨.inl hs, SameSender.of_sendBuf rfl rfl rfl le_rfl⟩
  · refine Frame.of_not_sends ?_
    simp only
    split
    · exact not_sends .timeWait (by decide) (state_safeCloseFinRecvd _)
    · exact not_sends .closing (by decide) (state_safeCloseFinRecvd _)
  · exact Frame.of_not_sends (not_sends .timeWait (by decide) (state_safeCloseFinRecvd _))
  · exact Frame.refl c

theorem frame_processData (seg : Segment) (c : Conn σ) : Frame c (processData seg c) := by
  unfold processData
  simp only
  have hrecv : ∀ d : Conn σ, SameSender c d → d.state = c.state → Frame c d := by
    intro d hd hs hsend
    refine ⟨?_, hd⟩
    unfold sends at hsend ⊢
    rwa [hs] at hsend
  split
  · refine Frame.trans (hrecv _ ?_ ?_) (frame_processFINStateTransition _)
    · split <;> exact SameSender.of_sendBuf rfl rfl rfl le_rfl
    · split <;> rfl
  · split <;> exact hrecv _ (SameSender.of_sendBuf rfl rfl rfl le_rfl) rfl

theorem frame_processFIN (seg : Segment) (c : Conn σ) : Frame c (processFIN seg c) := by
  unfold processFIN
  simp only
  split
  · refine Frame.trans ?_ (frame_processFINStateTransition _)
    exact fun hs => ⟨hs, SameSender.of_sendBuf rfl rfl rfl le_rfl⟩
  · exact fun hs => ⟨hs, SameSender.of_sendBuf rfl rfl rfl le_rfl⟩

end

/-! ### Acknowledgments -/

/-- What an acknowledgment does to the sender: nothing, a fast retransmit, or `SND.UNA` moves and waiting `Write`
calls are woken. -/
inductive AckStep (seg : Segment) (c d : Conn σ) : Prop
  | same (h : SameSender c d)
  | resent (h : SameData c d) (ha : d.Armed)
  | acked (hlo : seqAfter seg.ack c.sendBuf.una = true) (hhi : seqAfter seg.ack c.sendBuf.nxt = false)
      (hcov : (seg.ack = c.sendBuf.nxt → c.LimitsOpen (ccAfterACK c.cc seg.ack (c.sendBuf.acknowledge seg.ack).2)) →
        d.Waiting → d.Armed)
      (hc : c.sendCond < d.sendCond)

theorem AckStep.frame {seg : Segment} {c d e : Conn σ} (h : AckStep seg c d) (hf : SameSender d e) :
    AckStep seg c e := by
  cases h with
  | same h => exact .same (h.trans hf)
  | resent h ha => exact .resent (h.trans hf.toSameData) (hf.armed.2 ha)
  | acked hlo hhi hcov hc =>
    refine .acked hlo hhi ?_ (lt_of_lt_of_le hc hf.sendCond)
    intro hopen hwait
    exact hf.armed.2 (hcov hopen (hf.waiting.1 hwait))

theorem sameSender_updateSACK (opts : List TcpOption) (c : Conn σ) : SameSender c (updateSACK opts c) := by
  rw [updateSACK_frame]
  exact ⟨⟨rfl, rfl, rfl, rfl, le_rfl⟩, rfl, rfl⟩

variable (now : Int) (seg : Segment)

theorem retransmit_timers (c : Conn σ) :
    SameSender c (retransmit now c) ∨ SameData c (retransmit now c) ∧ (retransmit now c).Armed := by
  unfold retransmit
  split
  · exact .inl (SameSender.of_sendBuf rfl rfl rfl le_rfl)
  · split
    · exact .inl (SameSender.refl c)
    · exact .inr ⟨SameData.of_sendBuf rfl le_rfl, .inl rfl⟩

theorem processDupACK_step (c : Conn σ) :
    AckStep seg c (processDupACK now seg.options c) := by
  unfold processDupACK
  simp only
  refine AckStep.frame ?_ (sameSender_updateSACK _ _)
  have hre : ∀ cc, AckStep seg c (retransmit now { c with cc := cc }) := by
    intro cc
    rcases retransmit_timers now { c with cc := cc } with h | ⟨h, ha⟩
    · exact .same (h.source rfl rfl rfl rfl)
    · exact .resent (h.source rfl rfl) ha
  split
  · exact hre _
  · exact .same (SameSender.of_sendBuf rfl rfl rfl le_rfl)

theorem sendCond_flushSendQueue (c : Conn σ) : (flushSendQueue now c).sendCond = c.sendCond := by
  rw [flushSendQueue_frame]

theorem processNewACK_step (c : Conn σ) (hlo : seqAfter seg.ack c.sendBuf.una = true)
    (hhi : seqAfter seg.ack c.sendBuf.nxt = false) : AckStep seg c (processNewACK now seg.ack seg.options c) := by
  have hframe : ∃ d : Conn σ, rearm now seg.ack (updateSACK seg.options (c.applyACK seg.ack)) = d ∧
      d.sendBuf.una = seg.ack ∧ d.sendBuf.nxt = c.sendBuf.nxt ∧ d.mss = c.mss ∧ d.sndWnd = c.sndWnd ∧
      d.cc = ccAfterACK c.cc seg.ack (c.sendBuf.acknowledge seg.ack).2 ∧ d.sendCond = c.sendCond ∧
      (0 < d.sendBuf.unacked → d.Armed) := by
    refine ⟨_, newACK_frame now seg.ack seg.options c, ?_, ?_, rfl, rfl, rfl, rfl, ?_⟩
    · rw [SendBuf.acknowledge_eq hlo hhi]
      rfl
    · rw [SendBuf.acknowledge_eq hlo hhi]
      rfl
    · intro hpos
      have hpos' : (c.sendBuf.acknowledge seg.ack).1.unacked > 0 := hpos
      left
      simp only [if_pos hpos']
      rfl
  obtain ⟨d, hd, huna, hnxt, hmss, hwnd, hcc, hcond, harm⟩ := hframe
  unfold processNewACK
  rw [hd]
  refine .acked hlo hhi ?_ ?_
  · rw [waiting_broadcastSend, armed_broadcastSend]
    intro hopen hwait
    refine waiting_flushSendQueue now ?_ ?_ hwait
    · intro hne
      rw [una_ne_nxt_iff] at hne
      exact harm hne
    · intro heq
      rw [huna, hnxt] at heq
      unfold LimitsOpen
      rw [hwnd, hmss, hcc]
      exact hopen heq
  · show c.sendCond < (flushSendQueue now d).sendCond + 1
    rw [sendCond_flushSendQueue, hcond]
    exact Nat.lt_succ_self _

theorem processSegACK_step (c : Conn σ) : AckStep seg c (processSegACK now seg c) := by
  unfold processSegACK
  split
  · refine AckStep.frame (d := processACK now seg.ack seg.options c) ?_
      (SameSender.of_sendBuf rfl rfl rfl le_rfl)
    unfold processACK
    split
    · exact processDupACK_step now seg c
    · rename_i hlo
      split
      · exact .same (SameSender.of_sendBuf rfl rfl rfl le_rfl)
      · rename_i hhi
        exact processNewACK_step now seg c (by simpa using hlo) (by simpa using hhi)
  · exact .same (SameSender.refl c)

theorem frame_dataAndFIN (c : Conn σ) : Frame c (dataAndFIN seg c) := by
  unfold dataAndFIN
  simp only
  have hdata : Frame c (if seg.payload ≠ [] then processData seg c else c) := by
    split
    · exact frame_processData seg c
    · exact Frame.refl c
  refine hdata.trans ?_
  generalize (if seg.payload ≠ [] then processData seg c else c) = d
  split
  · exact frame_processFIN seg d
  · split
    · exact Frame.of_not_sends (not_sends .finWait2 (by decide) rfl)
    · exact Frame.refl d

variable {c : Conn σ}

theorem handleDataState_step (hs : (handleDataState now seg c).sends) :
    c.sends ∧ (SameSender c (handleDataState now seg c) ∨
      c.pawsOK seg.options = true ∧ AckStep seg c (handleDataState now seg c)) := by
  cases hp : c.pawsOK seg.options with
  | false =>
    rw [handleDataState_of_paws now hp] at hs ⊢
    obtain ⟨hc, hsame⟩ := frame_queueACK now c hs
    exact ⟨hc, .inl hsame⟩
  | true =>
    rw [handleDataState_eq now hp] at hs ⊢
    obtain ⟨ts, hts⟩ := recordTimestamp_eq seg.options c
    rw [hts] at hs ⊢
    generalize hd : processSegACK now seg { c with tsRecent := ts } = d at hs ⊢
    have hframe : Frame d (if seg.payload ≠ [] ∨ seg.hasFlag flagFIN then queueACK now (dataAndFIN seg d)
        else dataAndFIN seg d) := by
      split
      · exact (frame_dataAndFIN seg d).trans (frame_queueACK now _)
      · exact frame_dataAndFIN seg d
    obtain ⟨hc, hsame⟩ := hframe hs
    subst hd
    have hstep := processSegACK_step now seg { c with tsRecent := ts }
    refine ⟨?_, .inr ⟨rfl, ?_⟩⟩
    · unfold sends at hc ⊢
      rwa [state_processSegACK] at hc
    · have hfull := hstep.frame hsame
      cases hfull with
      | same h => exact .same (h.source rfl rfl rfl rfl)
      | resent h ha => exact .resent (h.source rfl rfl) ha
      | acked hlo hhi hcov hcond => exact .acked hlo hhi hcov hcond

/-! ### Incoming segments -/

theorem sendBuf_negotiate (opts : List TcpOption) (c : Conn σ) :
    (negotiateOptions opts (narrowMSS opts c)).sendBuf = c.sendBuf :=
  congrArg Core.sendBuf (coreWith_negotiate { conn := c } c opts)

theorem sendCond_negotiate (opts : List TcpOption) (c : Conn σ) :
    (negotiateOptions opts (narrowMSS opts c)).sendCond = c.sendCond := by
  obtain ⟨ts, -, h⟩ := negotiate_eq opts c
  rw [h]

structure Clear (c : Conn σ) : Prop where
  buf : c.sendBuf.buf = []
  una : c.sendBuf.una = c.sendBuf.nxt

theorem Clear.of_sendBuf {c d : Conn σ} (h : c.Clear) (hd : d.sendBuf = c.sendBuf) : d.Clear := by
  constructor
  · rw [hd, h.buf]
  · rw [hd, h.una]

theorem Clear.of_sameData {c d : Conn σ} (h : c.Clear) (hd : SameData c d) : d.Clear := by
  constructor
  · rw [hd.buf, h.buf]
  · rw [hd.una, hd.nxt, h.una]

theorem Clear.not_waiting (h : c.Clear) : ¬c.Waiting := by
  rintro (hw | hw)
  · exact hw h.una
  · unfold SendBuf.pending at hw
    rw [h.buf] at hw
    simp at hw
    omega

theorem completeActiveOpen_clear
    (hclear : ({ c with sendBuf := (c.sendBuf.acknowledge seg.ack).1 } : Conn σ).Clear) :
    (completeActiveOpen now seg c).Clear ∧ c.sendCond ≤ (completeActiveOpen now seg c).sendCond := by
  obtain ⟨rc, hopen⟩ := completeActiveOpen_frame now seg c
  have hack : (queueACK now (c.synAcked now seg rc)).Clear := hclear.of_sendBuf rfl
  have hsent : (queueACK now (c.synAcked now seg rc)).sendBuf.pending ≤ 0 := by
    by_contra hp
    exact hack.not_waiting (.inr (by omega))
  have hflush := hack.of_sendBuf (sendBuf_flushSendQueue_of_sent now hsent)
  rw [hopen]
  refine ⟨hflush.of_sendBuf rfl, ?_⟩
  show c.sendCond ≤ (flushSendQueue now (queueACK now (c.synAcked now seg rc))).sendCond
  rw [sendCond_flushSendQueue]
  exact le_rfl

inductive SegStep (seg : Segment) (c d : Conn σ) : Prop
  | frame (hs : c.sends) (h : SameSender c d)
  | ack (hs : c.sends) (ht : c.takesACK seg = true) (h : AckStep seg c d)
  | opened (he : Core.early c.state = true) (h : d.Clear) (hc : c.sendCond ≤ d.sendCond)

theorem Handled.segStep {now : Int} {seg : Segment} {c d : Conn σ} (h : Handled now seg c d)
    (hclear : c.state = .synSent ∨ c.state = .synReceived → seqAfter seg.ack c.sendBuf.una = true →
      seqAfter seg.ack c.sendBuf.nxt = false → ({ c with sendBuf := (c.sendBuf.acknowledge seg.ack).1 } : Conn σ).Clear)
    (hnext : c.state = .synReceived → seqAfter c.sendBuf.nxt c.sendBuf.una = true) (hs : d.sends) :
    SegStep seg c d := by
  cases h with
  | ignored | answered | refused | timeWait => exact .frame hs (.of_sendBuf rfl rfl rfl le_rfl)
  | closing => exact absurd hs (not_sends .timeWait (by decide) rfl)
  | lastAck => exact absurd hs (not_sends .closed (by decide) rfl)
  | reset =>
    rw [resetTeardown_frame] at hs
    exact absurd hs (not_sends .closed (by decide) rfl)
  | refusedOpen =>
    rw [safeCloseFinRecvd_frame] at hs
    exact absurd hs (not_sends .closed (by decide) rfl)
  | synAck hst hsyn hrst hack hlo hhi =>
    have hsb := sendBuf_negotiate seg.options c
    have hcond := sendCond_negotiate seg.options c
    have hlo' : seqAfter seg.ack c.sendBuf.una = true := by
      simp only [seqBeforeEq, seqAfter, decide_eq_false_iff_not, decide_eq_true_eq] at hlo ⊢
      omega
    generalize negotiateOptions seg.options (narrowMSS seg.options c) = d at hsb hcond
    obtain ⟨hopen, hle⟩ := completeActiveOpen_clear now seg (c := d) (by
      refine (hclear (.inl hst) hlo' hhi).of_sendBuf ?_
      show (d.sendBuf.acknowledge seg.ack).1 = (c.sendBuf.acknowledge seg.ack).1
      rw [hsb])
    exact .opened (by rw [hst]; rfl) hopen (by rwa [hcond] at hle)
  | syn => exact absurd hs (not_sends .synReceived (by decide) rfl)
  | passive hst hp hack =>
    have hself : seqAfter c.sendBuf.nxt c.sendBuf.nxt = false := by
      rw [seqAfter, BitVec.sub_self]
      rfl
    have hpc : (completePassiveOpen seg c).Clear :=
      (hclear (.inr hst) (by rw [hack, hnext hst]) (by rw [hack, hself])).of_sendBuf (completePassiveOpen_frame c seg).2.1
    have hcond : c.sendCond ≤ (completePassiveOpen seg c).sendCond := by
      rw [completePassiveOpen_eq]
      exact le_rfl
    generalize completePassiveOpen seg c = d at hpc hcond hs ⊢
    have he : Core.early c.state = true := by
      rw [hst]
      rfl
    obtain ⟨-, hsame | ⟨-, hstep⟩⟩ := handleDataState_step now seg hs
    · exact .opened he (hpc.of_sameData hsame.toSameData) (le_trans hcond hsame.sendCond)
    · cases hstep with
      | same h => exact .opened he (hpc.of_sameData h.toSameData) (le_trans hcond h.sendCond)
      | resent h ha => exact .opened he (hpc.of_sameData h) (le_trans hcond h.sendCond)
      | acked hlo hhi hcov hc =>
        rw [hpc.una] at hlo
        cases hlo.symm.trans hhi
  | data hst hp ht =>
    obtain ⟨hc, hsame | ⟨-, hstep⟩⟩ := handleDataState_step now seg hs
    · exact .frame hc hsame
    · exact .ack hc ht hstep
  | closeWait hst hp ht => exact .ack (.inr hst) ht (processSegACK_step now seg c)

theorem handleSegment_seg {h : Host σ} (hinv : h.core.SendInv) (now : Int) (seg : Segment)
    (hs : (handleSegment now seg h.conn).sends) : SegStep seg h.conn (handleSegment now seg h.conn) := by
  have hstep := (handled now seg h.conn).segStep (fun hst hlo hhi => ?_) (fun hst => ?_) hs
  · cases hstep with
    | frame hs hd => exact .frame hs (hd.source rfl rfl rfl rfl)
    | ack hs ht hd =>
      refine .ack hs ht ?_
      cases hd with
      | same hd => exact .same (hd.source rfl rfl rfl rfl)
      | resent hd ha => exact .resent (hd.source rfl rfl) ha
      | acked hlo hhi hcov hc => exact .acked hlo hhi hcov hc
    | opened he hd hc => exact .opened he hd hc
  · obtain ⟨hbuf, -, hnxt⟩ := hinv.acknowledge_syn hst hlo hhi
    exact ⟨hbuf, hnxt.symm⟩
  · obtain ⟨-, huna, hnxt⟩ := hinv.handshake (.inr hst)
    have huna' : (h.conn.touch now).sendBuf.una = h.conn.iss := huna
    have hnxt' : (h.conn.touch now).sendBuf.nxt = h.conn.iss + 1 := hnxt
    have hone : h.conn.iss + 1 - h.conn.iss = 1 := by bv_omega
    rw [hnxt', huna', seqAfter, hone]
    rfl

end Conn

/-! ### All events -/

def Host.toWrite (h : Host σ) : Event → Option (List Byte)
  | .write _ b => some b
  | .resume _ i => (h.writers[i]?).map Writer.rest
  | _ => none

namespace Conn

def fits (rest : List Byte) (c : Conn σ) : Bool := decide (rest.length ≤ c.sendBuf.cap - c.sendBuf.buf.length)

/-- What an event does to the sender of a connection that sends afterwards. -/
inductive SenderStep (e : Event) (h : Host σ) (d : Conn σ) : Prop
  | frame (hs : h.conn.sends) (hd : SameSender h.conn d)
  | opened (he : Core.early h.conn.state = true) (hd : d.Clear) (hc : h.conn.sendCond ≤ d.sendCond)
  | resent (hs : h.conn.sends) (hd : SameData h.conn d) (ha : d.Armed)
  | acked {now seg} (he : e = .segment now seg) (hs : h.conn.sends) (ht : h.conn.takesACK seg = true)
      (hd : AckStep seg h.conn d)
  | probed {now} (he : e = .persist now) (hs : h.conn.sends) (hbuf : d.sendBuf.buf = h.conn.sendBuf.buf)
      (hcap : d.sendBuf.cap = h.conn.sendBuf.cap) (ha : d.Armed) (hc : h.conn.sendCond ≤ d.sendCond)
  | flushed {now} (he : e = .persist now) (hs : h.conn.sends) (hcl : h.conn.closed = false) (hw : 0 < h.conn.sndWnd)
      (hd : SameSender (flushSendQueue now h.conn.stopPersist) d)
  | kept {now} (he : e = .keepalive now) (hs : h.conn.sends) (hcl : h.conn.closed = false)
      (hk : h.conn.keepaliveExpired now = false) (hd : SameData h.conn d) (hr : d.rtoTimer = h.conn.rtoTimer)
  | filled {rest} (he : h.toWrite e = some rest) (hs : h.conn.sends) (hcl : h.conn.closed = false)
      (hfit : h.conn.fits rest = false)
      (hd : SameSender { h.conn with sendBuf := (h.conn.sendBuf.write rest).1 } d)
  | wrote {rest now} (he : h.toWrite e = some rest) (hs : h.conn.sends) (hcl : h.conn.closed = false)
      (hfit : h.conn.fits rest = true)
      (hd : SameSender (flushSendQueue now { h.conn with sendBuf := (h.conn.sendBuf.write rest).1 }) d)

variable {e : Event} {h : Host σ}

theorem SenderStep.right {d d' : Conn σ} (hd : SenderStep e h d) (hr : SameSender d d') :
    SenderStep e h d' := by
  cases hd with
  | frame hs hd => exact .frame hs (hd.trans hr)
  | opened he hd hc => exact .opened he (hd.of_sameData hr.toSameData) (le_trans hc hr.sendCond)
  | resent hs hd ha => exact .resent hs (hd.trans hr.toSameData) (hr.armed.2 ha)
  | acked he hs ht hd => exact .acked he hs ht (hd.frame hr)
  | probed he hs hbuf hcap ha hc =>
    exact .probed he hs (hr.buf.trans hbuf) (hr.cap.trans hcap) (hr.armed.2 ha) (le_trans hc hr.sendCond)
  | flushed he hs hcl hw hd => exact .flushed he hs hcl hw (hd.trans hr)
  | kept he hs hcl hk hd hrto => exact .kept he hs hcl hk (hd.trans hr.toSameData) (hr.rtoTimer.trans hrto)
  | filled he hs hcl hfit hd => exact .filled he hs hcl hfit (hd.trans hr)
  | wrote he hs hcl hfit hd => exact .wrote he hs hcl hfit (hd.trans hr)

theorem SenderStep.of_frame {d : Conn σ} (hf : Frame h.conn d) (hs : d.sends) :
    SenderStep e h d :=
  .frame (hf hs).1 (hf hs).2

theorem onRTOTimeout_sender (now : Int) (hs : (onRTOTimeout now h.conn).sends) :
    SenderStep e h (onRTOTimeout now h.conn) := by
  rcases onRTOTimeout_cases now h.conn with ⟨-, heq⟩ | ⟨-, ⟨-, -, heq⟩ | ⟨-, heq⟩⟩ <;> rw [heq] at hs ⊢
  · exact SenderStep.of_frame (Frame.refl _) hs
  · exact absurd hs (not_sends .closed (by decide) rfl)
  · have hsb := sendBuf_resend now { h.conn with
      retries := h.conn.retries + 1, rto := h.conn.rto.backoff.invalidateTiming, cc := onTimeout h.conn.cc }
    rw [resend_frame] at hs ⊢
    rcases hsb with hsb | hst | hst
    · exact .resent hs (SameData.of_sendBuf hsb le_rfl) (.inl rfl)
    · exact absurd hs (not_sends .finWait1 (by decide) hst)
    · exact absurd hs (not_sends .lastAck (by decide) hst)

theorem onPersistTimeout_sender (now : Int) (hs : (onPersistTimeout now h.conn).sends) :
    SenderStep (.persist now) h (onPersistTimeout now h.conn) := by
  revert hs
  unfold onPersistTimeout
  split
  · exact SenderStep.of_frame (Frame.refl _)
  · rename_i hopen
    rw [not_or, Bool.not_eq_true] at hopen
    split
    · rename_i hw
      intro hs
      refine .flushed rfl ?_ hopen.1 hw (SameSender.refl _)
      unfold sends at hs ⊢
      rwa [state_flushSendQueue] at hs
    · have hprobe : h.conn.windowProbe.state = h.conn.state ∧
          h.conn.windowProbe.sendBuf.buf = h.conn.sendBuf.buf ∧
          h.conn.windowProbe.sendBuf.cap = h.conn.sendBuf.cap ∧
          h.conn.sendCond ≤ h.conn.windowProbe.sendCond := by
        unfold windowProbe
        split
        · exact ⟨rfl, rfl, rfl, le_rfl⟩
        · exact ⟨rfl, rfl, rfl, le_rfl⟩
      obtain ⟨hst, hbuf, hcap, hcond⟩ := hprobe
      intro hs
      refine .probed rfl ?_ hbuf hcap (.inr rfl) hcond
      unfold sends at hs ⊢
      rwa [show _ = h.conn.state from hst] at hs

theorem onKeepalive_sender (now : Int) (hs : (onKeepalive now h.conn).sends) :
    SenderStep (.keepalive now) h (onKeepalive now h.conn) := by
  rcases onKeepalive_cases now h.conn with hsame | ⟨hst, hcl, ⟨-, habort⟩ | ⟨hexp, d, ks, kt, hd, hrearm⟩⟩
  · rw [hsame] at hs ⊢
    exact SenderStep.of_frame (Frame.refl _) hs
  · rw [habort, keepaliveAbort_frame] at hs
    exact absurd hs (not_sends .closed (by decide) rfl)
  · rw [hrearm]
    rcases hd with rfl | rfl
    · exact .kept rfl hst hcl hexp (SameData.of_sendBuf rfl le_rfl) rfl
    · exact .kept rfl hst hcl hexp (SameData.of_sendBuf rfl le_rfl) rfl

theorem write_length_iff (s : SendBuf) (rest : List Byte) :
    (s.write rest).2 = rest.length ↔ rest.length ≤ s.cap - s.buf.length := by
  unfold SendBuf.write
  simp only
  split
  · show 0 = rest.length ↔ _
    omega
  · show (if rest.length > s.cap - s.buf.length then s.cap - s.buf.length else rest.length) = rest.length ↔ _
    split <;> omega

theorem writeLoop_sender {rest : List Byte} (now : Int) (written : Nat)
    (he : h.toWrite e = some rest) (hcl : h.conn.closed = false) (hs : (h.conn.writeLoop now rest written).1.sends) :
    SenderStep e h (h.conn.writeLoop now rest written).1 := by
  have hiff := write_length_iff h.conn.sendBuf rest
  revert hs
  unfold writeLoop
  simp only
  split
  · rename_i hlen
    intro hs
    refine .wrote he ?_ hcl (decide_eq_true (hiff.1 hlen)) (SameSender.refl _)
    unfold sends at hs ⊢
    rwa [state_flushSendQueue] at hs
  · rename_i hlen
    have hfit : h.conn.fits rest = false := decide_eq_false fun hle => hlen (hiff.2 hle)
    split
    · split
      · exact fun hs => .filled he hs hcl hfit (SameSender.refl _)
      · exact fun hs => .filled he hs hcl hfit (SameSender.refl _)
    · exact fun hs => .filled he hs hcl hfit (SameSender.refl _)

end Conn

namespace Host

open Conn

theorem sender_step {h h' : Host σ} {e : Event} (hinv : h.core.SendInv) (hn : h.next e = some h')
    (hs : h'.conn.sends) : SenderStep e h h'.conn := by
  obtain ⟨c, hcall, hleft⟩ := called_of_next hn
  suffices hstep : c.sends → SenderStep e h c by
    rw [hleft.conn] at hs ⊢
    exact (hstep hs).right (SameSender.of_sendBuf rfl rfl rfl le_rfl)
  have hgone : ∀ (d : Conn σ) (st : State), d.state = st → st ≠ .established ∧ st ≠ .closeWait →
      d.sends → SenderStep e h d :=
    fun d st hst hne hs => absurd hs (not_sends st hne hst)
  cases hcall with
  | connect now iss =>
    unfold Conn.connect
    split
    · exact SenderStep.of_frame (Frame.refl _)
    · exact hgone _ .synSent rfl (by decide)
  | acceptSYN now iss syn =>
    unfold Conn.acceptSYN
    split
    · exact SenderStep.of_frame (Frame.refl _)
    · exact hgone _ .synReceived rfl (by decide)
  | acceptCookie remoteSeq ourISS mss data =>
    by_cases hst : h.conn.state = .closed ∨ h.conn.state = .listen
    · have he : Core.early h.conn.state = true := by
        rcases hst with hst | hst <;> rw [hst] <;> rfl
      obtain ⟨m, kt, pt, pb, hcookie⟩ := Conn.acceptCookie_frame remoteSeq ourISS mss data hst
      rw [hcookie]
      exact fun _ => .opened he ⟨rfl, rfl⟩ le_rfl
    · have hsame : h.conn.acceptCookie remoteSeq ourISS mss data = h.conn := if_pos (not_or.1 hst)
      rw [hsame]
      exact SenderStep.of_frame (Frame.refl _)
  | setupForHandshake iss => exact hgone _ .synSent rfl (by decide)
  | segment now seg =>
    intro hs
    cases handleSegment_seg hinv now seg hs with
    | frame hc hd => exact .frame hc hd
    | ack hc ht hd => exact .acked rfl hc ht hd
    | opened he hd hc => exact .opened he hd hc
  | rto now => exact onRTOTimeout_sender now
  | persist now => exact onPersistTimeout_sender now
  | keepalive now => exact onKeepalive_sender now
  | timeWait => exact hgone _ .closed rfl (by decide)
  | write now b =>
    unfold Conn.write
    split
    · exact SenderStep.of_frame (Frame.refl _)
    · rename_i hcl
      split
      · exact SenderStep.of_frame (Frame.refl _)
      · exact writeLoop_sender now 0 rfl (by simpa using hcl)
  | @resume now i w hw =>
    unfold Conn.writeResume
    split
    · exact SenderStep.of_frame (Frame.refl _)
    · rename_i hcl
      exact writeLoop_sender now w.written (by simp [toWrite, hw]) (by simpa using hcl)
  | read now n =>
    rw [Conn.read_frame]
    exact fun hs => .frame hs (SameSender.of_sendBuf rfl rfl rfl le_rfl)
  | close now =>
    unfold Conn.close
    split
    · exact SenderStep.of_frame (Frame.refl _)
    · split
      · exact hgone _ .finWait1 rfl (by decide)
      · exact hgone _ .lastAck rfl (by decide)
      · exact hgone _ .closed rfl (by decide)
      · exact hgone _ .finWait1 rfl (by decide)
      · exact SenderStep.of_frame (Frame.refl _)
      · exact SenderStep.of_frame (Frame.refl _)
      · exact hgone _ .closed rfl (by decide)
  | abort =>
    have habort : h.conn.abort.state = .closed := by
      unfold Conn.abort
      split
      · assumption
      · simp only
        rw [state_safeCloseFinRecvd]
        split <;> rfl
    exact hgone _ .closed habort (by decide)
  | setDeadline | setReadDeadline => exact fun hs => .frame hs (SameSender.of_sendBuf rfl rfl rfl le_rfl)
  | setWriteDeadline | broadcastSend => exact fun hs => .frame hs (SameSender.of_sendBuf rfl rfl rfl (Nat.le_succ _))

end Host

end Libp2px.Vtcp
