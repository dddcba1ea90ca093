import Libp2px.Vtcp.Deliver
import Libp2px.Vtcp.Network
import Libp2px.Vtcp.SenderStep

/-!
# Answers to pure acknowledgments

An acknowledgment in sequence that carries nothing needs no answer.  The handlers of CLOSING and TIME-WAIT answer every
segment, and an acceptance window above `2^31` makes every segment unacceptable, which is answered too; otherwise no
such acknowledgment is answered by another one.  Two connections that answer each other's acknowledgments never stop:
so it is after a simultaneous close.
-/

namespace Libp2px.Vtcp

open Transition

set_option linter.unusedSectionVars false

variable {σ : Type} [CongestionController σ]

namespace Conn

/-- A pure ACK in sequence that acknowledges something between `SND.UNA` and `SND.NXT` and passes PAWS. -/
def inSequenceACK (seg : Segment) (c : Conn σ) : Bool :=
  seg.pureACK && decide (seg.seq = c.recvBuf.nxt) && seqBeforeEq c.sendBuf.una seg.ack &&
    seqBeforeEq seg.ack c.sendBuf.nxt && c.pawsOK seg.options

def leavesUnanswered (c : Conn σ) : Bool :=
  decide (c.state ≠ .closing) && decide (c.state ≠ .timeWait) && decide (c.acceptWnd.toNat ≤ 2 ^ 31)

/-! ### What the send path queues -/

/-- All that was queued between `c` and `d` carries payload or is no ACK. -/
def QueuesNoACK (c d : Conn σ) : Prop :=
  ∃ out, d.outgoing = c.outgoing ++ out ∧ ∀ p ∈ out, p.seg.payloadFreeACK = false

theorem QueuesNoACK.of_eq {c d : Conn σ} (h : d.outgoing = c.outgoing) : QueuesNoACK c d :=
  ⟨[], by simp [h], by simp⟩

theorem QueuesNoACK.trans {c d f : Conn σ} (h₁ : QueuesNoACK c d) (h₂ : QueuesNoACK d f) : QueuesNoACK c f := by
  obtain ⟨o₁, ho₁, hq₁⟩ := h₁
  obtain ⟨o₂, ho₂, hq₂⟩ := h₂
  refine ⟨o₁ ++ o₂, by rw [ho₂, ho₁, List.append_assoc], ?_⟩
  intro p hp
  rcases List.mem_append.1 hp with hp | hp
  · exact hq₁ p hp
  · exact hq₂ p hp

theorem QueuesNoACK.after {c d f : Conn σ} (h : QueuesNoACK c d) (ho : f.outgoing = d.outgoing) : QueuesNoACK c f := by
  obtain ⟨out, hout, hq⟩ := h
  exact ⟨out, ho.trans hout, hq⟩

theorem QueuesNoACK.source {b c d : Conn σ} (ho : c.outgoing = b.outgoing) (h : QueuesNoACK c d) : QueuesNoACK b d := by
  obtain ⟨out, hout, hq⟩ := h
  exact ⟨out, by rw [hout, ho], hq⟩

theorem QueuesNoACK.broadcastSend {c d : Conn σ} (h : QueuesNoACK c d) : QueuesNoACK c d.broadcastSend := h.after rfl

variable {seg : Segment} {c : Conn σ}

theorem queuesNoACK_queueSeg (c : Conn σ) (hs : seg.payloadFreeACK = false) :
    QueuesNoACK c (c.queueSeg seg) := by
  refine ⟨[⟨seg, c.sendBuf.pos seg.seq, c.freeSpace⟩], rfl, ?_⟩
  intro p hp
  rw [List.mem_singleton] at hp
  rw [hp]
  exact hs

theorem payloadFreeACK_data (c : Conn σ) (now : Int) (seq : BitVec 32) (flags : BitVec 8) {data : List Byte}
    (hd : data ≠ []) : (c.ackSegment now seq flags data).payloadFreeACK = false := by
  simp [Segment.payloadFreeACK, ackSegment, hd]

theorem queuesNoACK_flushLoop (now : Int) (fuel : Nat) (c : Conn σ) : QueuesNoACK c (flushLoop now fuel c) := by
  induction fuel generalizing c with
  | zero => exact .of_eq rfl
  | succ fuel ih =>
    unfold flushLoop
    split
    · exact .of_eq rfl
    · rename_i n hn
      have hq := queuesNoACK_queueSeg c (payloadFreeACK_data c now c.sendBuf.nxt (flagACK ||| flagPSH)
        (chunkSize_some hn).2)
      refine (hq.after ?_).trans (ih _)
      unfold sendChunk
      simp only
      split <;> rfl

theorem queuesNoACK_flushSendQueue (now : Int) (c : Conn σ) : QueuesNoACK c (flushSendQueue now c) := by
  refine (queuesNoACK_flushLoop now c.sendBuf.pending.toNat c).after ?_
  unfold flushSendQueue armPersist
  split <;> rfl

theorem queuesNoACK_retransmit (now : Int) (c : Conn σ) : QueuesNoACK c (retransmit now c) := by
  unfold retransmit
  split
  · exact .of_eq rfl
  · rename_i data hd
    split
    · exact .of_eq rfl
    · rename_i hne
      exact (queuesNoACK_queueSeg c (payloadFreeACK_data c now _ _ hne)).after rfl

theorem outgoing_updateSACK (opts : List TcpOption) (c : Conn σ) : (updateSACK opts c).outgoing = c.outgoing := by
  rw [updateSACK_frame]

theorem queuesNoACK_processSegACK (now : Int)
    (hack : seqAfter seg.ack c.sendBuf.nxt = false) : QueuesNoACK c (processSegACK now seg c) := by
  have hcore : QueuesNoACK c (processACK now seg.ack seg.options c) := by
    unfold processACK
    split
    · unfold processDupACK
      refine QueuesNoACK.after ?_ (outgoing_updateSACK _ _)
      simp only
      split
      · exact .source rfl (queuesNoACK_retransmit now _)
      · exact .of_eq rfl
    · split
      · rename_i hhi
        cases hack.symm.trans hhi
      · have hout : (rearm now seg.ack (updateSACK seg.options (c.applyACK seg.ack))).outgoing = c.outgoing := by
          rw [newACK_frame]
        exact QueuesNoACK.source hout (queuesNoACK_flushSendQueue now _).broadcastSend
  unfold processSegACK
  split
  · generalize processACK now seg.ack seg.options c = d at hcore
    exact hcore.after rfl
  · exact .of_eq rfl

/-! ### A pure ACK in sequence -/

/-- What `inSequenceACK` says about the flags, the numbers and the timestamp. -/
structure InSequence (seg : Segment) (c : Conn σ) : Prop where
  payload : seg.payload = []
  ack : seg.hasFlag flagACK = true
  syn : seg.hasFlag flagSYN = false
  fin : seg.hasFlag flagFIN = false
  rst : seg.hasFlag flagRST = false
  seq : seg.seq = c.recvBuf.nxt
  hi : seqAfter seg.ack c.sendBuf.nxt = false
  paws : c.pawsOK seg.options = true

theorem inSequence_of (h : c.inSequenceACK seg = true) : InSequence seg c := by
  simp only [inSequenceACK, Segment.pureACK, Segment.payloadFreeACK, Bool.and_eq_true, Bool.not_eq_true',
    decide_eq_true_eq] at h
  obtain ⟨⟨⟨⟨⟨⟨⟨⟨ha, hp⟩, hs⟩, hf⟩, hr⟩, hq⟩, -⟩, hhi⟩, hpaws⟩ := h
  refine ⟨hp, ha, hs, hf, hr, hq, ?_, hpaws⟩
  simp only [seqBeforeEq, seqAfter, decide_eq_true_eq, decide_eq_false_iff_not] at hhi ⊢
  omega

theorem queuesNoACK_handleDataState (now : Int) (hp : seg.payload = [])
    (hf : seg.hasFlag flagFIN = false) (hhi : seqAfter seg.ack c.sendBuf.nxt = false)
    (hpaws : c.pawsOK seg.options = true) : QueuesNoACK c (handleDataState now seg c) := by
  obtain ⟨ts, hts⟩ := recordTimestamp_eq seg.options c
  have hq : QueuesNoACK c (processSegACK now seg (c.recordTimestamp seg.options)) := by
    rw [hts]
    exact .source rfl (queuesNoACK_processSegACK (c := { c with tsRecent := ts }) now hhi)
  rw [handleDataState_eq now hpaws]
  generalize processSegACK now seg (c.recordTimestamp seg.options) = d at hq
  simp only [dataAndFIN, hp, hf, ne_eq, not_true_eq_false, if_false, Bool.false_eq_true, or_self]
  split
  · exact hq.after rfl
  · exact hq

theorem queuesNoACK_dispatch (now : Int) (h : InSequence seg c)
    (h₁ : c.state ≠ .closing) (h₂ : c.state ≠ .timeWait) : QueuesNoACK c (dispatch now seg c) := by
  unfold dispatch
  split
  · unfold handleSynReceived
    split
    · have hrst : flagRST &&& flagACK = 0 := by decide
      exact queuesNoACK_queueSeg c (by simp [Segment.payloadFreeACK, Segment.hasFlag, rstSegment, hrst])
    · rename_i hack
      have hout : (completePassiveOpen seg c).outgoing = c.outgoing := by
        rw [completePassiveOpen_eq]
        rfl
      obtain ⟨-, hsb, -, -, hpaws⟩ := completePassiveOpen_frame c seg
      refine (QueuesNoACK.of_eq hout).trans (queuesNoACK_handleDataState now h.payload h.fin ?_ ?_)
      · rw [hsb]
        have hnxt : (c.sendBuf.acknowledge seg.ack).1.nxt = c.sendBuf.nxt := by
          unfold SendBuf.acknowledge
          split <;> rfl
        rw [hnxt]
        exact h.hi
      · rw [hpaws]
        exact h.paws
  · exact queuesNoACK_handleDataState now h.payload h.fin h.hi h.paws
  · exact queuesNoACK_handleDataState now h.payload h.fin h.hi h.paws
  · exact queuesNoACK_handleDataState now h.payload h.fin h.hi h.paws
  · exact queuesNoACK_processSegACK now h.hi
  · rename_i hst
    exact absurd hst h₁
  · unfold handleLastAck
    split <;> exact .of_eq rfl
  · rename_i hst
    exact absurd hst h₂
  · exact .of_eq rfl

theorem acceptWnd_ne_zero (c : Conn σ) : c.acceptWnd ≠ 0 := by
  unfold acceptWnd
  split
  · decide
  · rename_i h
    exact h

theorem segmentAcceptable_inSequence (ho : c.opened = true) (h : InSequence seg c) :
    c.segmentAcceptable seg = decide (c.acceptWnd.toNat ≤ 2 ^ 31) := by
  have hlen : seg.segLen = 0 := by simp [Segment.segLen, h.payload, h.syn, h.fin]
  have hne := c.acceptWnd_ne_zero
  unfold segmentAcceptable
  simp only [ho, Bool.not_true, Bool.false_eq_true, if_false, hlen, if_true, h.seq]
  generalize c.acceptWnd = w at hne ⊢
  have hneg : c.recvBuf.nxt - (c.recvBuf.nxt + w) = -w := by bv_omega
  have hself : seqAfterEq c.recvBuf.nxt c.recvBuf.nxt = true := by simp [seqAfterEq]
  rw [seqInRange, hself, Bool.true_and, seqBefore, hneg]
  have hw : w.toNat ≠ 0 := fun h0 => hne (BitVec.eq_of_toNat_eq h0)
  have hlt := w.isLt
  by_cases hle : w.toNat ≤ 2 ^ 31
  · rw [decide_eq_true hle, decide_eq_true_eq, BitVec.toInt_eq_toNat_cond, BitVec.toNat_neg]
    split <;> omega
  · rw [decide_eq_false hle, decide_eq_false_iff_not, BitVec.toInt_eq_toNat_cond, BitVec.toNat_neg]
    split <;> omega

theorem mem_queueACK (now : Int) (c : Conn σ) :
    ∃ p ∈ (queueACK now c).outgoing, p.seg.payloadFreeACK = true := by
  refine ⟨⟨c.ackSegment now c.sendBuf.nxt flagACK [], c.sendBuf.pos c.sendBuf.nxt, c.freeSpace⟩, ?_, ?_⟩
  · exact List.mem_append_right _ (List.mem_singleton_self _)
  · simp only [Segment.payloadFreeACK, Segment.hasFlag, ackSegment]
    decide

theorem handleSynchronized_unanswered (now : Int) (ho : c.opened = true)
    (hout : c.outgoing = []) (h : InSequence seg c) :
    (∀ p ∈ (handleSynchronized now seg c).outgoing, p.seg.payloadFreeACK = false) ↔ c.leavesUnanswered = true := by
  have hq : ∀ d : Conn σ, (∀ p ∈ (queueACK now d).outgoing, p.seg.payloadFreeACK = false) → False := by
    intro d hd
    obtain ⟨p, hp, ht⟩ := mem_queueACK now d
    cases (hd p hp).symm.trans ht
  have hrcvd : c.synRcvdOK seg = false := by simp [synRcvdOK, h.syn]
  unfold handleSynchronized
  rw [segmentAcceptable_inSequence ho h, hrcvd]
  by_cases hw : c.acceptWnd.toNat ≤ 2 ^ 31
  · simp only [hw, h.rst, h.syn, h.ack, decide_true, Bool.not_true, Bool.false_eq_true, false_and, if_false,
      leavesUnanswered, Bool.and_true, Bool.and_eq_true, decide_eq_true_eq]
    by_cases h₁ : c.state = .closing
    · refine ⟨fun hd => ?_, fun hs => absurd h₁ hs.1⟩
      unfold dispatch at hd
      simp only [h₁] at hd
      exact (hq _ hd).elim
    · by_cases h₂ : c.state = .timeWait
      · refine ⟨fun hd => ?_, fun hs => absurd h₂ hs.2⟩
        unfold dispatch at hd
        simp only [h₂] at hd
        exact (hq _ hd).elim
      · refine ⟨fun _ => ⟨h₁, h₂⟩, fun _ => ?_⟩
        obtain ⟨out, hd, hno⟩ := queuesNoACK_dispatch now h h₁ h₂
        rw [hd, hout, List.nil_append]
        exact hno
  · simp only [hw, h.rst, decide_false, Bool.not_false, and_self, if_true, Bool.false_eq_true, if_false,
      leavesUnanswered, Bool.and_false, iff_false]
    exact hq c

end Conn

/-! ### Exchanges -/

/-- A pure ACK in sequence, in a synchronized state, is left unanswered exactly by the connections that are neither in
CLOSING nor in TIME-WAIT and whose window is at most `2^31`. -/
theorem Host.answer_pureACK {P : Host σ → Event → Prop} {h h' : Host σ} {now : Int} {seg : Segment}
    (hr : (system σ).Reach P h) (hs : h.conn.state.synchronized = true) (hseg : h.conn.inSequenceACK seg = true)
    (hn : h.next (.segment now seg) = some h') :
    (∀ p ∈ h.answer h', p.seg.payloadFreeACK = false) ↔ h.conn.leavesUnanswered = true := by
  have hopen := opened_of_synchronized hr hs
  have hin := Conn.inSequence_of hseg
  rw [answer_segment hn]
  rw [Conn.handleSegment_synchronized hs]
  exact Conn.handleSynchronized_unanswered now hopen (outgoing_eq_nil hr)
    { hin with }

structure Exchange (σ : Type) where
  host : Side → Host σ
  flight : Side → List Packet

namespace Exchange

def acks (x : Exchange σ) : Nat :=
  (x.flight .left).countP (fun p => p.seg.payloadFreeACK) + (x.flight .right).countP (fun p => p.seg.payloadFreeACK)

/-- A segment in flight to one end is delivered and no longer in flight, and the answer is. -/
structure Delivers (x y : Exchange σ) (s : Side) (p : Packet) : Prop where
  mem : p ∈ x.flight s
  reached : (Host.system σ).Reach anyStep (x.host s)
  step : ∃ now, (x.host s).next (.segment now p.seg) = some (y.host s)
  taken : y.flight s = (x.flight s).erase p
  answered : y.flight s.other = x.flight s.other ++ (x.host s).answer (y.host s)
  other : y.host s.other = x.host s.other

def DeliversACK (x y : Exchange σ) (s : Side) : Prop :=
  ∃ p, Delivers x y s p ∧ (x.host s).conn.state.synchronized = true ∧ (x.host s).conn.inSequenceACK p.seg = true

theorem acks_lt {x y : Exchange σ} {s : Side} (h : DeliversACK x y s)
    (hq : (x.host s).conn.leavesUnanswered = true) : y.acks < x.acks := by
  obtain ⟨p, hd, hs, hseg⟩ := h
  obtain ⟨now, hn⟩ := hd.step
  have hnone : ((x.host s).answer (y.host s)).countP (fun p => p.seg.payloadFreeACK) = 0 := by
    rw [List.countP_eq_zero]
    intro q hq'
    rw [(Host.answer_pureACK hd.reached hs hseg hn).2 hq q hq']
    decide
  have hp : p.seg.payloadFreeACK = true := by
    simp only [Conn.inSequenceACK, Segment.pureACK, Bool.and_eq_true] at hseg
    exact hseg.1.1.1.1.1.1.1
  have hpos : 0 < (x.flight s).countP (fun p => p.seg.payloadFreeACK) := List.countP_pos_iff.2 ⟨p, hd.mem, hp⟩
  have htaken : (y.flight s).countP (fun p => p.seg.payloadFreeACK) =
      (x.flight s).countP (fun p => p.seg.payloadFreeACK) - 1 := by
    rw [hd.taken, List.countP_erase, if_pos ⟨hd.mem, hp⟩]
  have hother : (y.flight s.other).countP (fun p => p.seg.payloadFreeACK) =
      (x.flight s.other).countP (fun p => p.seg.payloadFreeACK) := by
    rw [hd.answered, List.countP_append, hnone, Nat.add_zero]
  unfold acks
  cases s <;> simp only [Side.other] at hother <;> omega

/-- A pure ACK in sequence is answered by an ACK only in CLOSING, in TIME-WAIT or with a window above `2^31`, and two
connections elsewhere never exchange pure ACKs forever. -/
theorem no_ack_storm {h h' : Host σ} {now : Int} {seg : Segment} (hr : (Host.system σ).Reach anyStep h)
    (hs : h.conn.state.synchronized = true) (hseg : h.conn.inSequenceACK seg = true)
    (hn : h.next (.segment now seg) = some h') :
    ((∀ p ∈ h.answer h', p.seg.payloadFreeACK = false) ↔ h.conn.leavesUnanswered = true) ∧
      ¬∃ f : Nat → Exchange σ, ∀ k, ∃ s, DeliversACK (f k) (f (k + 1)) s ∧
        ((f k).host s).conn.leavesUnanswered = true := by
  refine ⟨Host.answer_pureACK hr hs hseg hn, ?_⟩
  rintro ⟨f, hf⟩
  obtain ⟨k, hk⟩ := WellFounded.not_rel_apply_succ (r := fun x y : Exchange σ => x.acks < y.acks) f
  obtain ⟨s, hd, hq⟩ := hf k
  exact hk (acks_lt hd hq)

end Exchange

/-- A byte is written and sent, and a pure ACK arrives that acknowledges it. -/
theorem no_ack_storm_byteAcked :
    ∃ h h' : Host SmallController, h.conn.state = .established ∧ h.conn.sendBuf.una ≠ h'.conn.sendBuf.una ∧
      ((∀ p ∈ h.answer h', p.seg.payloadFreeACK = false) ↔ h.conn.leavesUnanswered = true) := by
  have hr : (Host.system SmallController).Reach anyStep ((Host.fresh {} 0).run (opening ++ [.write 0 [1]])) :=
    Host.run_reach (by decide +kernel) (execMeets_anyStep _ _ _)
  have hn := Host.next_run (h := (Host.fresh {} 0 : Host SmallController).run (opening ++ [.write 0 [1]]))
    (e := .segment 0 { srcPort := 0, dstPort := 0, seq := 701, ack := 102, flags := flagACK, window := 1000 })
    (by decide +kernel)
  refine ⟨_, _, ?_, ?_, (Exchange.no_ack_storm hr (by decide +kernel) (by decide +kernel) hn).1⟩
  · decide +kernel
  · decide +kernel

/-! ### The storm after a simultaneous close -/

namespace Conn

theorem inSequenceACK_ackSegment {c d : Conn σ} {now : Int} (hnxt : c.sendBuf.nxt = d.recvBuf.nxt)
    (hack : d.sendBuf.nxt = c.recvBuf.nxt) (huna : seqBeforeEq d.sendBuf.una d.sendBuf.nxt = true)
    (hts : d.tsOK = false) : d.inSequenceACK (c.ackSegment now c.sendBuf.nxt flagACK []) = true := by
  have hpure : (c.ackSegment now c.sendBuf.nxt flagACK []).pureACK = true := by
    simp only [Segment.pureACK, Segment.payloadFreeACK, Segment.hasFlag, ackSegment]
    decide
  have hpaws : ∀ opts, d.pawsOK opts = true := by
    intro opts
    simp [pawsOK, hts]
  have hself : seqBeforeEq d.sendBuf.nxt d.sendBuf.nxt = true := by simp [seqBeforeEq]
  have hseq : (c.ackSegment now c.sendBuf.nxt flagACK []).seq = d.recvBuf.nxt := hnxt
  have hack' : (c.ackSegment now c.sendBuf.nxt flagACK []).ack = d.sendBuf.nxt := hack.symm
  rw [inSequenceACK, hpure, hseq, hack', huna, hself, hpaws]
  simp

theorem handleSegment_timeWait (now : Int) {seg : Segment} {c : Conn σ} (hs : c.state = .timeWait)
    (ho : c.opened = true) (hw : c.acceptWnd.toNat ≤ 2 ^ 31) (h : InSequence seg c) :
    c.handleSegment now seg = queueACK now (c.touch now).restartTimeWait := by
  have hacc := segmentAcceptable_inSequence ho h
  have hpass : c.Passes seg := ⟨by rw [hacc, decide_eq_true hw]; rfl, h.rst, .inl h.syn, h.ack⟩
  have hs' : (c.touch now).state = .timeWait := hs
  rw [hpass.handleSegment now (by rw [hs]; rfl), dispatch, hs']

structure SameNumbers (c d : Conn σ) : Prop where
  state : d.state = c.state
  opened : d.opened = c.opened
  hung : d.hung = c.hung
  tsOK : d.tsOK = c.tsOK
  cap : d.recvBufCap = c.recvBufCap
  sendBuf : d.sendBuf = c.sendBuf
  recvBuf : d.recvBuf = c.recvBuf

theorem answer_timeWait (now : Int) {seg : Segment} {c : Conn σ} (hs : c.state = .timeWait) (ho : c.opened = true)
    (hw : c.acceptWnd.toNat ≤ 2 ^ 31) (h : InSequence seg c) :
    SameNumbers c (c.handleSegment now seg) ∧ (c.handleSegment now seg).outgoing =
      c.outgoing ++ [⟨c.ackSegment now c.sendBuf.nxt flagACK [], c.sendBuf.pos c.sendBuf.nxt, c.freeSpace⟩] := by
  rw [handleSegment_timeWait now hs ho hw h]
  unfold restartTimeWait
  split <;> exact ⟨⟨rfl, rfl, rfl, rfl, rfl, rfl, rfl⟩, rfl⟩

end Conn

namespace Exchange

/-- Both ends are in TIME-WAIT with the numbers of each other, and a pure ACK in sequence is in flight. -/
structure Storming (x : Exchange σ) : Prop where
  reached : ∀ s, (Host.system σ).Reach anyStep (x.host s)
  state : ∀ s, (x.host s).conn.state = .timeWait
  opened : ∀ s, (x.host s).conn.opened = true ∧ (x.host s).conn.hung = false
  tsOK : ∀ s, (x.host s).conn.tsOK = false
  wnd : ∀ s, (x.host s).conn.acceptWnd.toNat ≤ 2 ^ 31
  nxt : ∀ s, (x.host s).conn.sendBuf.nxt = (x.host s.other).conn.recvBuf.nxt
  una : ∀ s, seqBeforeEq (x.host s).conn.sendBuf.una (x.host s).conn.sendBuf.nxt = true
  ack : ∃ s, ∃ p ∈ x.flight s, (x.host s).conn.inSequenceACK p.seg = true

theorem Storming.step {x : Exchange σ} (h : x.Storming) : ∃ y s, DeliversACK x y s ∧ y.Storming := by
  obtain ⟨s, p, hp, hseg⟩ := h.ack
  have hin := Conn.inSequence_of hseg
  obtain ⟨hsame, hout⟩ := Conn.answer_timeWait 0 (h.state s) (h.opened s).1 (h.wnd s) hin
  obtain ⟨d, hn, hd⟩ : ∃ d, (x.host s).next (.segment 0 p.seg) = some d ∧ Conn.SameNumbers (x.host s).conn d.conn := by
    refine ⟨{ (x.host s).finish ((x.host s).conn.handleSegment 0 p.seg) with
      received := (x.host s).received ++ [p.seg] }, ?_, ?_⟩
    · have hhung : ((x.host s).conn.handleSegment 0 p.seg).hung = false := hsame.hung.trans (h.opened s).2
      unfold Host.next Host.apply Host.finish
      simp only [hhung, Bool.false_eq_true, if_false]
    · exact { hsame with }
  have hanswer : (x.host s).answer d = (x.host s).conn.outgoing ++
      [⟨(x.host s).conn.ackSegment 0 (x.host s).conn.sendBuf.nxt flagACK [],
        (x.host s).conn.sendBuf.pos (x.host s).conn.sendBuf.nxt, (x.host s).conn.freeSpace⟩] := by
    rw [Host.answer_segment hn, hout]
  have hwnd : d.conn.acceptWnd = (x.host s).conn.acceptWnd := by
    unfold Conn.acceptWnd
    rw [hd.cap]
  -- the other end is next
  let y : Exchange σ :=
    { host := fun r => if r = s then d else x.host r
      flight := fun r => if r = s then (x.flight s).erase p else x.flight r ++ (x.host s).answer d }
  have hys : y.host s = d := if_pos rfl
  have hyo : y.host s.other = x.host s.other := if_neg (Side.other_ne s)
  have hfs : y.flight s = (x.flight s).erase p := if_pos rfl
  have hfo : y.flight s.other = x.flight s.other ++ (x.host s).answer d := if_neg (Side.other_ne s)
  have hboth : ∀ Q : Host σ → Prop, Q d → Q (x.host s.other) → ∀ r, Q (y.host r) := by
    intro Q h₁ h₂ r
    rcases Side.eq_or_eq_other s r with rfl | rfl
    · rw [hys]
      exact h₁
    · rw [hyo]
      exact h₂
  have hdel : Delivers x y s p :=
    ⟨hp, h.reached s, ⟨0, by rw [hys]; exact hn⟩, hfs, by rw [hfo, hys], hyo⟩
  refine ⟨y, s, ⟨p, hdel, by rw [h.state s]; rfl, hseg⟩, ?_⟩
  have hreach : (Host.system σ).Reach anyStep d := (h.reached s).step (l := .segment 0 p.seg) trivial hn
  refine ⟨hboth _ hreach (h.reached _), hboth (fun g => g.conn.state = .timeWait) ?_ (h.state _),
    hboth (fun g => g.conn.opened = true ∧ g.conn.hung = false) ?_ (h.opened _),
    hboth (fun g => g.conn.tsOK = false) ?_ (h.tsOK _), hboth (fun g => g.conn.acceptWnd.toNat ≤ 2 ^ 31) ?_ (h.wnd _),
    ?_, hboth (fun g => seqBeforeEq g.conn.sendBuf.una g.conn.sendBuf.nxt = true) ?_ (h.una _), ?_⟩
  · exact hd.state.trans (h.state s)
  · rw [hd.opened, hd.hung]
    exact h.opened s
  · exact hd.tsOK.trans (h.tsOK s)
  · rw [hwnd]
    exact h.wnd s
  · intro r
    rcases Side.eq_or_eq_other s r with rfl | rfl
    · rw [hys, hyo, hd.sendBuf]
      exact h.nxt r
    · rw [Side.other_other, hys, hyo, hd.recvBuf]
      have hother := h.nxt s.other
      rwa [Side.other_other] at hother
  · rw [hd.sendBuf]
    exact h.una s
  · have hlast : (x.host s.other).conn.inSequenceACK
        ((x.host s).conn.ackSegment 0 (x.host s).conn.sendBuf.nxt flagACK []) = true := by
      have hother := h.nxt s.other
      rw [Side.other_other] at hother
      exact Conn.inSequenceACK_ackSegment (h.nxt s) hother (h.una s.other) (h.tsOK s.other)
    refine ⟨s.other, ⟨(x.host s).conn.ackSegment 0 (x.host s).conn.sendBuf.nxt flagACK [],
      (x.host s).conn.sendBuf.pos (x.host s).conn.sendBuf.nxt, (x.host s).conn.freeSpace⟩, ?_, by rw [hyo]; exact hlast⟩
    rw [hfo, hanswer]
    exact List.mem_append_right _ (List.mem_append_right _ (List.mem_singleton.2 rfl))

theorem Storming.forever {x : Exchange σ} (h : x.Storming) :
    ∃ f : Nat → Exchange σ, f 0 = x ∧ ∀ k, ∃ s, DeliversACK (f k) (f (k + 1)) s := by
  choose next s hstep using fun x : { x : Exchange σ // x.Storming } => x.2.step
  let g : Nat → { x : Exchange σ // x.Storming } := fun k => (fun x => ⟨next x, (hstep x).2⟩)^[k] ⟨x, h⟩
  refine ⟨fun k => (g k).1, rfl, fun k => ⟨s (g k), ?_⟩⟩
  have hsucc : (g (k + 1)).1 = next (g k) := by
    simp only [g, Function.iterate_succ_apply']
  show DeliversACK (g k).1 (g (k + 1)).1 (s (g k))
  rw [hsucc]
  exact (hstep (g k)).1

end Exchange

/-- Both ends close at once: the FINs cross, and then the ACKs of the FINs. -/
def simultaneousClose : List Network.Action :=
  let syn : Segment :=
    { srcPort := 0, dstPort := 0, seq := 100, flags := flagSYN, window := 65535
      options := [mssOption 1460, wscaleOption 5] }
  let ack (seq ack : BitVec 32) (flags : BitVec 8) : Segment :=
    { srcPort := 0, dstPort := 0, seq := seq, ack := ack, flags := flags, window := 32768 }
  [.call .left (.connect 0 100), .accept .right 0 700 ⟨syn, 0, 1048576⟩,
    .deliver .left 0 ⟨{ ack 700 101 (flagSYN ||| flagACK) with options := [mssOption 1460, wscaleOption 5] }, 0, 1048576⟩,
    .deliver .right 0 ⟨ack 101 701 flagACK, 1, 1048576⟩, .call .left (.close 0), .call .right (.close 0),
    .deliver .right 0 ⟨ack 101 701 (flagFIN ||| flagACK), 1, 1048576⟩,
    .deliver .left 0 ⟨ack 701 101 (flagFIN ||| flagACK), 1, 1048576⟩,
    .deliver .right 0 ⟨ack 102 702 flagACK, 2, 1048576⟩, .deliver .left 0 ⟨ack 702 102 flagACK, 2, 1048576⟩]

/-- After a simultaneous close the two ends answer each other's ACKs forever. -/
theorem timeWait_ack_storm :
    ∃ n : Network SmallController, (Network.system SmallController fun _ => {}).Reach anyStep n ∧
      (∀ s, (n.conn s).state = .timeWait) ∧
      ∃ f : Nat → Exchange SmallController, (f 0).host = n.host ∧ (∀ s, ∀ p ∈ (f 0).flight s, p ∈ (n.host s.other).sent) ∧
        ∀ k, ∃ s, Exchange.DeliversACK (f k) (f (k + 1)) s := by
  have hr : (Network.system SmallController fun _ => {}).Reach anyStep
      ((Network.fresh (fun _ => {}) 0).run simultaneousClose) :=
    Network.run_reach (by decide +kernel) (execMeets_anyStep _ _ _)
  refine ⟨_, hr, fun s => by cases s <;> decide +kernel, ?_⟩
  have hstorm : Exchange.Storming
      { host := ((Network.fresh (fun _ => {}) 0 : Network SmallController).run simultaneousClose).host
        flight := fun s => (((Network.fresh (fun _ => {}) 0 : Network SmallController).run
          simultaneousClose).host s.other).sent } := by
    refine ⟨fun s => Network.reach_host hr s fun _ _ _ _ => trivial, ?_, ?_, ?_, ?_, ?_, ?_, .left, ?_⟩
    · intro s; cases s <;> decide +kernel
    · intro s; cases s <;> decide +kernel
    · intro s; cases s <;> decide +kernel
    · intro s; cases s <;> decide +kernel
    · intro s; cases s <;> decide +kernel
    · intro s; cases s <;> decide +kernel
    · decide +kernel
  obtain ⟨f, hf, hsteps⟩ := hstorm.forever
  refine ⟨f, by rw [hf], ?_, hsteps⟩
  intro s p hp
  rw [hf] at hp
  exact hp

end Libp2px.Vtcp
