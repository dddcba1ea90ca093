import Libp2px.Vtcp.Upkeep

/-!
# Duplicate acknowledgments

`processACK` takes every acknowledgment that does not advance `SND.UNA` for a duplicate.  It does not ask whether the
segment carries data or a FIN, whether it changes the window, or whether anything is outstanding.  So the controller
counts exactly the segments whose acknowledgment is processed and is not new, and three data segments of a peer that has
nothing to acknowledge put this side into fast recovery.
-/

namespace Libp2px.Vtcp

open Transition

variable {H : HSMath}

namespace Controller

/-- What duplicate acknowledgments drive: the window, the threshold, the duplicates counted and the recovery flag. -/
def lossState (cc : Controller H) : BitVec 32 × BitVec 32 × Nat × Bool :=
  (cc.base.cwnd, cc.base.ssthresh, cc.base.dupAckCnt, cc.base.recovery)

theorem dupAckCnt_onDupACK (cc : Controller H) :
    (Call.apply cc .onDupACK).base.dupAckCnt = cc.base.dupAckCnt + 1 := by
  have hreno : ∀ nr : NewReno, nr.onDupACK.1.dupAckCnt = nr.dupAckCnt + 1 := by
    intro nr
    unfold NewReno.onDupACK
    simp only
    split
    · rfl
    · split <;> rfl
  cases cc with
  | newReno nr => exact hreno nr
  | highSpeed hs => exact hreno hs.toNewReno

theorem dupAckCnt_onFastRetransmit (cc : Controller H) (flight nxt : BitVec 32) :
    (Call.apply cc (.onFastRetransmit flight nxt)).base.dupAckCnt = cc.base.dupAckCnt := by
  cases cc <;> rfl

theorem recovery_apply {cc : Controller H} (hcc : cc.base.recovery = false) {call : Call}
    (hcall : ∀ flight nxt, call ≠ .onFastRetransmit flight nxt) : (Call.apply cc call).base.recovery = false := by
  have hack : ∀ (inc : BitVec 32) (nr : NewReno) (n : BitVec 32), (nr.onACKWith inc n).recovery = nr.recovery := by
    intro inc nr n
    unfold NewReno.onACKWith
    split <;> rfl
  have hdup : ∀ nr : NewReno, nr.onDupACK.1.recovery = nr.recovery := by
    intro nr
    unfold NewReno.onDupACK
    simp only
    split
    · rfl
    · split <;> rfl
  cases call with
  | onACK n =>
    cases cc with
    | newReno nr => exact (hack _ nr n).trans hcc
    | highSpeed hs => exact (hack _ hs.toNewReno n).trans hcc
  | onDupACK =>
    cases cc with
    | newReno nr => exact (hdup nr).trans hcc
    | highSpeed hs => exact (hdup hs.toNewReno).trans hcc
  | onFastRetransmit flight nxt => exact absurd rfl (hcall flight nxt)
  | exitRecovery => cases cc <;> rfl
  | onTimeout => cases cc <;> rfl

theorem recovery_new (name : CCName) (mss : BitVec 32) :
    (CongestionController.new name mss : Controller H).base.recovery = false := by
  cases name <;> rfl

end Controller

namespace Conn

/-- Whether `HandleSegment` counts the segment as a duplicate acknowledgment. -/
def countsDuplicate {σ : Type} (seg : Segment) (c : Conn σ) : Bool :=
  c.takesACK seg && (decide (c.state = .synReceived) || !seqAfter seg.ack c.sendBuf.una)

section

variable {σ : Type} [CongestionController σ]

theorem una_handleSegment (now : Int) {seg : Segment} {c : Conn σ} (hs : Core.acksData c.state = true)
    (ht : c.takesACK seg = true) (hlo : seqAfter seg.ack c.sendBuf.una = true)
    (hhi : seqAfter seg.ack c.sendBuf.nxt = false) : (c.handleSegment now seg).sendBuf.una = seg.ack := by
  have hack := (Passes.of_takesACK ht).ack
  have hnew : (c.sendBuf.acknowledge seg.ack).1.una = seg.ack := by
    unfold SendBuf.acknowledge
    rw [hlo, hhi]
    rfl
  obtain ⟨ts, d, htaken, heq⟩ := handleSegment_taken now hs ht
  have huna := una_processNewACK now seg.ack seg.options { c.touch now with tsRecent := ts }
  have hd : d.sendBuf.una = seg.ack := by
    rw [htaken.frame, processSegACK_of_ack now hack,
      processACK_new (c := { c.touch now with tsRecent := ts }) now _ hlo hhi]
    exact huna.trans hnew
  rcases heq with heq | heq <;> rw [heq] <;> exact hd

theorem segCalls_cases {seg : Segment} {c : Conn σ} (hs : Core.acksData c.state = true) :
    (c.countsDuplicate seg = true ∧ ∃ more, c.segCalls seg = .onDupACK :: more ∧
        ∀ call ∈ more, ∃ flight nxt, call = .onFastRetransmit flight nxt) ∨
      (c.countsDuplicate seg = false ∧ c.segCalls seg = []) ∨
      (c.countsDuplicate seg = false ∧ c.takesACK seg = true ∧ seqAfter seg.ack c.sendBuf.una = true ∧
        seqAfter seg.ack c.sendBuf.nxt = false) := by
  have hst : ¬c.state = .synReceived := by
    intro h
    rw [h] at hs
    cases hs
  unfold countsDuplicate segCalls
  rw [decide_eq_false hst, if_neg hst, Bool.false_or]
  cases ht : c.takesACK seg with
  | false => exact .inr (.inl ⟨rfl, rfl⟩)
  | true =>
    unfold ackCalls
    cases hlo : seqAfter seg.ack c.sendBuf.una with
    | false =>
      refine .inl ⟨rfl, _, rfl, ?_⟩
      intro call hmem
      split at hmem
      · exact ⟨_, _, List.mem_singleton.1 hmem⟩
      · cases hmem
    | true =>
      cases hhi : seqAfter seg.ack c.sendBuf.nxt with
      | true => exact .inr (.inl ⟨rfl, rfl⟩)
      | false => exact .inr (.inr ⟨rfl, rfl, rfl, rfl⟩)

end

end Conn

namespace Host

open Conn

variable {h h' : Host (Controller H)}

theorem lossState_segment_iff {now : Int} {seg : Segment} (hs : Core.acksData h.conn.state = true)
    (hn : h.next (.segment now seg) = some h') (huna : h'.conn.sendBuf.una = h.conn.sendBuf.una) :
    h'.conn.cc.lossState = h.conn.cc.lossState ↔ h.conn.countsDuplicate seg = false := by
  have hcc : h'.conn.cc = (h.conn.segCalls seg).foldl Call.apply (h.conn.segController seg) := (next_upkeep hn).cc
  have hfor : h.conn.segController seg = h.conn.cc := by
    have hst : ¬h.conn.state = .synSent := by
      intro hst
      rw [hst] at hs
      cases hs
    unfold segController takesSYN
    rw [decide_eq_false hst]
    rfl
  rw [hfor] at hcc
  rcases segCalls_cases hs with ⟨hdup, more, hcalls, hmore⟩ | ⟨hdup, hcalls⟩ | ⟨-, ht, hlo, hhi⟩
  · -- the count goes up, and a fast retransmit keeps it
    have hcount : h'.conn.cc.base.dupAckCnt = h.conn.cc.base.dupAckCnt + 1 := by
      rw [hcc, hcalls, List.foldl_cons]
      refine List.foldlRecOn (motive := fun cc : Controller H => cc.base.dupAckCnt = h.conn.cc.base.dupAckCnt + 1)
        more Call.apply (Controller.dupAckCnt_onDupACK h.conn.cc) ?_
      intro cc hcnt call hmem
      obtain ⟨flight, nxt, rfl⟩ := hmore call hmem
      rw [Controller.dupAckCnt_onFastRetransmit, hcnt]
    apply iff_of_false
    · intro hsame
      have hcnt : h'.conn.cc.base.dupAckCnt = h.conn.cc.base.dupAckCnt := congrArg (·.2.2.1) hsame
      omega
    · rw [hdup]
      exact Bool.noConfusion
  · apply iff_of_true
    · rw [hcc, hcalls]
      rfl
    · exact hdup
  · exfalso
    have hnew : h'.conn.sendBuf.una = seg.ack := by
      rw [conn_segment hn]
      exact una_handleSegment now hs ht hlo hhi
    rw [← huna, hnew] at hlo
    simp [seqAfter] at hlo

theorem recovery_next {e : Event} (hn : h.next e = some h')
    (he : ∀ now seg, e = .segment now seg → h.conn.countsDuplicate seg = false)
    (hrec : h.conn.cc.base.recovery = false) : h'.conn.cc.base.recovery = false := by
  have hcalls : ∀ call ∈ h.conn.calls e, ∀ flight nxt, call ≠ .onFastRetransmit flight nxt := by
    intro call hmem flight nxt heq
    rw [heq] at hmem
    cases e with
    | segment now seg =>
      have hdup := he now seg rfl
      have hmem' : Call.onFastRetransmit flight nxt ∈ h.conn.segCalls seg := hmem
      unfold segCalls at hmem'
      unfold countsDuplicate at hdup
      split at hmem'
      · rename_i ht
        rw [ht, Bool.true_and, Bool.or_eq_false_iff] at hdup
        rw [if_neg (of_decide_eq_false hdup.1)] at hmem'
        unfold ackCalls at hmem'
        rw [hdup.2] at hmem'
        simp only [Bool.false_eq_true, if_false] at hmem'
        split at hmem'
        · cases hmem'
        · split at hmem' <;> simp at hmem'
      · cases hmem'
    | rto now =>
      have hmem' : Call.onFastRetransmit flight nxt ∈ if h.conn.resends then [Call.onTimeout] else [] := hmem
      split at hmem' <;> simp at hmem'
    | _ => cases hmem
  have hfor : (h.conn.controllerFor e).base.recovery = false := by
    cases e with
    | segment now seg =>
      show (h.conn.segController seg).base.recovery = false
      unfold segController
      split
      · exact Controller.recovery_new _ _
      · exact hrec
    | _ => exact hrec
  rw [(next_upkeep hn).cc]
  refine List.foldlRecOn (motive := fun cc : Controller H => cc.base.recovery = false) (h.conn.calls e) Call.apply hfor ?_
  intro cc hcc call hmem
  exact Controller.recovery_apply hcc (hcalls call hmem)

/-- A segment that does not advance `SND.UNA` leaves the window, the threshold, the duplicate count and the recovery
flag as they were exactly when it is not counted as a duplicate. A run that counts none never enters fast recovery. -/
theorem only_duplicates_count_iff (hs : Core.acksData h.conn.state = true) :
    (∀ (now : Int) (seg : Segment) (h' : Host (Controller H)), h.next (.segment now seg) = some h' →
      h'.conn.sendBuf.una = h.conn.sendBuf.una →
      (h'.conn.cc.lossState = h.conn.cc.lossState ↔
        ¬(h.conn.takesACK seg = true ∧ seqAfter seg.ack h.conn.sendBuf.una = false))) ∧
    ∀ h', (system (Controller H)).Steps
        (fun g e => ∀ now seg, e = .segment now seg → g.conn.countsDuplicate seg = false) h h' →
      h.conn.cc.base.recovery = false → h'.conn.cc.base.recovery = false := by
  constructor
  · intro now seg h' hn huna
    have hst : ¬h.conn.state = .synReceived := by
      intro hst
      rw [hst] at hs
      cases hs
    rw [lossState_segment_iff hs hn huna, countsDuplicate, decide_eq_false hst]
    cases h.conn.takesACK seg <;> cases seqAfter seg.ack h.conn.sendBuf.una <;> simp
  · intro h' hrun hrec
    refine hrun.induction (I := fun g => g.conn.cc.base.recovery = false) hrec ?_
    intro g e g' hg he hn
    exact recovery_next hn he hg

end Host

/-- A byte of data from a peer that has nothing to acknowledge. -/
def peerByte (seq : BitVec 32) (b : Byte) : Event :=
  .segment 0 { srcPort := 0, dstPort := 0, seq := seq, ack := 101, flags := flagACK, window := 1000, payload := [b] }

/-- A byte beyond the receive window is not processed, so it is not counted. -/
theorem only_duplicates_count_beyondWindow :
    ∃ h h' : Host SmallController, h.conn.state = .established ∧ h.next (peerByte 4000000000 1) = some h' ∧
      h'.conn.cc.lossState = h.conn.cc.lossState := by
  have hn : ((Host.fresh {} 0).run opening : Host SmallController).next (peerByte 4000000000 1) = some _ :=
    Host.next_run (by decide +kernel)
  have hiff := (Host.only_duplicates_count_iff (by decide +kernel)).1 _ _ _ hn (by decide +kernel)
  exact ⟨_, _, by decide +kernel, hn, hiff.2 (by decide +kernel)⟩

/-- The peer sends three bytes while nothing is outstanding on this side, and this side enters fast recovery with half
its window. -/
theorem data_enters_recovery :
    ∃ h h' : Host SmallController, (Host.system SmallController).Reach anyStep h ∧ h.conn.state = .established ∧
      h.conn.sendBuf.una = h.conn.sendBuf.nxt ∧ h.conn.cc.lossState = (14600, BitVec.allOnes 32, 0, false) ∧
      h' = h.run [peerByte 701 1, peerByte 702 2, peerByte 703 3] ∧ h'.conn.cc.lossState = (11680, 7300, 3, true) := by
  refine ⟨(Host.fresh {} 0).run opening,
    ((Host.fresh {} 0).run opening).run [peerByte 701 1, peerByte 702 2, peerByte 703 3], ?_, ?_, ?_, ?_, rfl, ?_⟩
  · exact Host.run_reach (by decide +kernel) (execMeets_anyStep _ _ _)
  · decide +kernel
  · decide +kernel
  · decide +kernel
  · decide +kernel

end Libp2px.Vtcp
