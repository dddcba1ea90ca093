import Libp2px.Vtcp.Retransmit

/-!
# The delivery of one segment

What one call of `HandleSegment` does in a synchronized state.  The checks before the dispatch leave a connection that
rejects the segment as it is, up to the record of the arrival, and answer with one ACK or not at all.  A segment that
passes them goes through three parts (`handleSegment_takesACK`, `handleDataState_eq`): its acknowledgment and window,
its data and FIN, and the ACK.  An acknowledgment of data that was never sent ends only the first of them.
-/

namespace Libp2px.Vtcp

open Transition

set_option linter.unusedSectionVars false

variable {σ : Type} [CongestionController σ]

open CongestionController

namespace Host

def answer (h h' : Host σ) : List Packet := h'.sent.drop h.sent.length

theorem answer_segment {h h' : Host σ} {now : Int} {seg : Segment} (hn : h.next (.segment now seg) = some h') :
    h.answer h' = (h.conn.handleSegment now seg).outgoing := by
  rw [answer, ← Option.some.inj (apply_of_next hn).1]
  exact List.drop_left

theorem conn_segment {h h' : Host σ} {now : Int} {seg : Segment} (hn : h.next (.segment now seg) = some h') :
    h'.conn = { h.conn.handleSegment now seg with outgoing := [] } := by
  rw [← Option.some.inj (apply_of_next hn).1]
  rfl

theorem next_segment {h : Host σ} {now : Int} {seg : Segment} (hh : (h.conn.handleSegment now seg).hung = false) :
    ∃ h', h.next (.segment now seg) = some h' := by
  unfold next apply
  simp only [finish, hh, Bool.false_eq_true, if_false]
  exact ⟨_, rfl⟩

theorem opened_of_synchronized {P : Host σ → Event → Prop} {h : Host σ} (hr : (system σ).Reach P h)
    (hs : h.conn.state.synchronized = true) : h.conn.opened = true := by
  by_contra ho
  have hcl : h.conn.state = .closed := (send_inv hr).1.unopened (Bool.eq_false_of_not_eq_true ho)
  rw [hcl] at hs
  cases hs

end Host

/-! ### Rejected segments -/

namespace Conn

/-- The segments that `handleSynchronized` turns away: not acceptable, a reset with another number than the next
expected one, an unexpected SYN, or neither RST nor ACK. -/
def rejects (seg : Segment) (c : Conn σ) : Bool :=
  (!c.segmentAcceptable seg && !c.synRcvdOK seg) || (seg.hasFlag flagRST && decide (seg.seq ≠ c.recvBuf.nxt)) ||
    (seg.hasFlag flagSYN && !seg.hasFlag flagRST && decide (c.state ≠ .synReceived)) ||
    (!seg.hasFlag flagRST && !seg.hasFlag flagACK)

theorem handleSynchronized_rejects (now : Int) {seg : Segment} {c : Conn σ} (ho : c.opened = true)
    (hrej : c.rejects seg = true) :
    handleSynchronized now seg c = c ∨ handleSynchronized now seg c = queueACK now c := by
  unfold handleSynchronized
  by_cases hacc : (!c.segmentAcceptable seg) = true ∧ (!c.synRcvdOK seg) = true
  · rw [if_pos hacc]
    split
    · exact .inl rfl
    · exact .inr rfl
  rw [if_neg hacc]
  by_cases hrst : seg.hasFlag flagRST = true
  · -- only a reset with another number than the next expected one is left
    have hseq : seg.seq ≠ c.recvBuf.nxt := by
      simp only [rejects, hrst, Bool.or_eq_true, Bool.and_eq_true, Bool.not_true, Bool.and_false, Bool.false_and,
        Bool.false_eq_true, or_false, Bool.true_and, decide_eq_true_eq] at hrej
      rcases hrej with hrej | hrej
      · exact absurd hrej hacc
      · exact hrej
    rw [if_pos hrst, validateRST]
    simp only [ho, hseq, Bool.not_true, Bool.false_eq_true, if_false]
    by_cases hwin : seqInRange seg.seq c.recvBuf.nxt (c.recvBuf.nxt + c.recvBuf.window) = true
    · rw [if_pos hwin]
      exact .inr rfl
    · rw [if_neg hwin]
      exact .inl rfl
  · rw [if_neg hrst]
    by_cases hsyn : seg.hasFlag flagSYN = true ∧ c.state ≠ .synReceived
    · rw [if_pos hsyn]
      exact .inr rfl
    · rw [if_neg hsyn]
      by_cases hack : seg.hasFlag flagACK = true
      · exfalso
        simp only [rejects, hrst, hack, Bool.or_eq_true, Bool.and_eq_true, Bool.not_true, Bool.and_false, Bool.false_and,
          Bool.false_eq_true, or_false, decide_eq_true_eq, Bool.not_false, and_true] at hrej
        rcases hrej with hrej | hrej
        · exact hacc hrej
        · exact hsyn hrej
      · rw [if_pos (by simpa using hack)]
        exact .inl rfl

end Conn

namespace Host

/-- A rejected segment leaves the connection as it is, up to the record of its arrival, and is answered by at most one
segment: an ACK without payload of the current numbers. -/
theorem rejected_untouched {h : Host σ} (hr : (system σ).Reach anyStep h) (hs : h.conn.state.synchronized = true)
    (seg : Segment) (hrej : h.conn.rejects seg = true) (now : Int) :
    ∃ h', h.next (.segment now seg) = some h' ∧ h'.conn = h.conn.touch now ∧
      (h.answer h' = [] ∨ ∃ p, h.answer h' = [p] ∧ p.seg.flags = flagACK ∧ p.seg.payload = [] ∧
        p.seg.seq = h.conn.sendBuf.nxt ∧ p.seg.ack = h.conn.recvBuf.nxt) := by
  have hout : h.conn.outgoing = [] := outgoing_eq_nil hr
  have hclear : ({ h.conn.touch now with outgoing := [] } : Conn σ) = h.conn.touch now := by
    rw [← hout]
    rfl
  have hhandle : h.conn.handleSegment now seg = _ := Conn.handleSegment_synchronized hs
  have hcases := Conn.handleSynchronized_rejects (c := h.conn.touch now) now (opened_of_synchronized hr hs) hrej
  rw [← hhandle] at hcases
  have hhung : (h.conn.handleSegment now seg).hung = false := by
    rcases hcases with hc | hc <;> rw [hc] <;> exact not_hung hr
  obtain ⟨h', hn⟩ := next_segment hhung
  refine ⟨h', hn, ?_, ?_⟩
  · rw [conn_segment hn]
    rcases hcases with hc | hc
    · rw [hc, hclear]
    · rw [hc]
      exact hclear
  · rw [answer_segment hn]
    rcases hcases with hc | hc
    · left
      rw [hc]
      exact hout
    · right
      rw [hc]
      refine ⟨_, congrArg (· ++ [_]) hout, rfl, rfl, rfl, rfl⟩

/-- A reset that is off by one arrives at an established connection. -/
theorem rejected_untouched_blindReset :
    ∃ h h' : Host SmallController, h.conn.state = .established ∧ h'.conn.state = .established ∧
      h.next (.segment 0 { srcPort := 0, dstPort := 0, seq := 702, flags := flagRST }) = some h' := by
  have hr : (system SmallController).Reach anyStep ((fresh {} 0).run opening) :=
    run_reach (by decide +kernel) (execMeets_anyStep _ _ _)
  obtain ⟨h', hn, hconn, -⟩ := rejected_untouched hr (by decide +kernel)
    { srcPort := 0, dstPort := 0, seq := 702, flags := flagRST } (by decide +kernel) 0
  refine ⟨_, h', ?_, ?_, hn⟩
  · decide +kernel
  · rw [hconn]
    decide +kernel

end Host

/-! ### Segments whose acknowledgment is processed -/

namespace Conn

structure SameSending (c d : Conn σ) : Prop where
  sendBuf : d.sendBuf = c.sendBuf
  sndWnd : d.sndWnd = c.sndWnd
  outgoing : d.outgoing = c.outgoing
  hung : d.hung = c.hung

theorem sameSending_dataAndFIN (seg : Segment) (c : Conn σ) : SameSending c (dataAndFIN seg c) := by
  rw [(taken_dataAndFIN seg c).frame]
  exact ⟨rfl, rfl, rfl, rfl⟩

variable {seg : Segment} {c : Conn σ}

/-! ### Acknowledgments of data that was never sent -/

structure SameProtocol (c d : Conn σ) : Prop where
  state : d.state = c.state
  sndWnd : d.sndWnd = c.sndWnd
  sendBuf : d.sendBuf = c.sendBuf
  recvBuf : d.recvBuf = c.recvBuf
  fin : d.finPending = c.finPending ∧ d.pendingFinSeq = c.pendingFinSeq

/-- A duplicate acknowledgment that brings nothing new: no fast retransmit, no change of the scoreboard, no new
payload, and a FIN only if the same one is pending. -/
def bringsNothing (seg : Segment) (c : Conn σ) : Prop :=
  c.state ≠ .closeWait ∧ (seg.payload ≠ [] ∨ seg.hasFlag flagFIN = true) ∧
    ((onDupACK c.cc).2 = true → c.sendBuf.retransmitData c.mss = some []) ∧
    (c.sackOK = true → c.sendBuf.markSACKed (getSACKBlocks seg.options) = c.sendBuf) ∧
    (seg.payload ≠ [] → (c.recvBuf.insert seg.seq seg.payload).1 = c.recvBuf ∧
      ¬(c.finPending = true ∧ c.pendingFinSeq = c.recvBuf.nxt)) ∧
    (seg.hasFlag flagFIN = true → c.finPending = true ∧ c.pendingFinSeq = seg.seq + seg.dataLen ∧
      c.pendingFinSeq ≠ c.recvBuf.nxt)

/-- The segments that acknowledge data never sent without effect: the window is the known one and there is no payload
or FIN (CLOSE-WAIT ignores it); or they count as duplicates and bring nothing new. -/
def dropsUnsent (seg : Segment) (c : Conn σ) : Prop :=
  c.scaledWindow seg = c.sndWnd ∧
    if seqAfter seg.ack c.sendBuf.una then c.state = .closeWait ∨ seg.payload = [] ∧ seg.hasFlag flagFIN = false
    else c.bringsNothing seg

theorem processData_unready
    (hr : ¬(c.finPending = true ∧ c.pendingFinSeq = (c.recvBuf.insert seg.seq seg.payload).1.nxt)) :
    ∃ n, processData seg c = { c with recvBuf := (c.recvBuf.insert seg.seq seg.payload).1, recvCond := n } := by
  have hready : (c.finPending && decide (c.pendingFinSeq = (c.recvBuf.insert seg.seq seg.payload).1.nxt)) = false := by
    rw [Bool.and_eq_false_iff]
    by_cases hp : c.finPending = true
    · exact .inr (decide_eq_false fun hq => hr ⟨hp, hq⟩)
    · exact .inl (by simpa using hp)
  unfold processData
  simp only [hready, Bool.false_eq_true, if_false]
  split
  · exact ⟨_, rfl⟩
  · exact ⟨c.recvCond, rfl⟩

theorem recvBuf_processData_ready
    (hr : c.finPending = true ∧ c.pendingFinSeq = (c.recvBuf.insert seg.seq seg.payload).1.nxt) :
    (processData seg c).recvBuf = (c.recvBuf.insert seg.seq seg.payload).1.consumeFIN := by
  unfold processData
  simp only [hr.1, hr.2, Bool.true_and, decide_true, if_true]
  split <;> exact recvBuf_processFINStateTransition _

theorem fins_processFIN_le (seg : Segment) (c : Conn σ) : c.recvBuf.fins ≤ (processFIN seg c).recvBuf.fins := by
  unfold processFIN
  simp only
  split
  · rw [recvBuf_processFINStateTransition]
    exact Nat.le_succ _
  · exact le_rfl

theorem dataAndFIN_same_iff (hack : seg.ack ≠ c.sendBuf.nxt) :
    ((dataAndFIN seg c).state = c.state ∧ (dataAndFIN seg c).recvBuf = c.recvBuf ∧
        (dataAndFIN seg c).finPending = c.finPending ∧ (dataAndFIN seg c).pendingFinSeq = c.pendingFinSeq) ↔
      (seg.payload ≠ [] → (c.recvBuf.insert seg.seq seg.payload).1 = c.recvBuf ∧
        ¬(c.finPending = true ∧ c.pendingFinSeq = c.recvBuf.nxt)) ∧
      (seg.hasFlag flagFIN = true → c.finPending = true ∧ c.pendingFinSeq = seg.seq + seg.dataLen ∧
        c.pendingFinSeq ≠ c.recvBuf.nxt) := by
  have hfins := (RecvBuf.insert_extends c.recvBuf seg.seq seg.payload).fins
  -- the FIN of a segment, after its payload has left the buffer `r`
  have hfin : ∀ d : Conn σ, d.state = c.state → d.finPending = c.finPending → d.pendingFinSeq = c.pendingFinSeq →
      d.recvBuf.fins = c.recvBuf.fins →
      ((processFIN seg d).state = c.state ∧ (processFIN seg d).recvBuf = c.recvBuf ∧
        (processFIN seg d).finPending = c.finPending ∧ (processFIN seg d).pendingFinSeq = c.pendingFinSeq ↔
      d.recvBuf = c.recvBuf ∧ c.finPending = true ∧ c.pendingFinSeq = seg.seq + seg.dataLen ∧
        c.pendingFinSeq ≠ c.recvBuf.nxt) := by
    intro d hst hfp hps hf
    unfold processFIN
    simp only
    by_cases hq : seg.seq + seg.dataLen = d.recvBuf.nxt
    · rw [if_pos hq]
      constructor
      · rintro ⟨-, hrb, -, -⟩
        rw [recvBuf_processFINStateTransition] at hrb
        have hcount : d.recvBuf.fins + 1 = c.recvBuf.fins := congrArg RecvBuf.fins hrb
        omega
      · rintro ⟨hrb, -, h2, h3⟩
        rw [hrb] at hq
        exact absurd (h2.trans hq) h3
    · rw [if_neg hq]
      constructor
      · rintro ⟨-, hrb, h1, h2⟩
        have hrb' : d.recvBuf = c.recvBuf := hrb
        have h2' : seg.seq + seg.dataLen = c.pendingFinSeq := h2
        refine ⟨hrb', h1.symm, h2'.symm, ?_⟩
        rw [← h2', ← hrb']
        exact hq
      · rintro ⟨hrb, h1, h2, -⟩
        exact ⟨hst, hrb, h1.symm, h2.symm⟩
  -- a segment without FIN
  have hnofin : ∀ d : Conn σ, seg.ack ≠ d.sendBuf.nxt →
      (if d.state = .finWait1 ∧ seg.hasFlag flagACK ∧ seg.ack = d.sendBuf.nxt then d.setState .finWait2 else d) = d := by
    intro d hne
    rw [if_neg fun h => hne h.2.2]
  unfold dataAndFIN
  by_cases hp : seg.payload = []
  · simp only [hp, ne_eq, not_true_eq_false, if_false, false_implies, true_and]
    by_cases hf : seg.hasFlag flagFIN = true
    · simp only [hf, if_true, true_implies]
      rw [hfin c rfl rfl rfl rfl]
      exact ⟨fun h => h.2, fun h => ⟨rfl, h⟩⟩
    · simp only [hf, Bool.false_eq_true, if_false, hnofin c hack, false_implies, and_self]
  · simp only [hp, ne_eq, not_false_eq_true, if_true, true_implies]
    by_cases hr : c.finPending = true ∧ c.pendingFinSeq = (c.recvBuf.insert seg.seq seg.payload).1.nxt
    · -- the deferred FIN is consumed, so the buffer changes
      have hbuf := recvBuf_processData_ready hr
      have hsend : (processData seg c).sendBuf = c.sendBuf := by
        rw [(taken_processData seg c).frame]
      generalize processData seg c = d at hbuf hsend
      have hcount : d.recvBuf.fins = c.recvBuf.fins + 1 := by
        rw [hbuf]
        exact congrArg (· + 1) hfins
      constructor
      · rintro ⟨-, hrb, -⟩
        split at hrb
        · have := fins_processFIN_le seg d
          rw [hrb] at this
          omega
        · rw [hnofin d (by rw [hsend]; exact hack)] at hrb
          rw [hrb] at hcount
          omega
      · rintro ⟨⟨hrb, hno⟩, -⟩
        rw [hrb] at hr
        exact absurd hr hno
    · obtain ⟨n, hdata⟩ := processData_unready hr
      rw [hdata]
      have hno : (c.recvBuf.insert seg.seq seg.payload).1 = c.recvBuf →
          ¬(c.finPending = true ∧ c.pendingFinSeq = c.recvBuf.nxt) := by
        intro hrb
        rw [hrb] at hr
        exact hr
      by_cases hf : seg.hasFlag flagFIN = true
      · simp only [hf, if_true, true_implies]
        rw [hfin { c with recvBuf := (c.recvBuf.insert seg.seq seg.payload).1, recvCond := n } rfl rfl rfl hfins]
        exact ⟨fun h => ⟨⟨h.1, hno h.1⟩, h.2⟩, fun h => ⟨h.1.1, h.2⟩⟩
      · simp only [hf, Bool.false_eq_true, if_false, false_implies, and_true]
        rw [hnofin { c with recvBuf := (c.recvBuf.insert seg.seq seg.payload).1, recvCond := n } hack]
        exact ⟨fun h => ⟨h.2.1, hno h.2.1⟩, fun h => ⟨rfl, h.1, rfl, rfl⟩⟩

theorem retransmit_eq (now : Int) (hh : c.hung = false) :
    ∃ out rto t hung, retransmit now c =
        { c with outgoing := c.outgoing ++ out, rto := rto, rtoTimer := t, hung := hung } ∧
      (∀ p ∈ out, p.seg.payload ≠ [] ∧ p.pos + p.seg.payload.length ≤ c.sendBuf.pos c.sendBuf.nxt) ∧
      (hung = false ∧ out = [] ↔ c.sendBuf.retransmitData c.mss = some []) := by
  unfold retransmit
  cases hd : c.sendBuf.retransmitData c.mss with
  | none => exact ⟨[], c.rto, c.rtoTimer, true, by simp, by simp, by simp⟩
  | some data =>
    by_cases hdata : data = []
    · refine ⟨[], c.rto, c.rtoTimer, c.hung, by simp [hdata], by simp, by simp [hdata, hh]⟩
    · simp only [hdata, if_false]
      refine ⟨[⟨c.ackSegment now c.sendBuf.una (flagACK ||| flagPSH) data, _, _⟩], _, _, c.hung, rfl, ?_, ?_⟩
      · intro p hp
        rw [List.mem_singleton] at hp
        rw [hp]
        have hlen := (SendBuf.retransmitData_length hd).1
        refine ⟨hdata, ?_⟩
        show c.sendBuf.acked + (c.sendBuf.una - c.sendBuf.una).toNat + data.length ≤ c.sendBuf.acked + c.sendBuf.unacked
        rw [BitVec.sub_self, BitVec.toNat_zero]
        omega
      · simp [hdata]

theorem processDupACK_eq (now : Int) (opts : List TcpOption) (hh : c.hung = false) :
    ∃ cc out rto t hung, processDupACK now opts c =
        { c with cc := cc, sendBuf := if c.sackOK then c.sendBuf.markSACKed (getSACKBlocks opts) else c.sendBuf
                 outgoing := c.outgoing ++ out, rto := rto, rtoTimer := t, hung := hung } ∧
      (∀ p ∈ out, p.seg.payload ≠ [] ∧ p.pos + p.seg.payload.length ≤ c.sendBuf.pos c.sendBuf.nxt) ∧
      (hung = false ∧ out = [] ↔ ((onDupACK c.cc).2 = true → c.sendBuf.retransmitData c.mss = some [])) := by
  have hupd : ∀ d : Conn σ, updateSACK opts d =
      { d with sendBuf := if d.sackOK then d.sendBuf.markSACKed (getSACKBlocks opts) else d.sendBuf } := by
    intro d
    unfold updateSACK
    split <;> rfl
  unfold processDupACK
  simp only
  by_cases hdup : (onDupACK c.cc).2 = true
  · generalize hcc : onFastRetransmit (onDupACK c.cc).1 (BitVec.ofNat 32 c.sendBuf.unacked) c.sendBuf.nxt = cc
    obtain ⟨out, rto, t, hung, heq, hout, hiff⟩ := retransmit_eq (c := { c with cc := cc }) now hh
    refine ⟨cc, out, rto, t, hung, ?_, hout, ?_⟩
    · rw [if_pos hdup, heq, hupd]
    · rw [hiff]
      exact ⟨fun h _ => h, fun h => h hdup⟩
  · refine ⟨(onDupACK c.cc).1, [], c.rto, c.rtoTimer, c.hung, ?_, by simp, by simp [hdup, hh]⟩
    rw [if_neg hdup, hupd, List.append_nil]

structure Drops (c d : Conn σ) : Prop where
  returns : d.hung = false
  same : SameProtocol c d
  answer : ∃ p, d.outgoing = [p] ∧ p.seg.flags = flagACK ∧ p.seg.payload = []

theorem drops_queueACK {c d : Conn σ} (now : Int) (hh : d.hung = false) (hout : d.outgoing = []) :
    Drops c (queueACK now d) ↔ SameProtocol c d := by
  constructor
  · intro h
    exact { h.same with }
  · intro h
    refine ⟨hh, { h with },
      ⟨d.ackSegment now d.sendBuf.nxt flagACK [], d.sendBuf.pos d.sendBuf.nxt, d.freeSpace⟩, ?_, rfl, rfl⟩
    show d.outgoing ++ [_] = [_]
    rw [hout, List.nil_append]
    rfl

theorem dataAndFIN_of_empty (hp : seg.payload = []) (hf : seg.hasFlag flagFIN = false)
    (hne : seg.ack ≠ c.sendBuf.nxt) : dataAndFIN seg c = c := by
  unfold dataAndFIN
  simp only [hp, hf, ne_eq, not_true_eq_false, Bool.false_eq_true, if_false]
  rw [if_neg fun h => hne h.2.2]

theorem ne_of_seqAfter {a b : BitVec 32} (h : seqAfter a b = true) : a ≠ b := by
  rintro rfl
  simp [seqAfter] at h

theorem drops_of_after (now : Int) (hlo : seqAfter seg.ack c.sendBuf.una = true)
    (hs : Core.acksData c.state = true) (ht : c.takesACK seg = true) (hhi : seqAfter seg.ack c.sendBuf.nxt = true)
    (hh : c.hung = false) (hout : c.outgoing = []) : Drops c (c.handleSegment now seg) ↔ c.dropsUnsent seg := by
  obtain ⟨hack, hpaws, heq⟩ := handleSegment_takesACK now hs ht
  have hne := ne_of_seqAfter hhi
  obtain ⟨ts, hts⟩ := recordTimestamp_eq seg.options (c.touch now)
  rw [heq]
  unfold dropsUnsent
  have hseg : ∀ d : Conn σ, d.sendBuf = c.sendBuf → processSegACK now seg d =
      { queueACK now d with sndWnd := d.scaledWindow seg } := by
    intro d hd
    rw [processSegACK_of_ack now hack]
    unfold processACK
    rw [hd, hlo, hhi]
    rfl
  rw [if_pos hlo]
  by_cases hcw : c.state = .closeWait
  · rw [if_pos hcw, hseg (c.touch now) rfl]
    have hq := drops_queueACK (c := c) (d := { c.touch now with sndWnd := c.scaledWindow seg }) now hh hout
    refine Iff.trans hq ⟨fun h => ⟨h.sndWnd, .inl hcw⟩, fun h => ⟨rfl, h.1, rfl, rfl, rfl, rfl⟩⟩
  · rw [if_neg hcw, handleDataState_eq (c := c.touch now) now (hpaws hcw), hts]
    have hproc := hseg { c.touch now with tsRecent := ts } rfl
    generalize processSegACK now seg { c.touch now with tsRecent := ts } = d at hproc ⊢
    by_cases hmore : seg.payload ≠ [] ∨ seg.hasFlag flagFIN = true
    · -- a second ACK
      rw [if_pos hmore]
      constructor
      · intro h
        obtain ⟨p, hp, -⟩ := h.answer
        have hp' : (dataAndFIN seg d).outgoing ++ [_] = [p] := hp
        rw [(sameSending_dataAndFIN seg d).outgoing, hproc] at hp'
        have hlen := congrArg List.length hp'
        simp [queueACK, queueSeg] at hlen
      · rintro ⟨-, h | ⟨h₁, h₂⟩⟩
        · exact absurd h hcw
        · rcases hmore with hmore | hmore
          · exact absurd h₁ hmore
          · cases h₂.symm.trans hmore
    · rw [if_neg hmore]
      rw [not_or, not_not, Bool.not_eq_true] at hmore
      have hned : seg.ack ≠ d.sendBuf.nxt := by
        rw [hproc]
        exact hne
      rw [dataAndFIN_of_empty hmore.1 hmore.2 hned, hproc]
      have hq := drops_queueACK (c := c) (d := { c.touch now with tsRecent := ts, sndWnd := c.scaledWindow seg }) now
        hh hout
      exact Iff.trans hq ⟨fun h => ⟨h.sndWnd, .inr hmore⟩, fun h => ⟨rfl, h.1, rfl, rfl, rfl, rfl⟩⟩

theorem drops_of_not_after (now : Int) (hlo : ¬seqAfter seg.ack c.sendBuf.una = true)
    (hs : Core.acksData c.state = true) (ht : c.takesACK seg = true) (hhi : seqAfter seg.ack c.sendBuf.nxt = true)
    (hh : c.hung = false) (hout : c.outgoing = []) : Drops c (c.handleSegment now seg) ↔ c.dropsUnsent seg := by
  obtain ⟨hack, hpaws, heq⟩ := handleSegment_takesACK now hs ht
  have hne := ne_of_seqAfter hhi
  obtain ⟨ts, hts⟩ := recordTimestamp_eq seg.options (c.touch now)
  rw [heq]
  unfold dropsUnsent
  rw [if_neg hlo]
  have hlo' : (!seqAfter seg.ack c.sendBuf.una) = true := by simpa using hlo
  have hdup : ∀ d : Conn σ, d.sendBuf = c.sendBuf →
      processACK now seg.ack seg.options d = processDupACK now seg.options d := by
    intro d hd
    unfold processACK
    rw [hd, if_pos hlo']
  have hnoack : ∀ {out : List Packet}, (∀ p ∈ out, p.seg.payload ≠ []) →
      (∃ p, out = [p] ∧ p.seg.flags = flagACK ∧ p.seg.payload = []) → False := by
    rintro out hall ⟨p, rfl, -, hp⟩
    exact hall p (List.mem_singleton.2 rfl) hp
  by_cases hcw : c.state = .closeWait
  · rw [if_pos hcw, processSegACK_of_ack now hack, hdup (c.touch now) rfl]
    obtain ⟨cc, out, rto, t, hung, hd, hall, -⟩ := processDupACK_eq (c := c.touch now) now seg.options hh
    rw [hd]
    constructor
    · intro h
      obtain ⟨p, hp, hflags, hpay⟩ := h.answer
      have hp' : c.outgoing ++ out = [p] := hp
      rw [hout, List.nil_append] at hp'
      exact (hnoack (fun q hq => (hall q hq).1) ⟨p, hp', hflags, hpay⟩).elim
    · rintro ⟨-, h⟩
      exact absurd hcw h.1
  · rw [if_neg hcw, handleDataState_eq (c := c.touch now) now (hpaws hcw), hts]
    obtain ⟨cc, out, rto, t, hung, hd, hall, hquiet⟩ :=
      processDupACK_eq (c := { c.touch now with tsRecent := ts }) now seg.options hh
    -- the connection when the acknowledgment has been processed
    generalize hd₁ : processSegACK now seg { c.touch now with tsRecent := ts } = d
    rw [processSegACK_of_ack now hack, hdup { c.touch now with tsRecent := ts } rfl, hd] at hd₁
    have hkeep : d.state = c.state ∧ d.recvBuf = c.recvBuf ∧ d.finPending = c.finPending ∧
        d.pendingFinSeq = c.pendingFinSeq ∧ d.sndWnd = c.scaledWindow seg ∧ d.hung = hung := by
      rw [← hd₁]
      exact ⟨rfl, rfl, rfl, rfl, rfl, rfl⟩
    obtain ⟨hst, hrb, hfp, hps, hwnd, hhung⟩ := hkeep
    have houtd : d.outgoing = out := by
      rw [← hd₁]
      show c.outgoing ++ out = out
      rw [hout, List.nil_append]
    have hsb : d.sendBuf = if c.sackOK then c.sendBuf.markSACKed (getSACKBlocks seg.options) else c.sendBuf := by
      rw [← hd₁]
      rfl
    have hned : seg.ack ≠ d.sendBuf.nxt := by
      rw [hsb]
      split
      · rw [SendBuf.markSACKed_nxt]
        exact hne
      · exact hne
    have hsame := sameSending_dataAndFIN seg d
    have hiff := dataAndFIN_same_iff (c := d) hned
    rw [hst, hrb, hfp, hps] at hiff
    generalize dataAndFIN seg d = f at hsame hiff
    by_cases hmore : seg.payload ≠ [] ∨ seg.hasFlag flagFIN = true
    · rw [if_pos hmore]
      constructor
      · intro h
        obtain ⟨p, hp, -⟩ := h.answer
        have hnil : out = [] := by
          have hp' : f.outgoing ++ [_] = [p] := hp
          rw [hsame.outgoing, houtd] at hp'
          exact (List.append_eq_singleton_iff.1 hp').elim (fun h => h.1) (fun h => by simp at h)
        have hret : hung = false := hhung.symm.trans (hsame.hung.symm.trans h.returns)
        have hbuf : d.sendBuf = c.sendBuf := hsame.sendBuf.symm.trans h.same.sendBuf
        refine ⟨hwnd.symm.trans (hsame.sndWnd.symm.trans h.same.sndWnd), hcw, hmore, hquiet.1 ⟨hret, hnil⟩, ?_,
          hiff.1 ⟨h.same.state, h.same.recvBuf, h.same.fin.1, h.same.fin.2⟩⟩
        intro hsack
        rw [hsb, if_pos hsack] at hbuf
        exact hbuf
      · rintro ⟨hw, -, -, hq, hsack, hdata⟩
        obtain ⟨hret, hnil⟩ := hquiet.2 hq
        obtain ⟨h1, h2, h3, h4⟩ := hiff.2 hdata
        refine (drops_queueACK now (hsame.hung.trans (hhung.trans hret)) ?_).2 ⟨h1, ?_, ?_, h2, h3, h4⟩
        · rw [hsame.outgoing, houtd, hnil]
        · rw [hsame.sndWnd, hwnd, hw]
        · rw [hsame.sendBuf, hsb]
          split
          · rename_i hok
            exact hsack hok
          · rfl
    · rw [if_neg hmore]
      constructor
      · intro h
        obtain ⟨p, hp, hflags, hpay⟩ := h.answer
        rw [hsame.outgoing, houtd] at hp
        exact (hnoack (fun q hq => (hall q hq).1) ⟨p, hp, hflags, hpay⟩).elim
      · rintro ⟨-, -, h, -⟩
        exact absurd h hmore

theorem drops_handleSegment_iff (now : Int) (hs : Core.acksData c.state = true)
    (ht : c.takesACK seg = true) (hhi : seqAfter seg.ack c.sendBuf.nxt = true) (hh : c.hung = false)
    (hout : c.outgoing = []) : Drops c (c.handleSegment now seg) ↔ c.dropsUnsent seg := by
  by_cases hlo : seqAfter seg.ack c.sendBuf.una = true
  · exact drops_of_after now hlo hs ht hhi hh hout
  · exact drops_of_not_after now hlo hs ht hhi hh hout

end Conn

namespace Host

/-- A segment that acknowledges data never sent is dropped whole exactly when its window is the known one and it brings
nothing else: the check is made in `processACK`, and its caller goes on with the window, the payload and the FIN. -/
theorem unsent_ack_dropped_iff {h : Host σ} (hr : (system σ).Reach anyStep h)
    (hs : Core.acksData h.conn.state = true) (seg : Segment) (ht : h.conn.takesACK seg = true)
    (hhi : seqAfter seg.ack h.conn.sendBuf.nxt = true) (now : Int) :
    (∃ h', h.next (.segment now seg) = some h' ∧ Conn.SameProtocol h.conn h'.conn ∧
        ∃ p, h.answer h' = [p] ∧ p.seg.flags = flagACK ∧ p.seg.payload = []) ↔ h.conn.dropsUnsent seg := by
  rw [← Conn.drops_handleSegment_iff now hs ht hhi (not_hung hr) (outgoing_eq_nil hr)]
  constructor
  · rintro ⟨h', hn, hsame, hans⟩
    have hhung := (apply_of_next hn).2
    rw [conn_segment hn] at hhung hsame
    rw [answer_segment hn] at hans
    exact ⟨hhung, { hsame with }, hans⟩
  · intro hd
    obtain ⟨h', hn⟩ := next_segment hd.returns
    refine ⟨h', hn, ?_, ?_⟩
    · rw [conn_segment hn]
      exact { hd.same with }
    · rw [answer_segment hn]
      exact hd.answer

/-- An acknowledgment of a byte that was never sent, without a payload and with the known window, is dropped. -/
theorem unsent_ack_dropped_pureACK :
    ∃ h h' : Host SmallController, h.conn.state = .established ∧
      h.next (.segment 0 { srcPort := 0, dstPort := 0, seq := 701, ack := 102, flags := flagACK, window := 1000 }) =
        some h' ∧ Conn.SameProtocol h.conn h'.conn := by
  have hr : (system SmallController).Reach anyStep ((fresh {} 0).run opening) :=
    run_reach (by decide +kernel) (execMeets_anyStep _ _ _)
  have hwnd : ((fresh {} 0).run opening : Host SmallController).conn.dropsUnsent
      { srcPort := 0, dstPort := 0, seq := 701, ack := 102, flags := flagACK, window := 1000 } := by
    refine ⟨by decide +kernel, ?_⟩
    rw [if_pos (by decide +kernel)]
    exact .inr ⟨rfl, rfl⟩
  obtain ⟨h', hn, hsame, -⟩ :=
    (unsent_ack_dropped_iff hr (by decide +kernel) _ (by decide +kernel) (by decide +kernel) 0).2 hwnd
  exact ⟨_, h', by decide +kernel, hn, hsame⟩

/-- The payload of a segment that acknowledges a byte never sent is buffered, and its window is taken over. -/
theorem unsent_ack_payload_buffered :
    ∃ h h' : Host SmallController, (system SmallController).Reach anyStep h ∧ h.conn.state = .established ∧
      h.conn.takesACK { srcPort := 0, dstPort := 0, seq := 701, ack := 102, flags := flagACK, payload := [1] } = true ∧
      seqAfter 102 h.conn.sendBuf.nxt = true ∧
      h.next (.segment 0 { srcPort := 0, dstPort := 0, seq := 701, ack := 102, flags := flagACK, payload := [1] }) =
        some h' ∧
      h.conn.recvBuf.buf = [] ∧ h'.conn.recvBuf.buf = [1] ∧ h.conn.sndWnd = 1000 ∧ h'.conn.sndWnd = 0 := by
  refine ⟨(fresh {} 0).run opening, ((fresh {} 0).run opening).run
    [.segment 0 { srcPort := 0, dstPort := 0, seq := 701, ack := 102, flags := flagACK, payload := [1] }],
    ?_, ?_, ?_, ?_, ?_, ?_, ?_, ?_, ?_⟩
  · exact run_reach (by decide +kernel) (execMeets_anyStep _ _ _)
  · decide +kernel
  · decide +kernel
  · decide +kernel
  · exact next_run (by decide +kernel)
  · decide +kernel
  · decide +kernel
  · decide +kernel
  · decide +kernel

end Host

end Libp2px.Vtcp
