import Libp2px.Vtcp.Close

/-!
# One FIN

The FIN is sent by `Close`, and again by a firing of the RTO timer in FIN-WAIT-1 and LAST-ACK, which gives it a new
sequence number.  As long as the timer does not fire there, a connection sends one FIN in its whole life, also when it
is ended and opened again, and `SND.NXT` is advanced for it once.
-/

namespace Libp2px.Vtcp

open Transition

set_option linter.unusedSectionVars false

variable {σ : Type} [CongestionController σ]

def Conn.persistFlushes (c : Conn σ) : Event → Bool
  | .persist _ => !c.closed && decide (c.state ≠ .closed) && decide (c.sndWnd > 0) && c.chunkSize.isSome
  | _ => false

/-- No timer sends the FIN again, or new data other than a window probe. -/
def Host.FINOnce (h : Host σ) (e : Event) : Prop := h.conn.repeatsFIN e = false ∧ h.conn.persistFlushes e = false

instance (h : Host σ) (e : Event) : Decidable (h.FINOnce e) := by
  unfold Host.FINOnce
  infer_instance

def Event.isTimer : Event → Bool
  | .rto _ => true
  | .persist _ => true
  | .keepalive _ => true
  | .timeWait => true
  | _ => false

def Packet.isFIN (p : Packet) : Bool := p.seg.hasFlag flagFIN

namespace Core

def fins (s : Core) : List Packet := s.emitted.filter Packet.isFIN

/-- At most one FIN has been sent, and after it the connection is closing or ended. -/
structure SingleFIN (s : Core) : Prop where
  unopened : s.opened = false → s.state = .closed
  one : s.fins.length ≤ 1
  state : s.fins ≠ [] → s.closed = false → s.state ∈ closingStates

theorem fins_emit {s : Core} {seg : Segment} (h : seg.hasFlag flagFIN = false) : (s.emit seg).fins = s.fins := by
  show (s.emitted ++ [_]).filter Packet.isFIN = _
  rw [List.filter_append, List.filter_cons_of_neg, List.filter_nil, List.append_nil]
  · rfl
  · simp [Packet.isFIN, h]

theorem fins_step {e : Event} {o : Occasion} {s t : Core} (hst : CoreStep e o s t) (hrep : ∀ sb, ¬o.repeatFIN sb) :
    t.fins = s.fins ∨ (∃ now, e = .close now) ∧ s.closed = false ∧ s.state ∉ closingStates ∧
      t.state ∈ closingStates ∧ ∃ p, t.fins = s.fins ++ [p] := by
  cases hst with
  | connect cap he hs hsyn hseq => exact .inl (fins_emit hsyn.fin)
  | acceptSYN cap he hs hsyn hseq => exact .inl (fins_emit hsyn.fin)
  | syn hs hsyn hseq => exact .inl (fins_emit hsyn.fin)
  | control hctl => exact .inl (fins_emit hctl.fin)
  | chunk hs hp hd => exact .inl (fins_emit hd.fin)
  | rexmit hs ho hd hdata => exact .inl (fins_emit hdata.fin)
  | @fin now seg st he hc hs ho hf =>
    right
    refine ⟨⟨now, he⟩, hc, ?_, ?_, ⟨seg, s.sendBuf.pos seg.seq, s.freeSpace⟩, ?_⟩
    · rcases hs with ⟨hs, -⟩ | ⟨hs, -⟩ | ⟨hs, -⟩ <;> rw [hs] <;> decide
    · show st ∈ closingStates
      rcases hs with ⟨-, rfl⟩ | ⟨-, rfl⟩ | ⟨-, rfl⟩ <;> decide
    · show (s.emitted ++ [_]).filter Packet.isFIN = _
      rw [List.filter_append, List.filter_cons_of_pos, List.filter_nil]
      · rfl
      · exact hf.fin
  | refin he hc hs ho hf => exact absurd ho (hrep _)
  | finIn | finDeferred =>
    left
    unfold Core.consumeFIN
    simp only
    split <;> rfl
  | _ => exact .inl rfl

theorem closing_step {e : Event} {o : Occasion} {s t : Core} (hst : CoreStep e o s t)
    (hun : s.opened = false → s.state = .closed) (hs : s.closed = false → s.state ∈ closingStates) :
    t.closed = false → t.state ∈ closingStates := by
  have hno : ∀ st, s.state = st → st ∉ closingStates → s.closed = false → False := by
    rintro st rfl hnot hc
    exact hnot (hs hc)
  cases hst with
  | connect _ _ hst | synAckIn _ hst | synIn _ hst | synRcvdAck _ hst =>
    exact fun hc => (hno _ hst (by decide) hc).elim
  | acceptSYN _ _ hst | acceptCookie _ _ _ hst =>
    intro hc
    rcases hst with hst | hst <;> exact (hno _ hst (by decide) hc).elim
  | setup _ _ ho hc => exact (hno _ (hun ho) (by decide) hc).elim
  | fin _ hc hst =>
    rcases hst with ⟨hst, -⟩ | ⟨hst, -⟩ | ⟨hst, -⟩ <;> exact (hno _ hst (by decide) hc).elim
  | finIn | finDeferred =>
    unfold Core.consumeFIN
    simp only
    split
    · exact fun hc => afterFIN_closing _ (hs hc)
    · exact hs
  | finAcked =>
    intro _
    show State.finWait2 ∈ closingStates
    decide
  | closingAcked =>
    intro _
    show State.timeWait ∈ closingStates
    decide
  | shut =>
    intro hc
    cases hc
  | _ => exact hs

theorem SingleFIN.step {e : Event} {o : Occasion} {s t : Core} (h : s.SingleFIN) (hst : CoreStep e o s t)
    (hrep : ∀ sb, ¬o.repeatFIN sb) : t.SingleFIN := by
  refine ⟨hst.unopened h.unopened, ?_, ?_⟩
  all_goals rcases fins_step hst hrep with hf | ⟨-, hc, hs, ht, p, hf⟩
  · rw [hf]
    exact h.one
  · have hnil : s.fins = [] := by
      by_contra hne
      exact hs (h.state hne hc)
    rw [hf, hnil]
    exact le_rfl
  · rw [hf]
    exact fun hne => closing_step hst h.unopened (h.state hne)
  · exact fun _ _ => ht

end Core

/-! ### `SND.NXT` at a firing of a timer -/

namespace Conn

theorem sendBuf_onRTOTimeout {c : Conn σ} (now : Int) (hrep : c.repeatsFIN (.rto now) = false) :
    (onRTOTimeout now c).sendBuf = c.sendBuf := by
  rcases onRTOTimeout_cases now c with ⟨-, heq⟩ | ⟨-, ⟨-, -, heq⟩ | ⟨hyes, heq⟩⟩ <;> rw [heq]
  · rfl
  · have hfin : c.state ≠ .finWait1 ∧ c.state ≠ .lastAck := by
      simpa [repeatsFIN, hyes] using hrep
    rcases sendBuf_resend now { c with
      retries := c.retries + 1, rto := c.rto.backoff.invalidateTiming, cc := CongestionController.onTimeout c.cc }
      with hsb | hst | hst
    · exact hsb
    · exact absurd hst hfin.1
    · exact absurd hst hfin.2

theorem sendBuf_onKeepalive (now : Int) (c : Conn σ) : (onKeepalive now c).sendBuf = c.sendBuf := by
  rcases onKeepalive_cases now c with hsame | ⟨-, -, ⟨-, habort⟩ | ⟨-, d, ks, kt, hd, hrearm⟩⟩
  · rw [hsame]
  · rw [habort, keepaliveAbort_frame]
    rfl
  · rw [hrearm]
    rcases hd with rfl | rfl <;> rfl

theorem nxt_windowProbe (c : Conn σ) :
    c.windowProbe.sendBuf.nxt = c.sendBuf.nxt ∨ c.windowProbe.sendBuf.nxt = c.sendBuf.nxt + 1 := by
  unfold windowProbe
  split
  · rename_i hp
    right
    have hlen : (c.sendBuf.peekUnsent 1).length = 1 := by
      have hle : (c.sendBuf.peekUnsent 1).length ≤ 1 := by
        rw [SendBuf.peekUnsent, List.length_take]
        exact Nat.min_le_left _ _
      have hpos := List.length_pos_iff.2 hp.2
      omega
    show c.sendBuf.nxt + BitVec.ofNat 32 (c.sendBuf.peekUnsent 1).length = _
    rw [hlen]
    rfl
  · exact .inl rfl

theorem nxt_onPersistTimeout {c : Conn σ} (now : Int) (hp : c.persistFlushes (.persist now) = false) :
    (onPersistTimeout now c).sendBuf.nxt = c.sendBuf.nxt ∨
      c.sndWnd = 0 ∧ (onPersistTimeout now c).sendBuf.nxt = c.sendBuf.nxt + 1 := by
  unfold onPersistTimeout
  split
  · exact .inl rfl
  · rename_i hopen
    rw [not_or, Bool.not_eq_true] at hopen
    split
    · rename_i hw
      left
      have hnone : c.stopPersist.chunkSize = none := by
        show c.chunkSize = none
        have himp : c.sndWnd > 0 → c.chunkSize = none := by simpa [persistFlushes, hopen.1, hopen.2] using hp
        exact himp hw
      have hloop : flushLoop now c.stopPersist.sendBuf.pending.toNat c.stopPersist = c.stopPersist := by
        cases c.stopPersist.sendBuf.pending.toNat with
        | zero => rfl
        | succ fuel => rw [flushLoop, hnone]
      rw [flushSendQueue, sendBuf_armPersist, hloop]
      rfl
    · rename_i hw
      have hzero : c.sndWnd = 0 := by bv_omega
      rcases nxt_windowProbe c with h | h
      · exact .inl h
      · exact .inr ⟨hzero, h⟩

theorem outgoing_close (now : Int) (c : Conn σ) :
    (close now c).outgoing = c.outgoing ∨
      ∃ fin, (close now c).outgoing = (c.beforeFIN now).outgoing ++ [fin] ∧ fin.isFIN = true ∧
        (close now c).sendBuf.nxt = fin.seg.seq + 1 := by
  have hfin : ∀ (d : Conn σ) (st : State), d.outgoing = (c.beforeFIN now).outgoing →
      ∃ fin, (queueFIN now (d.setState st)).startRTO.broadcastRecv.broadcastSend.outgoing =
          (c.beforeFIN now).outgoing ++ [fin] ∧ fin.isFIN = true ∧
        (queueFIN now (d.setState st)).startRTO.broadcastRecv.broadcastSend.sendBuf.nxt = fin.seg.seq + 1 := by
    intro d st hout
    refine ⟨⟨(d.setState st).ackSegment now d.sendBuf.nxt (flagFIN ||| flagACK) [], d.sendBuf.pos d.sendBuf.nxt, d.freeSpace⟩,
      ?_, (isFin_fin (d.setState st) now _).fin, rfl⟩
    rw [← hout]
    rfl
  unfold close
  split
  · exact .inl rfl
  · split
    · rename_i hs
      exact .inr (hfin _ _ (by rw [beforeFIN, if_pos hs]))
    · rename_i hs
      exact .inr (hfin _ _ (by simp [beforeFIN, hs]))
    · exact .inl rfl
    · rename_i hs
      exact .inr (hfin _ _ (by simp [beforeFIN, hs]))
    · exact .inl rfl
    · exact .inl rfl
    · exact .inl rfl

end Conn

namespace Host

def fins (h : Host σ) : List Packet := h.sent.filter Packet.isFIN

theorem single_fin {P : Host σ → Event → Prop} {h : Host σ} (hr : (system σ).Reach P h)
    (hP : ∀ g e, P g e → g.conn.repeatsFIN e = false) : h.core.SingleFIN := by
  refine reach_core hr ?_ ?_
  · intro cfg now
    exact ⟨fun _ => rfl, Nat.zero_le _, fun hne => absurd rfl hne⟩
  · intro g e t hg hPe hsteps
    have hstart : (g.core.receive e).SingleFIN := by
      cases e <;> exact { hg with }
    refine hsteps.induction hstart fun s u hs hst => hs.step hst ?_
    rintro sb ⟨-, hrep⟩
    cases (hP g e hPe).symm.trans hrep

theorem fins_next {h h' : Host σ} {e : Event} (hrep : h.conn.repeatsFIN e = false) (hne : ∀ now, e ≠ .close now)
    (hn : h.next e = some h') : h'.core.fins = h.core.fins := by
  have hstart : (h.core.receive e).fins = h.core.fins := by
    cases e <;> rfl
  refine (next_core hn).induction (I := fun s => s.fins = h.core.fins) hstart ?_
  intro s t hs hst
  rcases Core.fins_step hst (fun _ ho => by cases hrep.symm.trans ho.2) with hf | ⟨⟨now, he⟩, -⟩
  · exact hf.trans hs
  · exact absurd he (hne now)

/-- If no firing of the RTO timer repeats the FIN, all FINs carry the same sequence number, `SND.NXT` is advanced for
the FIN once, by the `Close` that sends it, and a firing of a timer changes `SND.NXT` by a window probe only. -/
theorem fin_sent_once {h : Host σ} (hr : (system σ).Reach FINOnce h) :
    (∀ p ∈ h.sent, ∀ q ∈ h.sent, p.isFIN = true → q.isFIN = true → p.seg.seq = q.seg.seq) ∧
      ∀ e h', h.FINOnce e → h.next e = some h' →
        (h'.fins = h.fins ∨ h.fins = [] ∧ ∃ now fin, e = .close now ∧ h'.fins = [fin] ∧
          h'.conn.sendBuf.nxt = fin.seg.seq + 1) ∧
        (e.isTimer = true → h'.conn.sendBuf.nxt = h.conn.sendBuf.nxt ∨
          (∃ now, e = .persist now) ∧ h.conn.sndWnd = 0 ∧ h'.conn.sendBuf.nxt = h.conn.sendBuf.nxt + 1) := by
  have hfins : ∀ {g : Host σ}, (system σ).Reach FINOnce g → g.core.fins = g.fins ∧ g.fins.length ≤ 1 := by
    intro g hg
    have hcore : g.core.fins = g.fins := by
      rw [Core.fins, emitted_core hg]
      rfl
    exact ⟨hcore, hcore ▸ (single_fin hg fun _ _ hP => hP.1).one⟩
  refine ⟨?_, ?_⟩
  · intro p hp q hq hpf hqf
    have hone := (hfins hr).2
    have hp' : p ∈ h.fins := List.mem_filter.2 ⟨hp, hpf⟩
    have hq' : q ∈ h.fins := List.mem_filter.2 ⟨hq, hqf⟩
    obtain ⟨x, hx⟩ := List.length_eq_one_iff.1 (le_antisymm hone (List.length_pos_of_mem hp'))
    rw [hx, List.mem_singleton] at hp' hq'
    rw [hp', hq']
  · intro e h' hP hn
    have hr' : (system σ).Reach FINOnce h' := hr.step hP hn
    constructor
    · by_cases hclose : ∃ now, e = .close now
      · obtain ⟨now, rfl⟩ := hclose
        have happ := Option.some.inj (apply_of_next hn).1
        rcases Conn.outgoing_close now h.conn with hout | ⟨fin, hout, hfin, hnxt⟩
        · left
          have hsent : h'.sent = h.sent ++ (h.conn.close now).outgoing := by
            rw [← happ]
            rfl
          rw [hout, outgoing_eq_nil hr, List.append_nil] at hsent
          rw [fins, hsent]
          rfl
        · right
          have hsent : h'.sent = h.sent ++ (h.conn.close now).outgoing := by
            rw [← happ]
            rfl
          have hall : h'.fins = h.fins ++ ((h.conn.beforeFIN now).outgoing.filter Packet.isFIN ++ [fin]) := by
            rw [fins, hsent, hout, List.filter_append, List.filter_append, List.filter_cons_of_pos hfin, List.filter_nil]
            rfl
          have hone := (hfins hr').2
          rw [hall, List.length_append, List.length_append, List.length_singleton] at hone
          have hold : h.fins = [] := List.eq_nil_of_length_eq_zero (by omega)
          have hpre : (h.conn.beforeFIN now).outgoing.filter Packet.isFIN = [] :=
            List.eq_nil_of_length_eq_zero (by omega)
          refine ⟨hold, now, fin, rfl, ?_, ?_⟩
          · rw [hall, hold, hpre]
            rfl
          · rw [← happ]
            exact hnxt
      · left
        rw [← (hfins hr).1, ← (hfins hr').1]
        exact fins_next hP.1 (fun now he => hclose ⟨now, he⟩) hn
    · intro ht
      have happ := (apply_of_next hn).1
      cases e with
      | rto now =>
        left
        rw [← Option.some.inj happ]
        exact congrArg SendBuf.nxt (Conn.sendBuf_onRTOTimeout now hP.1)
      | persist now =>
        rw [← Option.some.inj happ]
        rcases Conn.nxt_onPersistTimeout now hP.2 with hk | ⟨hw, hk⟩
        · exact .inl hk
        · exact .inr ⟨⟨now, rfl⟩, hw, hk⟩
      | keepalive now =>
        left
        rw [← Option.some.inj happ]
        exact congrArg SendBuf.nxt (Conn.sendBuf_onKeepalive now _)
      | timeWait =>
        left
        simp only [apply] at happ
        split at happ
        · rw [← Option.some.inj happ]
          rfl
        · cases happ
      | _ => cases ht

end Host

def closedOnce : List Event :=
  opening ++
    [.write 0 [1], .rto 0, .close 0,
      .segment 0 { srcPort := 0, dstPort := 0, seq := 701, ack := 103, flags := flagFIN ||| flagACK, window := 1000 }]

theorem fin_sent_once_closedOnce :
    ((Host.fresh {} 0 : Host SmallController).run closedOnce).fins.length = 1 ∧
      ∀ p ∈ ((Host.fresh {} 0 : Host SmallController).run closedOnce).sent,
        ∀ q ∈ ((Host.fresh {} 0 : Host SmallController).run closedOnce).sent,
          p.isFIN = true → q.isFIN = true → p.seg.seq = q.seg.seq := by
  have hr : (Host.system SmallController).Reach Host.FINOnce ((Host.fresh {} 0).run closedOnce) :=
    Host.run_reach (by decide +kernel) (by decide +kernel)
  exact ⟨by decide +kernel, (Host.fin_sent_once hr).1⟩

def finSent : List Event := opening ++ [.close 0]

/-- The firing of the RTO timer in FIN-WAIT-1 sends a second FIN with the next sequence number, and advances `SND.NXT`
once more. -/
theorem fin_moves_on_rto :
    ∃ h h' : Host SmallController, (Host.system SmallController).Reach anyStep h ∧ h.next (.rto 1) = some h' ∧
      h.fins.map (fun p => p.seg.seq) = [101] ∧ h'.fins.map (fun p => p.seg.seq) = [101, 102] ∧
      h.conn.sendBuf.nxt = 102 ∧ h'.conn.sendBuf.nxt = 103 := by
  refine ⟨(Host.fresh {} 0).run finSent, ((Host.fresh {} 0).run finSent).run [.rto 1], ?_, ?_, ?_, ?_, ?_, ?_⟩
  · exact Host.run_reach (by decide +kernel) (execMeets_anyStep _ _ _)
  · exact Host.next_run (by decide +kernel)
  · decide +kernel
  · decide +kernel
  · decide +kernel
  · decide +kernel

end Libp2px.Vtcp
