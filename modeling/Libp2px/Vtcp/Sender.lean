import Libp2px.Vtcp.Refine

/-!
# The send buffer along a run

Where the bytes of the send buffer stand in the sequence space.  During the handshake the buffer is empty and the SYN
is outstanding; in ESTABLISHED and CLOSE-WAIT the buffer ends where the accepted bytes end, and all that is outstanding
lies in it; a connection that was ended and opened again accepts nothing, so its buffer is empty.
-/

namespace Libp2px.Vtcp

open Transition

variable {σ : Type} [CongestionController σ]

namespace Core

def early (st : State) : Bool := st == .closed || st == .listen || st == .synSent || st == .synReceived

def dataSeq (s : Core) : BitVec 32 := s.iss + 1

structure SendInv (s : Core) : Prop where
  unopened : s.opened = false → s.state = .closed
  entered : s.state = .established ∨ s.state = .closeWait → State.established ∈ s.entered
  fresh : s.closed = false → early s.state = true →
    State.established ∉ s.entered ∧ s.accepted = [] ∧ s.sendBuf.buf = []
  handshake : s.state = .synSent ∨ s.state = .synReceived →
    s.sendBuf.buf = [] ∧ s.sendBuf.una = s.iss ∧ s.sendBuf.nxt = s.iss + 1
  outstanding : s.state = .established ∨ s.state = .closeWait → s.sendBuf.unacked ≤ s.sendBuf.buf.length
  aligned : s.closed = false → s.state = .established ∨ s.state = .closeWait →
    s.sendBuf.buf.length ≤ s.accepted.length ∧
      s.sendBuf.una = Serial.place s.dataSeq (s.accepted.length - s.sendBuf.buf.length)
  reopened : s.closed = true → s.state = .closed ∨ s.sendBuf.buf = []

variable {s t : Core}

theorem SendInv.congr (h : s.SendInv) (hst : t.state = s.state) (hent : t.entered = s.entered)
    (hc : t.closed = s.closed) (ho : t.opened = s.opened) (hiss : t.iss = s.iss) (hacc : t.accepted = s.accepted)
    (hsb : t.sendBuf = s.sendBuf) : t.SendInv := by
  have hseq : t.dataSeq = s.dataSeq := congrArg (· + 1) hiss
  refine ⟨?_, ?_, ?_, ?_, ?_, ?_, ?_⟩
  · rw [ho, hst]; exact h.unopened
  · rw [hst, hent]; exact h.entered
  · rw [hc, hst, hent, hacc, hsb]; exact h.fresh
  · rw [hst, hsb, hiss]; exact h.handshake
  · rw [hst, hsb]; exact h.outstanding
  · rw [hc, hst, hsb, hacc, hseq]; exact h.aligned
  · rw [hc, hst, hsb]; exact h.reopened

theorem SendInv.opening {iss : BitVec 32} {cap : Nat} {st : State} (h : s.SendInv)
    (hs : early s.state = true) (hst : st = .synSent ∨ st = .synReceived)
    (ht : t.state = st ∧ t.entered = s.entered ++ [st] ∧ t.closed = s.closed ∧ t.opened = true ∧ t.iss = iss ∧
      t.accepted = s.accepted ∧ t.sendBuf = (newSendBuf cap iss).advanceSent 1) : t.SendInv := by
  obtain ⟨hst', hent, hc, ho, hiss, hacc, hsb⟩ := ht
  have hnot : ¬(t.state = .established ∨ t.state = .closeWait) := by
    rw [hst']
    rcases hst with rfl | rfl <;> decide
  refine ⟨?_, ?_, ?_, ?_, ?_, ?_, ?_⟩
  · intro hno
    cases hno.symm.trans ho
  · exact fun hs => absurd hs hnot
  · intro hcf _
    obtain ⟨h1, h2, -⟩ := h.fresh (hc.symm.trans hcf) hs
    rw [hent, hacc, hsb]
    refine ⟨?_, h2, rfl⟩
    rcases hst with rfl | rfl <;> simp [h1]
  · intro _
    rw [hsb, hiss]
    exact ⟨rfl, rfl, rfl⟩
  · exact fun hs => absurd hs hnot
  · exact fun _ hs => absurd hs hnot
  · intro _
    rw [hsb]
    exact .inr rfl

theorem SendInv.establishing (h : s.SendInv) (hs : early s.state = true)
    (ht : t.state = .established ∧ t.entered = s.entered ++ [.established] ∧ t.closed = s.closed ∧ t.opened = true ∧
      t.accepted = s.accepted)
    (hsb : t.sendBuf.buf = [] ∧ t.sendBuf.una = t.iss + 1 ∧ t.sendBuf.nxt = t.sendBuf.una) : t.SendInv := by
  obtain ⟨hst, hent, hc, ho, hacc⟩ := ht
  obtain ⟨hbuf, huna, hnxt⟩ := hsb
  refine ⟨?_, ?_, ?_, ?_, ?_, ?_, ?_⟩
  · intro hno
    cases hno.symm.trans ho
  · intro _
    rw [hent]
    simp
  · intro _ he
    rw [hst] at he
    cases he
  · rw [hst]
    rintro (hs | hs) <;> cases hs
  · intro _
    rw [SendBuf.unacked, hnxt]
    simp
  · intro hcf _
    have hnil := (h.fresh (hc.symm.trans hcf) hs).2.1
    rw [hbuf, hacc, hnil, huna]
    exact ⟨le_rfl, by simp [dataSeq]⟩
  · exact fun _ => .inr hbuf

theorem SendInv.acknowledge_syn {s : Core} {ack : BitVec 32} (h : s.SendInv)
    (hs : s.state = .synSent ∨ s.state = .synReceived) (hlo : seqAfter ack s.sendBuf.una = true)
    (hhi : seqAfter ack s.sendBuf.nxt = false) :
    (s.sendBuf.acknowledge ack).1.buf = [] ∧ (s.sendBuf.acknowledge ack).1.una = s.iss + 1 ∧
      (s.sendBuf.acknowledge ack).1.nxt = (s.sendBuf.acknowledge ack).1.una := by
  obtain ⟨hbuf, huna, hnxt⟩ := h.handshake hs
  have hack : ack = s.iss + 1 := by
    obtain ⟨hpos, -, hsum⟩ := SendBuf.ack_between hlo hhi
    rw [SendBuf.unacked, huna, hnxt] at hsum
    rw [huna] at hpos
    bv_omega
  rw [SendBuf.acknowledge_eq hlo hhi]
  refine ⟨?_, hack, hnxt.trans hack.symm⟩
  show s.sendBuf.buf.drop _ = []
  rw [hbuf, List.drop_nil]

theorem SendInv.leave (h : s.SendInv) (hs : s.state ≠ .closed)
    (hst : t.state ∈ [State.finWait1, .finWait2, .closing, .lastAck, .timeWait]) (ho : t.opened = s.opened)
    (hc : t.closed = s.closed) (hbuf : t.sendBuf.buf = s.sendBuf.buf) : t.SendInv := by
  have hmem : ∀ st, t.state = st → st ∈ [State.finWait1, .finWait2, .closing, .lastAck, .timeWait] := by
    rintro st rfl
    exact hst
  have hnot : ¬(t.state = .established ∨ t.state = .closeWait) := by
    rintro (hs | hs) <;> exact absurd (hmem _ hs) (by decide)
  refine ⟨?_, fun hs => absurd hs hnot, ?_, ?_, fun hs => absurd hs hnot, fun _ hs => absurd hs hnot, ?_⟩
  · intro hno
    exact absurd (h.unopened (ho.symm.trans hno)) hs
  · intro _ he
    have hlate : ∀ st ∈ [State.finWait1, .finWait2, .closing, .lastAck, .timeWait], early st = false := by decide
    cases (hlate _ hst).symm.trans he
  · rintro (hs | hs) <;> exact absurd (hmem _ hs) (by decide)
  · intro hct
    rw [hbuf]
    exact .inr ((h.reopened (hc.symm.trans hct)).resolve_left hs)

theorem SendInv.update (h : s.SendInv) (hst : t.state = s.state) (hent : t.entered = s.entered)
    (hc : t.closed = s.closed) (ho : t.opened = s.opened) (hiss : t.iss = s.iss)
    (hearly : early s.state = true → t.sendBuf = s.sendBuf ∧ t.accepted = s.accepted)
    (hout : s.state = .established ∨ s.state = .closeWait → t.sendBuf.unacked ≤ t.sendBuf.buf.length)
    (halign : s.closed = false → s.state = .established ∨ s.state = .closeWait →
      t.sendBuf.buf.length ≤ t.accepted.length ∧
        t.sendBuf.una = Serial.place s.dataSeq (t.accepted.length - t.sendBuf.buf.length))
    (hbuf : s.closed = true → s.sendBuf.buf = [] → t.sendBuf.buf = []) : t.SendInv := by
  have hseq : t.dataSeq = s.dataSeq := congrArg (· + 1) hiss
  refine ⟨?_, ?_, ?_, ?_, ?_, ?_, ?_⟩
  · rw [ho, hst]; exact h.unopened
  · rw [hst, hent]; exact h.entered
  · intro hcf he
    rw [hst] at he
    rw [hent, (hearly he).1, (hearly he).2]
    exact h.fresh (hc.symm.trans hcf) he
  · rw [hst]
    intro hs
    have he : early s.state = true := by
      rcases hs with hs | hs <;> rw [hs] <;> rfl
    rw [(hearly he).1, hiss]
    exact h.handshake hs
  · rw [hst]; exact hout
  · rw [hc, hst, hseq]; exact halign
  · intro hct
    rw [hst]
    exact (h.reopened (hc.symm.trans hct)).imp_right (hbuf (hc.symm.trans hct))

theorem SendInv.buf_eq_nil {s : Core} (h : s.SendInv) (hs : s.closed = false ∨ s.state ≠ .closed)
    (he : early s.state = true) : s.sendBuf.buf = [] := by
  by_cases hc : s.closed = false
  · exact (h.fresh hc he).2.2
  · have hc' : s.closed = true := by simpa using hc
    exact (h.reopened hc').resolve_left (hs.resolve_left hc)

theorem not_early_of_acksData {st : State} (h : acksData st = true) : early st = false := by
  revert h
  cases st <;> decide

theorem SendInv.consumeFIN {s : Core} (h : s.SendInv) : s.consumeFIN.SendInv := by
  unfold Core.consumeFIN
  simp only
  split
  · rename_i ha
    cases hs : s.state with
    | established =>
      have hs' : s.state = .established ∨ s.state = .closeWait := .inl hs
      refine ⟨?_, ?_, ?_, ?_, fun _ => h.outstanding hs', fun hc _ => h.aligned hc hs', ?_⟩
      · intro ho
        cases hs.symm.trans (h.unopened ho)
      · intro _
        exact List.mem_append_left _ (h.entered hs')
      · intro _ he
        cases he
      · rintro (hst | hst) <;> cases hst
      · intro hc
        refine .inr ((h.reopened hc).resolve_left ?_)
        rw [hs]
        decide
    | finWait1 =>
      refine h.leave (by rw [hs]; decide) ?_ rfl rfl rfl
      show (if (s.sendBuf.unacked == 0) = true then State.timeWait else State.closing) ∈ _
      split <;> decide
    | finWait2 => exact h.leave (by rw [hs]; decide) (by show State.timeWait ∈ _; decide) rfl rfl rfl
    | _ =>
      rw [hs] at ha
      cases ha
  · exact h.congr rfl rfl rfl rfl rfl rfl rfl

/-- A waiting `Write` goes on only in a connection that has been established. -/
def ResumesEstablished (e : Event) (o : Occasion) (s : Core) : Prop :=
  ∀ now i, e = .resume now i → o.resume s.state → State.established ∈ s.entered

theorem SendInv.step {e : Event} {o : Occasion} (h : s.SendInv) (hst : CoreStep e o s t)
    (hres : ResumesEstablished e o s) : t.SendInv := by
  have hne : ∀ st, s.state = st → st ≠ .closed → s.state ≠ .closed := by
    rintro st rfl hne
    exact hne
  cases hst with
  | connect cap he hs hsyn hseq =>
    exact h.opening (by rw [hs]; rfl) (.inl rfl) ⟨rfl, rfl, rfl, rfl, rfl, rfl, rfl⟩
  | acceptSYN cap he hs hsyn hseq =>
    refine h.opening ?_ (.inr rfl) ⟨rfl, rfl, rfl, rfl, rfl, rfl, rfl⟩
    rcases hs with hs | hs <;> rw [hs] <;> rfl
  | @acceptCookie remoteSeq ourISS mss data cap m he hs =>
    refine h.establishing ?_ ⟨rfl, rfl, rfl, rfl, rfl⟩ ⟨rfl, rfl, ?_⟩
    · rcases hs with hs | hs <;> rw [hs] <;> rfl
    · show ourISS + 1 + BitVec.ofNat 32 0 = ourISS + 1
      simp
  | setup cap he ho hc =>
    exact h.opening (by rw [h.unopened ho]; rfl) (.inl rfl) ⟨rfl, rfl, rfl, rfl, rfl, rfl, rfl⟩
  | @synAckIn now seg he hs hsyn hack hlo hhi =>
    have ho : s.opened = true := by
      by_contra ho
      cases hs.symm.trans (h.unopened (by simpa using ho))
    have hlo' : seqAfter seg.ack s.sendBuf.una = true := by
      simp only [seqBeforeEq, seqAfter, decide_eq_false_iff_not, decide_eq_true_eq] at hlo ⊢
      omega
    exact h.establishing (by rw [hs]; rfl) ⟨rfl, rfl, rfl, ho, rfl⟩ (h.acknowledge_syn (.inl hs) hlo' hhi)
  | synIn he hs hsyn hack =>
    have hearly : early s.state = true := by rw [hs]; rfl
    have hbuf := (h.handshake (.inl hs)).1
    refine ⟨?_, ?_, ?_, fun _ => h.handshake (.inl hs), ?_, ?_, fun _ => .inr hbuf⟩
    · intro ho
      cases hs.symm.trans (h.unopened ho)
    · rintro (hst | hst) <;> cases hst
    · intro hc _
      obtain ⟨h1, h2, h3⟩ := h.fresh hc hearly
      refine ⟨?_, h2, h3⟩
      show State.established ∉ s.entered ++ [State.synReceived]
      simp [h1]
    · rintro (hst | hst) <;> cases hst
    · rintro _ (hst | hst) <;> cases hst
  | @synRcvdAck now seg he hs hack =>
    have ho : s.opened = true := by
      by_contra ho
      cases hs.symm.trans (h.unopened (by simpa using ho))
    obtain ⟨-, huna, hnxt⟩ := h.handshake (.inr hs)
    refine h.establishing (by rw [hs]; rfl) ⟨rfl, rfl, rfl, ho, rfl⟩ (h.acknowledge_syn (.inr hs) ?_ ?_)
    · have hone : s.iss + 1 - s.iss = 1 := by bv_omega
      rw [hack, hnxt, huna, seqAfter, hone]
      rfl
    · simp [hack, seqAfter]
  | @chunk seg n hs hp hd =>
    have hpend : s.sendBuf.unacked < s.sendBuf.buf.length := by
      have := hp
      unfold SendBuf.pending at this
      omega
    refine h.update rfl rfl rfl rfl rfl ?_ ?_ h.aligned fun _ hb => hb
    · intro he
      rw [h.buf_eq_nil hs he] at hpend
      cases hpend
    · intro _
      show (s.sendBuf.advanceSent (s.sendBuf.peekUnsent n).length).unacked ≤ s.sendBuf.buf.length
      rw [SendBuf.unacked_advanceSent]
      have := s.sendBuf.length_peekUnsent_le n
      exact le_trans (Nat.mod_le _ _) (by omega)
  | @ack now seg he hs hlo hhi =>
    obtain ⟨hpos, -, hsum⟩ := SendBuf.ack_between hlo hhi
    have hbuf : (s.sendBuf.acknowledge seg.ack).1.buf = s.sendBuf.buf.drop (seg.ack - s.sendBuf.una).toNat := by
      rw [SendBuf.acknowledge_eq hlo hhi]
      rfl
    have huna : (s.sendBuf.acknowledge seg.ack).1.una = seg.ack := by
      rw [SendBuf.acknowledge_eq hlo hhi]
      rfl
    have hunacked : (s.sendBuf.acknowledge seg.ack).1.unacked = (s.sendBuf.nxt - seg.ack).toNat := by
      rw [SendBuf.acknowledge_eq hlo hhi]
      rfl
    refine h.update rfl rfl rfl rfl rfl ?_ ?_ ?_ ?_
    · intro hearly
      cases (not_early_of_acksData hs).symm.trans hearly
    · intro hst
      have hout := h.outstanding hst
      show (s.sendBuf.acknowledge seg.ack).1.unacked ≤ (s.sendBuf.acknowledge seg.ack).1.buf.length
      rw [hunacked, hbuf, List.length_drop]
      omega
    · intro hc hst
      have hout := h.outstanding hst
      obtain ⟨hle, hal⟩ := h.aligned hc hst
      show (s.sendBuf.acknowledge seg.ack).1.buf.length ≤ s.accepted.length ∧ (s.sendBuf.acknowledge seg.ack).1.una =
        Serial.place s.dataSeq (s.accepted.length - (s.sendBuf.acknowledge seg.ack).1.buf.length)
      rw [hbuf, huna, List.length_drop]
      refine ⟨by omega, ?_⟩
      have hpos' : s.accepted.length - (s.sendBuf.buf.length - (seg.ack - s.sendBuf.una).toNat) =
          (s.accepted.length - s.sendBuf.buf.length) + (seg.ack - s.sendBuf.una).toNat := by omega
      rw [hpos', ← Serial.place_place, ← hal, Serial.place_toNat_sub]
    · intro _ hnil
      show (s.sendBuf.acknowledge seg.ack).1.buf = []
      rw [hbuf, hnil, List.drop_nil]
  | sack hs =>
    refine h.update rfl rfl rfl rfl rfl ?_ ?_ ?_ ?_
    · intro hearly
      cases (not_early_of_acksData hs).symm.trans hearly
    · intro hst
      simpa [SendBuf.unacked] using h.outstanding hst
    · intro hc hst
      simpa using h.aligned hc hst
    · intro _ hnil
      simpa using hnil
  | @write p hc hs =>
    have hnot : early s.state = false := by
      rcases hs with ⟨now, i, he, ho⟩ | ⟨now, b, he, hst⟩
      · by_contra hearly
        exact (h.fresh hc (by simpa using hearly)).1 (hres now i he ho)
      · rcases hst with hst | hst <;> rw [hst] <;> rfl
    have hw := s.sendBuf.write_eq p
    refine h.update rfl rfl rfl rfl rfl ?_ ?_ ?_ ?_
    · intro hearly
      cases hnot.symm.trans hearly
    · intro hst
      have hout := h.outstanding hst
      show (s.sendBuf.write p).1.unacked ≤ (s.sendBuf.write p).1.buf.length
      rw [hw]
      show s.sendBuf.unacked ≤ (s.sendBuf.buf ++ p.take (s.sendBuf.write p).2).length
      rw [List.length_append]
      omega
    · intro hcf hst
      obtain ⟨hle, hal⟩ := h.aligned hcf hst
      show (s.sendBuf.write p).1.buf.length ≤ (s.accepted ++ p.take (s.sendBuf.write p).2).length ∧
        (s.sendBuf.write p).1.una = Serial.place s.dataSeq
          ((s.accepted ++ p.take (s.sendBuf.write p).2).length - (s.sendBuf.write p).1.buf.length)
      rw [hw]
      show (s.sendBuf.buf ++ p.take (s.sendBuf.write p).2).length ≤ _ ∧ s.sendBuf.una = Serial.place s.dataSeq
          (_ - (s.sendBuf.buf ++ p.take (s.sendBuf.write p).2).length)
      rw [List.length_append, List.length_append, hal]
      refine ⟨by omega, ?_⟩
      congr 1
      omega
    · intro hct
      cases hc.symm.trans hct
  | @fin now seg st he hc hs ho hf =>
    have hst : st ∈ [State.finWait1, .finWait2, .closing, .lastAck, .timeWait] := by
      rcases hs with ⟨-, rfl⟩ | ⟨-, rfl⟩ | ⟨-, rfl⟩ <;> decide
    refine h.leave ?_ hst rfl rfl rfl
    rcases hs with ⟨hs, -⟩ | ⟨hs, -⟩ | ⟨hs, -⟩ <;> rw [hs] <;> decide
  | refin he hc hs ho hf =>
    refine h.leave ?_ ?_ rfl rfl rfl
    · rcases hs with hs | hs <;> rw [hs] <;> decide
    · show s.state ∈ _
      rcases hs with hs | hs <;> rw [hs] <;> decide
  | finIn he hfin hs hseq => exact h.consumeFIN
  | finDeferred he hp hs hseq => exact h.consumeFIN.congr rfl rfl rfl rfl rfl rfl rfl
  | finAcked he hs hack => exact h.leave (by rw [hs]; decide) (by show State.finWait2 ∈ _; decide) rfl rfl rfl
  | closingAcked he hs hack => exact h.leave (by rw [hs]; decide) (by show State.timeWait ∈ _; decide) rfl rfl rfl
  | shut hc =>
    refine ⟨fun _ => rfl, ?_, ?_, ?_, ?_, ?_, fun _ => .inl rfl⟩
    · rintro (hs | hs) <;> cases hs
    · intro hcf
      cases hcf
    · rintro (hs | hs) <;> cases hs
    · rintro (hs | hs) <;> cases hs
    · intro hcf
      cases hcf
  | _ => exact h.congr rfl rfl rfl rfl rfl rfl rfl

end Core

namespace Host

theorem writers_next {h h' : Host σ} {e : Event} (hn : h.next e = some h') (hw : h'.writers ≠ []) :
    h.writers ≠ [] ∨ h.conn.closed = false ∧ (h.conn.state = .established ∨ h.conn.state = .closeWait) := by
  have happ := (apply_of_next hn).1
  obtain ⟨c, -, hleft⟩ := called_of_next hn
  by_cases hnil : h.writers = []
  · right
    rcases hleft.writers with hsame | ⟨now, b, rfl⟩ | ⟨now, i, rfl⟩
    · exact absurd (hsame.trans hnil) hw
    · rw [← Option.some.inj happ] at hw
      unfold Conn.write finishWrite at hw
      split at hw
      · exact absurd hnil hw
      · rename_i hc
        refine ⟨by simpa using hc, ?_⟩
        split at hw
        · exact absurd hnil hw
        · rename_i hs
          by_contra hn
          exact hs (not_or.1 hn)
    · simp only [apply, hnil, List.getElem?_nil] at happ
      cases happ
  · exact .inl hnil

theorem send_inv {P : Host σ → Event → Prop} {h : Host σ} (hr : (system σ).Reach P h) :
    h.core.SendInv ∧ (h.writers ≠ [] → State.established ∈ h.conn.entered) := by
  refine hr.invariant (I := fun g => g.core.SendInv ∧ (g.writers ≠ [] → State.established ∈ g.conn.entered)) ?_ ?_
  · rintro g ⟨cfg, now, rfl⟩
    refine ⟨⟨fun _ => rfl, ?_, fun _ _ => ⟨List.not_mem_nil, rfl, rfl⟩, ?_, ?_, ?_, fun _ => .inl rfl⟩, ?_⟩
    · rintro (hs | hs) <;> cases hs
    · rintro (hs | hs) <;> cases hs
    · rintro (hs | hs) <;> cases hs
    · rintro _ (hs | hs) <;> cases hs
    · intro hw
      exact absurd rfl hw
  · rintro g e g' - ⟨hinv, hw⟩ - hn
    have hstart : (g.core.receive e).SendInv ∧ ∀ st ∈ g.conn.entered, st ∈ (g.core.receive e).entered := by
      cases e <;> exact ⟨hinv.congr rfl rfl rfl rfl rfl rfl rfl, fun _ => id⟩
    have key : g'.core.SendInv ∧ ∀ st ∈ g.conn.entered, st ∈ g'.core.entered := by
      refine (next_core hn).induction (I := fun s => s.SendInv ∧ ∀ st ∈ g.conn.entered, st ∈ s.entered) hstart ?_
      rintro s t ⟨hs, hent⟩ hst
      refine ⟨hs.step hst ?_, fun st hmem => hst.entered_subset st (hent st hmem)⟩
      intro now i _ ho
      exact hent _ (hw ho.2)
    refine ⟨key.1, fun hw' => key.2 _ ?_⟩
    rcases writers_next hn hw' with hold | ⟨-, hs⟩
    · exact hw hold
    · exact hinv.entered hs

theorem next_induction {P : Host σ → Event → Prop} {h h' : Host σ} {e : Event} (hr : (system σ).Reach P h)
    (hn : h.next e = some h') {I : Core → Prop} (h₀ : I (h.core.receive e))
    (hstep : ∀ s t, s.SendInv → I s → CoreStep e (h.occasion e) s t → I t) : I h'.core := by
  obtain ⟨hinv, hw⟩ := send_inv hr
  have hstart : (h.core.receive e).SendInv ∧ ∀ st ∈ h.conn.entered, st ∈ (h.core.receive e).entered := by
    cases e <;> exact ⟨hinv.congr rfl rfl rfl rfl rfl rfl rfl, fun _ => id⟩
  have key := (next_core hn).induction
    (I := fun s => I s ∧ s.SendInv ∧ ∀ st ∈ h.conn.entered, st ∈ s.entered) ⟨h₀, hstart⟩ ?_
  · exact key.1
  · rintro s t ⟨hI, hs, hent⟩ hst
    refine ⟨hstep s t hs hI hst, hs.step hst ?_, fun st hmem => hst.entered_subset st (hent st hmem)⟩
    intro now i _ ho
    exact hent _ (hw ho.2)

end Host

end Libp2px.Vtcp
