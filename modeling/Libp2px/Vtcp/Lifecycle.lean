import Libp2px.Vtcp.Refine

/-!
# What the channel of `Established` and `io.EOF` say

Two signals a connection gives to its application.  The channel of `Established` is closed when the handshake
completes, and `Connect` returns `nil` on it; `Read` returns `io.EOF` when the stream has ended.  Both are also given
when the connection is torn down, so each is shown to be true in the runs without such a teardown, and refuted by a
short run with one.
-/

namespace Libp2px.Vtcp

open Transition

variable {σ : Type} [CongestionController σ]

/-! ### The channel of `Established` -/

def Conn.tornDown (c : Conn σ) : Event → Bool
  | .segment _ seg => c.resetAccepted seg
  | .rto _ => c.exhausted
  | .abort => c.state != .closed
  | _ => false

def Host.TornDownOnceEstablished (h : Host σ) (e : Event) : Prop :=
  h.conn.tornDown e = true → State.established ∈ h.conn.entered

instance : ∀ (h : Host σ) (e : Event), Decidable (h.TornDownOnceEstablished e) := fun h e => by
  unfold Host.TornDownOnceEstablished
  infer_instance

namespace Core

/-- ESTABLISHED has been entered when the channel is closed, and in the two states where it can be closed again. -/
structure EstablishedTrue (s : Core) : Prop where
  channel : s.established = true → State.established ∈ s.entered
  state : s.state = .established ∨ s.state = .closeWait → State.established ∈ s.entered

theorem EstablishedTrue.setState {s : Core} {st : State} (h : s.EstablishedTrue)
    (hst : st = .closeWait → s.state = .established) : (s.setState st).EstablishedTrue := by
  refine ⟨fun he => ?_, ?_⟩
  · exact List.mem_append_left _ (h.channel he)
  · rintro (rfl | rfl)
    · exact List.mem_append_right _ (List.mem_singleton.2 rfl)
    · exact List.mem_append_left _ (h.state (.inl (hst rfl)))

theorem EstablishedTrue.enter {s : Core} (h : s.EstablishedTrue) (st : State) (hst : st ≠ .closeWait) :
    (s.setState st).EstablishedTrue :=
  h.setState fun hcw => absurd hcw hst

theorem EstablishedTrue.consumeFIN {s : Core} (h : s.EstablishedTrue) :
    s.consumeFIN.EstablishedTrue := by
  unfold Core.consumeFIN
  simp only
  split
  · rename_i ha
    have hst : Core.afterFIN (s.sendBuf.unacked == 0) s.state = .closeWait → s.state = .established := by
      intro hcw
      cases hs : s.state with
      | established => rfl
      | finWait1 =>
        rw [hs, Core.afterFIN] at hcw
        split at hcw <;> cases hcw
      | finWait2 => rw [hs] at hcw; cases hcw
      | _ => rw [hs] at ha; cases ha
    have h' := h.setState hst
    exact ⟨h'.channel, h'.state⟩
  · exact ⟨h.channel, h.state⟩

theorem EstablishedTrue.shut {s : Core} {est fin : Bool} (h : s.EstablishedTrue)
    (he : est = true → State.established ∈ s.entered) : (s.shut est fin).EstablishedTrue := by
  refine ⟨fun hc => List.mem_append_left _ ?_, ?_⟩
  · rcases Bool.or_eq_true_iff.1 hc with hc | hc
    · exact h.channel hc
    · exact he hc
  · rintro (hs | hs) <;> cases hs

theorem EstablishedTrue.step {e : Event} {o : Occasion} {s t : Core} (h : s.EstablishedTrue) (hst : CoreStep e o s t)
    (ht : ∀ fin, ShutCause e o s true fin → State.established ∈ s.entered) :
    t.EstablishedTrue := by
  cases hst with
  | connect cap he hs hsyn hseq =>
    have h' := h.enter .synSent (by decide)
    exact ⟨h'.channel, h'.state⟩
  | acceptSYN cap he hs hsyn hseq =>
    have h' := h.enter .synReceived (by decide)
    exact ⟨h'.channel, h'.state⟩
  | acceptCookie cap m he hs =>
    have h' := h.enter .established (by decide)
    exact ⟨fun _ => h'.state (.inl rfl), h'.state⟩
  | setup cap he ho hc =>
    have h' := h.enter .synSent (by decide)
    exact ⟨h'.channel, h'.state⟩
  | synAckIn he hs hsyn hack hlo hhi =>
    have h' := h.enter .established (by decide)
    exact ⟨h'.channel, h'.state⟩
  | synIn he hs hsyn hack =>
    have h' := h.enter .synReceived (by decide)
    exact ⟨h'.channel, h'.state⟩
  | synRcvdAck he hs hack =>
    have h' := h.enter .established (by decide)
    exact ⟨h'.channel, h'.state⟩
  | establish hs => exact ⟨fun _ => h.state (.inl hs), h.state⟩
  | @fin now seg st he hc hs ho hf =>
    have hst : st ≠ .closeWait := by
      rcases hs with ⟨-, rfl⟩ | ⟨-, rfl⟩ | ⟨-, rfl⟩ <;> decide
    have h' := h.enter st hst
    exact ⟨h'.channel, h'.state⟩
  | finIn he hfin hs hseq => exact h.consumeFIN
  | finDeferred he hp hs hseq =>
    have h' := h.consumeFIN
    exact ⟨h'.channel, h'.state⟩
  | finAcked he hs hack => exact h.enter .finWait2 (by decide)
  | closingAcked he hs hack => exact h.enter .timeWait (by decide)
  | shut hc =>
    refine h.shut fun hest => ?_
    subst hest
    exact ht _ hc
  | _ => exact ⟨h.channel, h.state⟩

end Core

/-- If teardowns come after ESTABLISHED, then the channel of `Established` is closed, and `Connect` returns `nil`,
only if the connection has entered ESTABLISHED. -/
theorem established_closed_only_after_established {h : Host σ}
    (hr : (Host.system σ).Reach Host.TornDownOnceEstablished h) :
    (h.conn.establishedClosed = true → State.established ∈ h.conn.entered) ∧
      (h.conn.connectReturnsNil = true → State.established ∈ h.conn.entered) := by
  have hinv : h.core.EstablishedTrue := by
    refine Host.reach_core hr ?_ ?_
    · intro cfg now
      refine ⟨?_, ?_⟩
      · intro hc
        cases hc
      · rintro (hs | hs) <;> cases hs
    · intro g e t hg hP hsteps
      have hent : (g.core.receive e).entered = g.conn.entered := by cases e <;> rfl
      have hstart : (g.core.receive e).EstablishedTrue := by
        cases e <;> exact ⟨hg.channel, hg.state⟩
      -- the states entered before the event stay entered during it
      have key : t.EstablishedTrue ∧ ∀ st ∈ g.conn.entered, st ∈ t.entered := by
        refine hsteps.induction (I := fun s => s.EstablishedTrue ∧ ∀ st ∈ g.conn.entered, st ∈ s.entered)
          ⟨hstart, by rw [hent]; exact fun _ => id⟩ ?_
        rintro s t ⟨hs, hmem⟩ hst
        have hend : ∀ fin, ShutCause e (g.occasion e) s true fin → State.established ∈ s.entered := by
          intro fin hc
          cases hc with
          | reset he _ _ ho =>
            obtain ⟨now, seg, rfl, hacc⟩ := ho
            exact hmem _ (hP hacc)
          | giveUp he _ _ ho =>
            subst he
            exact hmem _ (hP ho)
          | keepalive _ hst _ _ => exact hs.state hst
          | abort he _ ho =>
            subst he
            exact hmem _ (hP (bne_iff_ne.2 ho))
        exact ⟨hs.step hst hend, fun st hent => hst.entered_subset st (hmem st hent)⟩
      exact key.1
  exact ⟨hinv.channel, hinv.channel⟩

def attemptReset : List Event :=
  [.connect 0 100, .segment 0 { srcPort := 0, dstPort := 0, seq := 0, ack := 101, flags := flagRST ||| flagACK }]

theorem established_closed_only_after_established_accepted :
    (((Host.fresh {} 0 : Host SmallController).run opening).conn.connectReturnsNil = true ∧
      State.established ∈ ((Host.fresh {} 0 : Host SmallController).run opening).conn.entered) := by
  have hnil : ((Host.fresh {} 0 : Host SmallController).run opening).conn.connectReturnsNil = true := by
    decide +kernel
  exact ⟨hnil, (established_closed_only_after_established
    (Host.run_reach (by decide +kernel) (by decide +kernel))).2 hnil⟩

/-- `Connect` returns `nil` although the attempt was reset. -/
theorem connect_returns_nil_after_reset :
    ∃ h : Host SmallController, (Host.system SmallController).Reach anyStep h ∧
      h.conn.establishedClosed = true ∧ h.conn.connectReturnsNil = true ∧
      State.established ∉ h.conn.entered :=
  ⟨(Host.fresh {} 0).run attemptReset,
    Host.run_reach (by decide +kernel) (execMeets_anyStep _ _ _),
    by decide +kernel, by decide +kernel, by decide +kernel⟩

/-! ### `io.EOF` -/

def Event.keepsOpen : Event → Bool
  | .close _ => false
  | .abort => false
  | _ => true

def Conn.fails (c : Conn σ) : Event → Bool
  | .segment _ seg => c.resetAccepted seg
  | .rto _ => c.exhausted
  | .keepalive now => c.keepaliveExpired now
  | _ => false

/-- The application keeps the connection open, and nothing makes it fail. -/
def Host.Undisturbed (h : Host σ) (e : Event) : Prop := e.keepsOpen = true ∧ h.conn.fails e = false

instance : ∀ (h : Host σ) (e : Event), Decidable (h.Undisturbed e) := fun h e => by
  unfold Host.Undisturbed
  infer_instance

namespace Core

def FinReceived (s : Core) (seq : BitVec 32) : Prop :=
  ∃ f ∈ s.received, f.hasFlag flagFIN = true ∧ f.seq + f.dataLen = seq

def arrived (s : Core) : Nat := s.returned.length + s.recvBuf.buf.length

/-- The receiving side of a connection not closed by the application and not failed: `RCV.NXT` counts the bytes and
FINs in order, and CLOSE-WAIT is entered on a FIN right after these bytes. -/
structure StreamTrue (s : Core) : Prop where
  notClosed : s.closed = false
  states : s.state ∈ [State.closed, .synSent, .synReceived, .established, .closeWait]
  entered : State.timeWait ∉ s.entered
  unopened : s.opened = false → s.state = .closed
  empty : s.state = .closed ∨ s.state = .synSent → s.returned = [] ∧ s.recvBuf.buf = []
  nxt : s.recvBuf.nxt = Serial.place s.recvBuf.initialNxt (s.arrived + s.recvBuf.fins)
  before : s.state ≠ .closeWait → s.finRecvd = false ∧ s.recvBuf.fins = 0
  after : s.state = .closeWait → 0 < s.recvBuf.fins ∧ s.FinReceived (Serial.place s.recvBuf.initialNxt s.arrived)
  pending : s.finPending = true → s.FinReceived s.pendingFinSeq

theorem StreamTrue.insert {s : Core} (h : s.StreamTrue) (seq : BitVec 32) (data : List Byte)
    (hs : s.state = .synReceived ∨ s.state = .established) : (s.insert seq data).StreamTrue := by
  have hext := s.recvBuf.insert_extends seq data
  obtain ⟨b, hb, hn⟩ := hext.nxt
  refine { h with empty := ?_, nxt := ?_, before := ?_, after := ?_ }
  · intro hcl
    rcases hs with hs | hs <;> rcases hcl with hcl | hcl <;> cases hs.symm.trans hcl
  · show (s.recvBuf.insert seq data).1.nxt = _
    rw [hn, h.nxt, Serial.place_place, arrived, arrived]
    show _ = Serial.place (s.recvBuf.insert seq data).1.initialNxt
      (s.returned.length + (s.recvBuf.insert seq data).1.buf.length + (s.recvBuf.insert seq data).1.fins)
    rw [hext.initialNxt, hext.fins, hb, List.length_append]
    congr 1
    omega
  · intro hcw
    exact ⟨(h.before hcw).1, hext.fins.trans (h.before hcw).2⟩
  · intro hcw
    rcases hs with hs | hs <;> cases hs.symm.trans hcw

theorem StreamTrue.opening {s t : Core} (h : s.StreamTrue) (hs : s.state = .closed ∨ s.state = .synSent)
    (hst : t.state = .synSent ∨ t.state = .synReceived ∨ t.state = .established)
    (hent : t.entered = s.entered ++ [t.state]) (ho : t.opened = true)
    (hbuf : ∃ irs cap, t.recvBuf = newRecvBuf irs cap)
    (heq : t.closed = s.closed ∧ t.returned = s.returned ∧ t.finRecvd = s.finRecvd ∧ t.received = s.received ∧
      t.finPending = s.finPending ∧ t.pendingFinSeq = s.pendingFinSeq) : t.StreamTrue := by
  obtain ⟨irs, cap, hbuf⟩ := hbuf
  obtain ⟨hc, hret, hfin, hrec, hp, hq⟩ := heq
  have hnil := (h.empty hs).1
  have hncw : t.state ≠ .closeWait := by
    rcases hst with hst | hst | hst <;> rw [hst] <;> decide
  refine ⟨hc.trans h.notClosed, ?_, ?_, ?_, ?_, ?_, ?_, ?_, ?_⟩
  · rcases hst with hst | hst | hst <;> rw [hst] <;> decide
  · rw [hent, List.mem_append, List.mem_singleton, not_or]
    refine ⟨h.entered, ?_⟩
    rcases hst with hst | hst | hst <;> rw [hst] <;> decide
  · intro hno
    cases hno.symm.trans ho
  · intro _
    rw [hret, hbuf]
    exact ⟨hnil, rfl⟩
  · rw [arrived, hret, hnil, hbuf]
    simp [newRecvBuf]
  · intro _
    have hsncw : s.state ≠ .closeWait := by
      rcases hs with hs | hs <;> rw [hs] <;> decide
    rw [hfin, hbuf]
    exact ⟨(h.before hsncw).1, rfl⟩
  · intro hcw
    exact absurd hcw hncw
  · rw [hp, hq]
    unfold FinReceived
    rw [hrec]
    exact h.pending

theorem StreamTrue.consumeFIN {s : Core} (h : s.StreamTrue) (hs : s.state = .established ∨ s.state = .closeWait)
    (hf : s.state = .established → s.FinReceived s.recvBuf.nxt) : s.consumeFIN.StreamTrue := by
  have hnxt : s.recvBuf.consumeFIN.nxt =
      Serial.place s.recvBuf.initialNxt (s.arrived + s.recvBuf.consumeFIN.fins) := by
    show s.recvBuf.nxt + 1 = Serial.place s.recvBuf.initialNxt (s.arrived + (s.recvBuf.fins + 1))
    rw [h.nxt, ← Nat.add_assoc, Serial.place_add _ _ 1]
    rfl
  rcases hs with hs | hs
  · have heq : s.consumeFIN = { { s with recvBuf := s.recvBuf.consumeFIN }.setState .closeWait with
        finRecvd := true } := by
      simp [Core.consumeFIN, hs, awaitsFIN, afterFIN]
    have hfins := (h.before (by rw [hs]; decide)).2
    have hrec := hf hs
    rw [h.nxt, hfins, Nat.add_zero] at hrec
    rw [heq]
    refine ⟨h.notClosed, ?_, ?_, ?_, ?_, hnxt, ?_, ?_, h.pending⟩
    · show State.closeWait ∈ _
      decide
    · show State.timeWait ∉ s.entered ++ [State.closeWait]
      simp [h.entered]
    · intro ho
      cases hs.symm.trans (h.unopened ho)
    · rintro (hst | hst) <;> cases hst
    · intro hncw
      exact absurd rfl hncw
    · intro _
      exact ⟨Nat.succ_pos _, hrec⟩
  · have heq : s.consumeFIN = { s with recvBuf := s.recvBuf.consumeFIN } := by
      simp [Core.consumeFIN, hs, awaitsFIN]
    rw [heq]
    refine { h with nxt := hnxt, before := ?_, after := ?_ }
    · intro hncw
      exact absurd hs hncw
    · intro hcw
      exact ⟨Nat.succ_pos _, (h.after hcw).2⟩

theorem StreamTrue.read {s : Core} (h : s.StreamTrue) (n : Nat) :
    ({ s with recvBuf := (s.recvBuf.read n).1, returned := s.returned ++ (s.recvBuf.read n).2 } : Core).StreamTrue := by
  have harr : (s.returned ++ s.recvBuf.buf.take n).length + (s.recvBuf.buf.drop n).length = s.arrived := by
    rw [arrived, List.length_append, List.length_take, List.length_drop]
    omega
  refine { h with empty := ?_, nxt := ?_, after := ?_ }
  · intro hs
    obtain ⟨hret, hbuf⟩ := h.empty hs
    show s.returned ++ s.recvBuf.buf.take n = [] ∧ s.recvBuf.buf.drop n = []
    simp [hret, hbuf]
  · show s.recvBuf.nxt = Serial.place s.recvBuf.initialNxt
      ((s.returned ++ s.recvBuf.buf.take n).length + (s.recvBuf.buf.drop n).length + s.recvBuf.fins)
    rw [harr, h.nxt]
  · intro hcw
    refine ⟨(h.after hcw).1, ?_⟩
    show s.FinReceived (Serial.place s.recvBuf.initialNxt
      ((s.returned ++ s.recvBuf.buf.take n).length + (s.recvBuf.buf.drop n).length))
    rw [harr]
    exact (h.after hcw).2

theorem StreamTrue.step {e : Event} {o : Occasion} {s t : Core} (h : s.StreamTrue) (hst : CoreStep e o s t)
    (hk : e.keepsOpen = true) (hno : ∀ est fin, ¬ShutCause e o s est fin)
    (hrec : ∀ now seg, e = .segment now seg → seg ∈ s.received) : t.StreamTrue := by
  have hnot : ∀ st, s.state = st → st ∉ [State.closed, .synSent, .synReceived, .established, .closeWait] → False := by
    rintro st rfl hst
    exact hst h.states
  have hclosed : s.state = .closed ∨ s.state = .listen → s.state = .closed := by
    rintro (hs | hs)
    · exact hs
    · exact (hnot _ hs (by decide)).elim
  cases hst with
  | connect cap he hs hsyn hseq =>
    exact h.opening (.inl hs) (.inl rfl) rfl rfl ⟨0, _, rfl⟩ ⟨rfl, rfl, rfl, rfl, rfl, rfl⟩
  | @acceptSYN now iss seg syn cap he hs hsyn hseq =>
    have hopen := h.opening
      (t := (((s.negotiate seg.options).openBufs cap iss (seg.seq + 1) 1).setState .synReceived).emit syn)
      (.inl (hclosed hs)) (.inr (.inl rfl)) rfl rfl ⟨_, _, rfl⟩ ⟨rfl, rfl, rfl, rfl, rfl, rfl⟩
    exact hopen.insert _ _ (.inl rfl)
  | @acceptCookie remoteSeq ourISS mss data cap m he hs =>
    have hopen := h.opening (t := (s.openBufs cap (ourISS + 1) remoteSeq 0).setState .established)
      (.inl (hclosed hs)) (.inr (.inr rfl)) rfl rfl ⟨_, _, rfl⟩ ⟨rfl, rfl, rfl, rfl, rfl, rfl⟩
    have h' := hopen.insert remoteSeq data (.inr rfl)
    exact { h' with }
  | setup cap he ho hc =>
    exact h.opening (.inl (h.unopened ho)) (.inl rfl) rfl rfl ⟨0, _, rfl⟩ ⟨rfl, rfl, rfl, rfl, rfl, rfl⟩
  | @synAckIn now seg he hs hsyn hack hlo hhi =>
    have ho : s.opened = true := by
      by_contra ho
      cases hs.symm.trans (h.unopened (by simpa using ho))
    have hopen := h.opening (t := { (s.negotiate seg.options).setState .established with
      sendBuf := (s.sendBuf.acknowledge seg.ack).1, recvBuf := newRecvBuf (seg.seq + 1) s.recvBufCap })
      (.inr hs) (.inr (.inr rfl)) rfl ho ⟨_, _, rfl⟩ ⟨rfl, rfl, rfl, rfl, rfl, rfl⟩
    exact hopen.insert _ _ (.inr rfl)
  | @synIn now seg he hs hsyn hack =>
    have ho : s.opened = true := by
      by_contra ho
      cases hs.symm.trans (h.unopened (by simpa using ho))
    have hopen := h.opening (t := { (s.negotiate seg.options).setState .synReceived with
      recvBuf := newRecvBuf (seg.seq + 1) s.recvBufCap })
      (.inr hs) (.inr (.inl rfl)) rfl ho ⟨_, _, rfl⟩ ⟨rfl, rfl, rfl, rfl, rfl, rfl⟩
    exact hopen.insert _ _ (.inl rfl)
  | synRcvdAck he hs hack =>
    have hbefore := h.before (by rw [hs]; decide)
    refine ⟨h.notClosed, ?_, ?_, ?_, ?_, h.nxt, fun _ => hbefore, ?_, h.pending⟩
    · show State.established ∈ _
      decide
    · show State.timeWait ∉ s.entered ++ [State.established]
      simp [h.entered]
    · intro ho
      cases hs.symm.trans (h.unopened ho)
    · rintro (hst | hst) <;> cases hst
    · intro hst
      cases hst
  | fin he hc hs ho hf =>
    subst he
    cases hk
  | refin he hc hs ho hf =>
    rcases hs with hs | hs
    · exact (hnot _ hs (by decide)).elim
    · exact (hnot _ hs (by decide)).elim
  | insert he hs =>
    rcases hs with hs | hs | hs
    · exact h.insert _ _ (.inr hs)
    · exact (hnot _ hs (by decide)).elim
    · exact (hnot _ hs (by decide)).elim
  | @finIn now seg he hfin hs hseq =>
    refine h.consumeFIN ?_ fun _ => ⟨seg, hrec now seg he, hfin, hseq⟩
    have hstates := h.states
    cases hst : s.state <;> simp_all [seesFIN, awaitsFIN]
  | @finDefer now seg he hfin =>
    exact { h with pending := fun _ => ⟨seg, hrec now seg he, hfin, rfl⟩ }
  | finDeferred he hp hs hseq =>
    have hs' : s.state = .established := by
      rcases hs with hs | hs | hs
      · exact hs
      · exact (hnot _ hs (by decide)).elim
      · exact (hnot _ hs (by decide)).elim
    have h' := h.consumeFIN (.inl hs') fun _ => hseq ▸ h.pending hp
    exact { h' with pending := fun hp => by cases hp }
  | finAcked he hs hack => exact (hnot _ hs (by decide)).elim
  | closingAcked he hs hack => exact (hnot _ hs (by decide)).elim
  | read he ho => exact h.read _
  | shut hc => exact (hno _ _ hc).elim
  | _ => exact { h with }

theorem StreamTrue.not_shut {g : Host σ} {e : Event} {s : Core} (h : s.StreamTrue) (hP : g.Undisturbed e)
    (est fin : Bool) : ¬ShutCause e (g.occasion e) s est fin := by
  obtain ⟨hk, hf⟩ := hP
  intro hc
  cases hc with
  | reset he _ _ ho =>
    obtain ⟨now, seg, rfl, hacc⟩ := ho
    cases hf.symm.trans hacc
  | lastAck _ hs _ =>
    have := h.states
    rw [hs] at this
    exact absurd this (by decide)
  | giveUp he _ _ ho =>
    subst he
    cases hf.symm.trans ho
  | timeWait _ hs => exact h.entered hs
  | keepalive he _ _ ho =>
    obtain ⟨now, rfl, hexp⟩ := ho
    cases hf.symm.trans hexp
  | close he _ _ =>
    subst he
    cases hk
  | abort he _ _ =>
    subst he
    cases hk

theorem StreamTrue.fresh (cfg : ConnConfig) (now : Int) : (Host.fresh cfg now : Host σ).core.StreamTrue := by
  refine ⟨rfl, ?_, ?_, fun _ => rfl, fun _ => ⟨rfl, rfl⟩, ?_, fun _ => ⟨rfl, rfl⟩, ?_, ?_⟩
  · show State.closed ∈ _
    decide
  · exact List.not_mem_nil
  · rfl
  · intro hcw
    cases hcw
  · intro hp
    cases hp

theorem StreamTrue.steps {g : Host σ} {e : Event} {t : Core} (h : g.core.StreamTrue) (hP : g.Undisturbed e)
    (hst : CoreSteps e (g.occasion e) (g.core.receive e) t) : t.StreamTrue := by
  -- during the event its segment is among the received ones
  have hmono : ∀ seq, g.core.FinReceived seq → (g.core.receive e).FinReceived seq := by
    rintro seq ⟨f, hf, hr⟩
    refine ⟨f, ?_, hr⟩
    cases e <;> first | exact hf | exact List.mem_append_left _ hf
  have hstart : (g.core.receive e).StreamTrue := by
    have hpend := fun hp => hmono _ (h.pending hp)
    have hafter := fun hcw => And.intro (h.after hcw).1 (hmono _ (h.after hcw).2)
    cases e <;> exact { h with after := hafter, pending := hpend }
  have hrec : ∀ now seg, e = .segment now seg → seg ∈ (g.core.receive e).received := by
    rintro now seg rfl
    exact List.mem_append_right _ (List.mem_singleton.2 rfl)
  have key : t.StreamTrue ∧ ∀ now seg, e = .segment now seg → seg ∈ t.received := by
    refine hst.induction (I := fun s => s.StreamTrue ∧ ∀ now seg, e = .segment now seg → seg ∈ s.received)
      ⟨hstart, hrec⟩ ?_
    rintro s t ⟨hs, hr⟩ hstep
    refine ⟨hs.step hstep hP.1 (hs.not_shut hP) hr, ?_⟩
    rw [hstep.received]
    exact hr
  exact key.1

end Core

omit [CongestionController σ] in
theorem Conn.read_eof {c : Conn σ} {now : Int} {n : Nat} (h : (c.read now n).2 = .eof) :
    (c.opened = false ∨ c.recvBuf.buf = []) ∧ (c.closed = true ∨ c.finRecvdClosed = true) := by
  unfold Conn.read at h
  split at h
  · rename_i hempty
    refine ⟨?_, ?_⟩
    · rcases hempty with ho | hb
      · exact .inl (by simpa using ho)
      · exact .inr (List.eq_nil_of_length_eq_zero hb)
    · split at h
      · exact .inl ‹_›
      · split at h
        · exact .inr ‹_›
        · split at h
          · split at h <;> cases h
          · cases h
  · cases h

/-- In an undisturbed run `Read` returns `io.EOF` only when a FIN of the peer has been consumed in order and every
byte before it has been returned. -/
theorem eof_only_after_fin {h : Host σ} (hr : (Host.system σ).Reach Host.Undisturbed h) (now : Int) (n : Nat)
    (heof : (h.conn.read now n).2 = .eof) :
    h.conn.recvBuf.buf = [] ∧ 0 < h.conn.recvBuf.fins ∧
      h.conn.recvBuf.nxt = Serial.place h.conn.recvBuf.initialNxt (h.returned.length + h.conn.recvBuf.fins) ∧
      ∃ f ∈ h.received, f.hasFlag flagFIN = true ∧
        f.seq + f.dataLen = Serial.place h.conn.recvBuf.initialNxt h.returned.length := by
  have hinv : h.core.StreamTrue := Host.reach_core hr Core.StreamTrue.fresh fun g e t hg hP hst => hg.steps hP hst
  obtain ⟨hempty, hend⟩ := Conn.read_eof heof
  have hfin : h.conn.finRecvdClosed = true := by
    rcases hend with hend | hend
    · cases hinv.notClosed.symm.trans hend
    · exact hend
  have hcw : h.conn.state = .closeWait := by
    by_contra hncw
    cases (hinv.before hncw).1.symm.trans hfin
  have hbuf : h.conn.recvBuf.buf = [] := by
    rcases hempty with ho | hbuf
    · cases hcw.symm.trans (hinv.unopened ho)
    · exact hbuf
  have harr : h.core.arrived = h.returned.length := by
    show h.returned.length + h.conn.recvBuf.buf.length = _
    rw [hbuf, List.length_nil, Nat.add_zero]
  obtain ⟨hpos, hrec⟩ := hinv.after hcw
  have hnxt := hinv.nxt
  rw [harr] at hrec hnxt
  exact ⟨hbuf, hpos, hnxt, hrec⟩

/-- A stream of two bytes that ends with a FIN, read to the end. -/
def streamEnded : List Event :=
  opening ++
    [.segment 0 { srcPort := 0, dstPort := 0, seq := 701, ack := 101, flags := flagACK, window := 1000,
                  payload := [7, 8] },
      .segment 0 { srcPort := 0, dstPort := 0, seq := 703, ack := 101, flags := flagFIN ||| flagACK, window := 1000 },
      .read 0 10]

def streamReset : List Event :=
  opening ++ [.segment 0 { srcPort := 0, dstPort := 0, seq := 701, flags := flagRST }]

theorem eof_only_after_fin_streamEnded :
    ((((Host.fresh {} 0 : Host SmallController).run streamEnded).conn.read 0 10).2 = .eof ∧
      ∃ f ∈ ((Host.fresh {} 0 : Host SmallController).run streamEnded).received, f.hasFlag flagFIN = true) := by
  have heof : (((Host.fresh {} 0 : Host SmallController).run streamEnded).conn.read 0 10).2 = .eof := by
    decide +kernel
  obtain ⟨-, -, -, f, hf, hfin, -⟩ :=
    eof_only_after_fin (Host.run_reach (by decide +kernel) (by decide +kernel)) 0 10 heof
  exact ⟨heof, f, hf, hfin⟩

/-- `Read` returns `io.EOF` on a connection that was reset, with no FIN received; `Write` reports an error there. -/
theorem eof_after_reset :
    ∃ h : Host SmallController, (Host.system SmallController).Reach (fun _ e => e.keepsOpen = true) h ∧
      (h.conn.read 0 10).2 = .eof ∧ h.conn.recvBuf.fins = 0 ∧ (∀ f ∈ h.received, f.hasFlag flagFIN = false) ∧
      (h.conn.write 0 [1]).2.2 = .connClosed 0 :=
  ⟨(Host.fresh {} 0).run streamReset, Host.run_reach (by decide +kernel) (by decide +kernel),
    by decide +kernel, by decide +kernel, by decide +kernel, by decide +kernel⟩

end Libp2px.Vtcp
