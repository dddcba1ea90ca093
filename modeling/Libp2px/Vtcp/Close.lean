import Libp2px.Vtcp.Flush

/-!
# The FIN

`Close` queues the FIN at `SND.NXT`, so the FIN stands after every accepted byte when the bytes before it have all been
sent.  When the flush of `Close` sends everything, no data that comes after the FIN is ever sent.
-/

namespace Libp2px.Vtcp

open Transition

variable {σ : Type} [CongestionController σ]

/-! ### Nothing is sent after the FIN -/

/-- Nothing stays unsent when `Close` is called now: no `Write` waits, and the flush of `Close` in ESTABLISHED sends
what is pending. The buffer and the FIN fit in the sequence space. -/
def Host.Drained (h : Host σ) : Prop :=
  h.writers = [] ∧ h.conn.sendBuf.buf.length + 1 < 2 ^ 32 ∧
    (h.conn.sendBuf.pending ≤ 0 ∨ h.conn.state = .established ∧ h.conn.FlushesAll)

def Conn.closes (c : Conn σ) : Event → Bool
  | .close _ => !c.closed && (c.state == .established || c.state == .closeWait)
  | _ => false

/-- `Close` in ESTABLISHED or CLOSE-WAIT finds nothing that stays unsent, and a FIN is not repeated with the whole
sequence space outstanding. -/
def Host.ClosesDrained (h : Host σ) (e : Event) : Prop :=
  (h.conn.closes e = true → h.Drained) ∧ (h.conn.repeatsFIN e = true → h.conn.sendBuf.unacked + 1 < 2 ^ 32)

instance (h : Host σ) (e : Event) : Decidable (h.ClosesDrained e) := by
  unfold Host.ClosesDrained Host.Drained
  infer_instance

namespace Core

def closingStates : List State := [.finWait1, .finWait2, .closing, .lastAck, .timeWait]

/-- A connection that has sent its FIN with number `fin` after `n` packets and `m` bytes: all that is buffered has
been sent and ends before the FIN, and so does the data of later packets. -/
structure Finished (fin : BitVec 32) (m n : Nat) (s : Core) : Prop where
  opened : s.opened = true
  state : s.closed = false → s.state ∈ closingStates
  sent : s.closed = false → s.sendBuf.buf.length ≤ s.sendBuf.unacked
  placed : s.closed = false → s.sendBuf.buf = [] ∨
    s.sendBuf.buf.length ≤ m ∧ (fin - s.sendBuf.una).toNat = s.sendBuf.buf.length
  reopened : s.closed = true → s.state = .closed ∨ s.sendBuf.buf = []
  length : n ≤ s.emitted.length
  later : ∀ q ∈ s.emitted.drop n, q.seg.payload ≠ [] →
    q.seg.payload.length ≤ (fin - q.seg.seq).toNat ∧ (fin - q.seg.seq).toNat ≤ m

variable {fin : BitVec 32} {m n : Nat}

theorem Finished.packet {s t : Core} (h : s.Finished fin m n) (p : Packet) (ht : t = { s with emitted := t.emitted })
    (hem : t.emitted = s.emitted ++ [p])
    (hp : p.seg.payload ≠ [] →
      p.seg.payload.length ≤ (fin - p.seg.seq).toNat ∧ (fin - p.seg.seq).toNat ≤ m) : t.Finished fin m n := by
  rw [ht]
  refine { h with length := ?_, later := ?_ }
  · show n ≤ t.emitted.length
    have := h.length
    rw [hem, List.length_append]
    omega
  · show ∀ q ∈ t.emitted.drop n, _
    rw [hem, List.drop_append_of_le_length h.length]
    intro q hq
    rcases List.mem_append.1 hq with hq | hq
    · exact h.later q hq
    · rw [List.mem_singleton.1 hq]
      exact hp

theorem Finished.emit {s : Core} (h : s.Finished fin m n) (seg : Segment) (hp : seg.payload = []) :
    (s.emit seg).Finished fin m n :=
  h.packet ⟨seg, s.sendBuf.pos seg.seq, s.freeSpace⟩ rfl rfl fun hne => absurd hp hne

theorem Finished.congr {s t : Core} (h : s.Finished fin m n) (hst : s.closed = false → t.state ∈ closingStates)
    (hcl : s.closed = true → s.state = .closed → t.state = .closed) (ho : t.opened = s.opened)
    (hc : t.closed = s.closed) (hsb : t.sendBuf = s.sendBuf) (hem : t.emitted = s.emitted) : t.Finished fin m n := by
  refine ⟨?_, ?_, ?_, ?_, ?_, ?_, ?_⟩
  · rw [ho]; exact h.opened
  · rw [hc]; exact hst
  · rw [hc, hsb]; exact h.sent
  · rw [hc, hsb]; exact h.placed
  · rw [hc, hsb]
    exact fun hct => (h.reopened hct).imp_left (hcl hct)
  · rw [hem]; exact h.length
  · rw [hem]; exact h.later

theorem Finished.ended {s t : Core} (h : s.Finished fin m n) (hc : t.closed = true) (ho : t.opened = true)
    (hbuf : t.state = .closed ∨ t.sendBuf.buf = []) (hem : t.emitted = s.emitted) : t.Finished fin m n := by
  have hno : t.closed = false → False := fun hcf => by cases hc.symm.trans hcf
  refine ⟨ho, fun hcf => (hno hcf).elim, fun hcf => (hno hcf).elim, fun hcf => (hno hcf).elim, fun _ => hbuf, ?_, ?_⟩
  · rw [hem]; exact h.length
  · rw [hem]; exact h.later

theorem Finished.closed_of {s : Core} (h : s.Finished fin m n) {st : State} (hs : s.state = st)
    (hst : st ∉ closingStates) : s.closed = true := by
  by_contra hc
  exact hst (hs ▸ h.state (by simpa using hc))

theorem afterFIN_closing {st : State} (b : Bool) (h : st ∈ closingStates) : afterFIN b st ∈ closingStates := by
  have key : ∀ st ∈ closingStates, ∀ b, afterFIN b st ∈ closingStates := by decide
  exact key st h b

theorem Finished.consumeFIN {s : Core} (h : s.Finished fin m n) : s.consumeFIN.Finished fin m n := by
  unfold Core.consumeFIN
  simp only
  split
  · rename_i ha
    refine h.congr (fun hc => afterFIN_closing _ (h.state hc)) ?_ rfl rfl rfl rfl
    intro _ hs
    rw [hs] at ha
    cases ha
  · exact h.congr h.state (fun _ => id) rfl rfl rfl rfl

theorem Finished.pending_le {s : Core} (h : s.Finished fin m n) (hs : s.closed = false ∨ s.state ≠ .closed) :
    s.sendBuf.pending ≤ 0 := by
  unfold SendBuf.pending
  by_cases hc : s.closed = false
  · have := h.sent hc
    omega
  · have hnil := (h.reopened (by simpa using hc)).resolve_left (hs.resolve_left hc)
    rw [hnil]
    simp

theorem Finished.ack {s : Core} {seg : Segment} (h : s.Finished fin m n) (hs : acksData s.state = true)
    (hlo : seqAfter seg.ack s.sendBuf.una = true) (hhi : seqAfter seg.ack s.sendBuf.nxt = false) :
    ({ s with sendBuf := (s.sendBuf.acknowledge seg.ack).1 } : Core).Finished fin m n := by
  obtain ⟨-, -, hsum⟩ := SendBuf.ack_between hlo hhi
  rw [SendBuf.acknowledge_eq hlo hhi]
  generalize hd : (seg.ack - s.sendBuf.una).toNat = d at hsum
  have hack : seg.ack = s.sendBuf.una + BitVec.ofNat 32 d := by
    rw [← hd]
    bv_omega
  refine ⟨h.opened, h.state, ?_, ?_, ?_, h.length, h.later⟩
  · intro hc
    have := h.sent hc
    show (s.sendBuf.buf.drop d).length ≤ (s.sendBuf.nxt - seg.ack).toNat
    rw [List.length_drop]
    omega
  · intro hc
    show s.sendBuf.buf.drop d = [] ∨
      (s.sendBuf.buf.drop d).length ≤ m ∧ (fin - seg.ack).toNat = (s.sendBuf.buf.drop d).length
    rcases h.placed hc with hnil | ⟨hm, hdist⟩
    · left
      rw [hnil, List.drop_nil]
    · by_cases hle : s.sendBuf.buf.length ≤ d
      · left
        exact List.drop_eq_nil_of_le hle
      · right
        rw [List.length_drop]
        refine ⟨by omega, ?_⟩
        rw [hack]
        bv_omega
  · intro hc
    right
    show s.sendBuf.buf.drop d = []
    rw [(h.reopened hc).resolve_left, List.drop_nil]
    intro hcl
    have hcl' : s.state = .closed := hcl
    rw [hcl'] at hs
    cases hs

theorem Finished.step {e : Event} {o : Occasion} {s t : Core} (h : s.Finished fin m n)
    (hst : CoreStep e o s t) (hres : ∀ st, ¬o.resume st) (hwrap : ∀ sb, o.repeatFIN sb → sb.unacked + 1 < 2 ^ 32) :
    t.Finished fin m n := by
  cases hst with
  | connect cap he hs hsyn hseq =>
    have hc := h.closed_of hs (by decide)
    exact Finished.emit (s := (s.openBufs cap _ 0 1).setState .synSent) (h.ended hc rfl (.inr rfl) rfl) _ hsyn.payload
  | @acceptSYN now iss seg syn cap he hs hsyn hseq =>
    have hc : s.closed = true := by
      rcases hs with hs | hs
      · exact h.closed_of hs (by decide)
      · exact h.closed_of hs (by decide)
    have hopen : (((s.negotiate seg.options).openBufs cap iss (seg.seq + 1) 1).setState .synReceived).Finished fin m n :=
      h.ended hc rfl (.inr rfl) rfl
    have hemit := hopen.emit syn hsyn.payload
    exact hemit.congr hemit.state (fun _ => id) rfl rfl rfl rfl
  | acceptCookie cap m' he hs =>
    have hc : s.closed = true := by
      rcases hs with hs | hs
      · exact h.closed_of hs (by decide)
      · exact h.closed_of hs (by decide)
    exact h.ended hc rfl (.inr rfl) rfl
  | setup cap he ho hc => cases h.opened.symm.trans ho
  | synAckIn he hs hsyn hack hlo hhi =>
    have hc := h.closed_of hs (by decide)
    have hbuf := (h.reopened hc).resolve_left (by rw [hs]; decide)
    exact h.ended hc h.opened (.inr (SendBuf.acknowledge_buf_nil hbuf _)) rfl
  | synIn he hs hsyn hack =>
    have hc := h.closed_of hs (by decide)
    have hbuf := (h.reopened hc).resolve_left (by rw [hs]; decide)
    exact h.ended hc h.opened (.inr hbuf) rfl
  | synRcvdAck he hs hack =>
    have hc := h.closed_of hs (by decide)
    have hbuf := (h.reopened hc).resolve_left (by rw [hs]; decide)
    exact h.ended hc h.opened (.inr (SendBuf.acknowledge_buf_nil hbuf _)) rfl
  | establish hs => exact h.congr h.state (fun _ => id) rfl rfl rfl rfl
  | syn hs hsyn hseq => exact h.emit _ hsyn.payload
  | control hctl => exact h.emit _ hctl.payload
  | chunk hs hp hd =>
    have := h.pending_le hs
    omega
  | @rexmit seg k data hs ho hd hdata =>
    refine h.packet ⟨seg, s.sendBuf.pos seg.seq, s.freeSpace⟩ rfl rfl ?_
    intro _
    have hlen := (SendBuf.retransmitData_length hd).2
    have hne : s.sendBuf.buf ≠ [] := by
      intro hnil
      rw [hnil] at hlen
      exact hdata.nonempty (List.eq_nil_of_length_eq_zero (Nat.le_zero.1 hlen))
    have hc : s.closed = false := by
      by_contra hc
      exact hne ((h.reopened (by simpa using hc)).resolve_left (hs.resolve_left hc))
    obtain ⟨hm, hdist⟩ := (h.placed hc).resolve_left hne
    show seg.payload.length ≤ (fin - seg.seq).toNat ∧ (fin - seg.seq).toNat ≤ m
    rw [hdata.seq, hdata.payload, hdist]
    exact ⟨hlen, hm⟩
  | ack he hs hlo hhi => exact h.ack hs hlo hhi
  | sack hs =>
    refine ⟨h.opened, h.state, ?_, ?_, ?_, h.length, h.later⟩
    · simpa [SendBuf.unacked] using h.sent
    · simpa using h.placed
    · simpa using h.reopened
  | write hc hs =>
    rcases hs with ⟨now, i, he, ho⟩ | ⟨now, b, he, hs⟩
    · exact absurd ho (hres _)
    · have : s.closed = true := by
        rcases hs with hs | hs
        · exact h.closed_of hs (by decide)
        · exact h.closed_of hs (by decide)
      cases hc.symm.trans this
  | fin he hc hs ho hf =>
    have : s.closed = true := by
      rcases hs with ⟨hs, -⟩ | ⟨hs, -⟩ | ⟨hs, -⟩
      · exact h.closed_of hs (by decide)
      · exact h.closed_of hs (by decide)
      · exact h.closed_of hs (by decide)
    cases hc.symm.trans this
  | @refin now seg he hc hs ho hf =>
    have hemit := h.emit seg hf.payload
    refine { h with sent := ?_, length := hemit.length, later := hemit.later }
    intro _
    have := h.sent hc
    show s.sendBuf.buf.length ≤ (s.sendBuf.advanceSent 1).unacked
    rw [SendBuf.unacked_advanceSent, Nat.mod_eq_of_lt (hwrap _ ho)]
    omega
  | finIn he hfin hs hseq => exact h.consumeFIN
  | finDeferred he hp hs hseq =>
    have hfin := h.consumeFIN
    exact hfin.congr hfin.state (fun _ => id) rfl rfl rfl rfl
  | finAcked he hs hack =>
    refine h.congr (fun _ => by show State.finWait2 ∈ _; decide) ?_ rfl rfl rfl rfl
    intro _ hcl
    cases hs.symm.trans hcl
  | closingAcked he hs hack =>
    refine h.congr (fun _ => by show State.timeWait ∈ _; decide) ?_ rfl rfl rfl rfl
    intro _ hcl
    cases hs.symm.trans hcl
  | shut hcause => exact h.ended rfl h.opened (.inl rfl) rfl
  | _ => exact h.congr h.state (fun _ => id) rfl rfl rfl rfl

end Core

namespace Conn

theorem close_eq {c : Conn σ} (now : Int) (hc : c.closed = false)
    (hs : c.state = .established ∨ c.state = .closeWait) :
    ∃ st ∈ Core.closingStates, close now c =
      (queueFIN now ((c.beforeFIN now).setState st)).startRTO.broadcastRecv.broadcastSend := by
  rcases hs with hs | hs
  · refine ⟨.finWait1, by decide, ?_⟩
    unfold close beforeFIN
    rw [hc, hs]
    rfl
  · refine ⟨.lastAck, by decide, ?_⟩
    unfold close beforeFIN
    rw [hc, hs]
    rfl

theorem beforeFIN_drained {c : Conn σ} (now : Int) (hu : c.sendBuf.unacked ≤ c.sendBuf.buf.length)
    (hd : c.sendBuf.pending ≤ 0 ∨ c.state = .established ∧ c.FlushesAll) :
    (c.beforeFIN now).closed = c.closed ∧ (c.beforeFIN now).opened = c.opened ∧
      (c.beforeFIN now).sendBuf.buf = c.sendBuf.buf ∧ (c.beforeFIN now).sendBuf.una = c.sendBuf.una ∧
      (c.beforeFIN now).sendBuf.unacked = c.sendBuf.buf.length := by
  unfold beforeFIN
  split
  · have hall : c.FlushesAll := hd.elim .inl And.right
    have hun := flushSendQueue_all now c hu hall
    rw [flushSendQueue_frame] at hun ⊢
    exact ⟨rfl, rfl, rfl, rfl, hun⟩
  · rename_i hs
    have hp := hd.resolve_right fun h => hs h.1
    unfold SendBuf.pending at hp
    exact ⟨rfl, rfl, rfl, rfl, by omega⟩

end Conn

namespace Host

omit [CongestionController σ] in
theorem emitted_finish (h : Host σ) (c : Conn σ) : (h.finish c).core.emitted = (h.finish c).sent := by
  simp [core, coreWith, finish]

theorem finished_close {P : Host σ → Event → Prop} {h₀ h₁ : Host σ} {now : Int} (hr : (system σ).Reach P h₀)
    (hs : h₀.conn.state = .established ∨ h₀.conn.state = .closeWait) (hc : h₀.conn.closed = false)
    (hd : h₀.Drained) (hn : h₀.next (.close now) = some h₁) :
    ∃ pre fin, h₁.sent = h₀.sent ++ pre ++ [fin] ∧ fin.seg.hasFlag flagFIN = true ∧
      fin.seg.seq = Serial.place (h₀.conn.iss + 1) h₀.accepted.length ∧ h₁.writers = [] ∧
      h₁.core.Finished fin.seg.seq h₀.conn.sendBuf.buf.length h₁.sent.length := by
  obtain ⟨hw, hlt, hpend⟩ := hd
  have hinv := (send_inv hr).1
  have hu := hinv.outstanding hs
  obtain ⟨hlen, hal⟩ := hinv.aligned hc hs
  have hopen : h₀.conn.opened = true := by
    by_contra ho
    have hcl : h₀.conn.state = .closed := hinv.unopened (Bool.not_eq_true _ ▸ ho)
    rcases hs with hs | hs <;> cases hs.symm.trans hcl
  obtain ⟨hcl, hop, hbuf, huna, hun⟩ := Conn.beforeFIN_drained (c := h₀.conn) now hu hpend
  obtain ⟨st, hst, hclose⟩ := Conn.close_eq (c := h₀.conn) now hc hs
  have happ := Option.some.inj (apply_of_next hn).1
  rw [hclose] at happ
  generalize h₀.conn.beforeFIN now = d at hcl hop hbuf huna hun happ
  have hnxt : d.sendBuf.nxt = Serial.place (h₀.conn.iss + 1) h₀.accepted.length := by
    rw [← SendBuf.place_una_unacked, hun, huna]
    have hal' : h₀.conn.sendBuf.una =
        Serial.place (h₀.conn.iss + 1) (h₀.accepted.length - h₀.conn.sendBuf.buf.length) := hal
    have hlen' : h₀.conn.sendBuf.buf.length ≤ h₀.accepted.length := hlen
    rw [hal', Serial.place_place, Nat.sub_add_cancel hlen']
  refine ⟨d.outgoing, ⟨d.ackSegment now d.sendBuf.nxt (flagFIN ||| flagACK) [], d.sendBuf.pos d.sendBuf.nxt, d.freeSpace⟩,
    ?_, (Conn.isFin_fin d now _).fin, hnxt, ?_, ?_⟩
  · rw [← happ, List.append_assoc]
    rfl
  · rw [← happ]
    exact hw
  · have hone : (d.sendBuf.advanceSent 1).unacked = h₀.conn.sendBuf.buf.length + 1 := by
      rw [SendBuf.unacked_advanceSent, hun, Nat.mod_eq_of_lt hlt]
    rw [← happ]
    refine ⟨hop.trans hopen, fun _ => hst, ?_, ?_, ?_, ?_, ?_⟩
    · intro _
      show d.sendBuf.buf.length ≤ (d.sendBuf.advanceSent 1).unacked
      rw [hbuf, hone]
      exact Nat.le_succ _
    · intro _
      right
      show d.sendBuf.buf.length ≤ _ ∧ (d.sendBuf.nxt - d.sendBuf.una).toNat = d.sendBuf.buf.length
      rw [hbuf]
      exact ⟨le_rfl, hun⟩
    · intro hct
      cases (hcl.trans hc).symm.trans hct
    · rw [emitted_finish]
    · rw [emitted_finish, List.drop_length]
      intro q hq
      cases hq

/-- If a `Close` leaves nothing unsent, its FIN in ESTABLISHED or CLOSE-WAIT comes after every accepted byte, and the
data of later packets comes before it. -/
theorem close_loses_nothing {h₀ h₁ h : Host σ} {now : Int} (hr : (system σ).Reach ClosesDrained h₀)
    (hs : h₀.conn.state = .established ∨ h₀.conn.state = .closeWait) (hc : h₀.conn.closed = false)
    (hP : h₀.ClosesDrained (.close now)) (hn : h₀.next (.close now) = some h₁)
    (hlater : (system σ).Steps ClosesDrained h₁ h) :
    ∃ pre fin, h₁.sent = h₀.sent ++ pre ++ [fin] ∧ fin.seg.hasFlag flagFIN = true ∧
      fin.seg.seq = Serial.place (h₀.conn.iss + 1) h₀.accepted.length ∧
      ∀ q ∈ h.sent.drop h₁.sent.length, q.seg.payload ≠ [] →
        q.seg.payload.length ≤ (fin.seg.seq - q.seg.seq).toNat ∧
          (fin.seg.seq - q.seg.seq).toNat ≤ h₀.conn.sendBuf.buf.length := by
  have hclose : h₀.conn.closes (.close now) = true := by
    rcases hs with hs | hs <;> simp [Conn.closes, hc, hs]
  obtain ⟨pre, fin, hsent, hflag, hseq, hw, hfin⟩ := finished_close hr hs hc (hP.1 hclose) hn
  refine ⟨pre, fin, hsent, hflag, hseq, ?_⟩
  have key : h.writers = [] ∧ h.core.Finished fin.seg.seq h₀.conn.sendBuf.buf.length h₁.sent.length := by
    refine hlater.induction
      (I := fun g => g.writers = [] ∧ g.core.Finished fin.seg.seq h₀.conn.sendBuf.buf.length h₁.sent.length)
      ⟨hw, hfin⟩ ?_
    rintro g e g' ⟨hgw, hg⟩ hgP hgn
    have hstart : (g.core.receive e).Finished fin.seg.seq h₀.conn.sendBuf.buf.length h₁.sent.length := by
      cases e <;> exact hg.congr hg.state (fun _ => id) rfl rfl rfl rfl
    constructor
    · by_contra hne
      rcases writers_next hgn hne with hold | ⟨hgc, hgs⟩
      · exact hold hgw
      · rcases hgs with hgs | hgs
        · cases hgc.symm.trans (hg.closed_of hgs (by decide))
        · cases hgc.symm.trans (hg.closed_of hgs (by decide))
    · refine (next_core hgn).induction hstart ?_
      intro s t hs' hst
      refine hs'.step hst (fun _ ho => ho.2 hgw) ?_
      rintro sb ⟨rfl, hrep⟩
      exact hgP.2 hrep
  intro q hq
  refine key.2.later q ?_
  show q ∈ (h.sent ++ h.conn.outgoing).drop h₁.sent.length
  rw [List.drop_append]
  exact List.mem_append_left _ hq

end Host

def twoWritten : List Event := opening ++ [.write 0 [1, 2]]

def afterClose : List Event :=
  [.rto 1, .segment 2 { srcPort := 0, dstPort := 0, seq := 701, ack := 103, flags := flagACK, window := 1000 },
    .segment 2 { srcPort := 0, dstPort := 0, seq := 701, ack := 105, flags := flagACK, window := 1000 }]

theorem close_loses_nothing_twoWritten :
    ∃ pre fin, (((Host.fresh {} 0 : Host SmallController).run twoWritten).run [.close 0]).sent =
        ((Host.fresh {} 0 : Host SmallController).run twoWritten).sent ++ pre ++ [fin] ∧
      fin.seg.seq = Serial.place 101 2 := by
  have hreach : (Host.system SmallController).Reach Host.ClosesDrained ((Host.fresh {} 0).run twoWritten) :=
    Host.run_reach (by decide +kernel) (by decide +kernel)
  have hlater : (Host.system SmallController).Steps Host.ClosesDrained
      (((Host.fresh {} 0).run twoWritten).run [.close 0])
      ((((Host.fresh {} 0).run twoWritten).run [.close 0]).run afterClose) :=
    Host.run_steps (by decide +kernel) (by decide +kernel)
  obtain ⟨pre, fin, hsent, -, hseq, -⟩ := Host.close_loses_nothing hreach (by decide +kernel) (by decide +kernel)
    (by decide +kernel) (Host.next_run (by decide +kernel)) hlater
  have hiss : ((Host.fresh {} 0 : Host SmallController).run twoWritten).conn.iss + 1 = 101 := by decide +kernel
  have hacc : ((Host.fresh {} 0 : Host SmallController).run twoWritten).accepted.length = 2 := by decide +kernel
  rw [hiss, hacc] at hseq
  exact ⟨pre, fin, hsent, hseq⟩

/-- One byte is sent, and the Nagle test holds back two more; then `Close`, and the acknowledgments of the first byte
and of the FIN. -/
def closedEarly : List Event :=
  opening ++
    [.write 0 [1], .write 0 [2, 3], .close 0,
      .segment 0 { srcPort := 0, dstPort := 0, seq := 701, ack := 102, flags := flagACK, window := 1000 },
      .segment 0 { srcPort := 0, dstPort := 0, seq := 701, ack := 103, flags := flagACK, window := 1000 }]

/-- `Close` in ESTABLISHED sends the FIN before two of the three accepted bytes; the first of them is never sent, and
the second is sent with a number after the FIN's. -/
theorem close_overtakes_data :
    ∃ h : Host SmallController, (Host.system SmallController).Reach anyStep h ∧ h.conn.iss = 100 ∧
      h.accepted = [1, 2, 3] ∧
      h.sent.map (fun p => (p.seg.seq, p.seg.hasFlag flagFIN, p.seg.payload)) =
        [(100, false, []), (101, false, []), (101, false, [1]), (102, true, []), (103, false, [3])] :=
  ⟨(Host.fresh {} 0).run closedEarly, Host.run_reach (by decide +kernel) (execMeets_anyStep _ _ _),
    by decide +kernel, by decide +kernel, by decide +kernel⟩

end Libp2px.Vtcp
