import Libp2px.Vtcp.Network
import Libp2px.Vtcp.Reassembly
import Libp2px.Vtcp.Retransmit

/-!
# What the sequence numbers of a sender stand for

A connection numbers the bytes it accepts: position 0 is the SYN's, the byte with index `i` has position `i + 1`, and
`SND.UNA` stands for the position of the first byte in the buffer.  This goes wrong once only, after a FIN has been
acknowledged: `SND.UNA` is then past the end of the buffer, and a `Write` that still waits puts its bytes further on, so a
position without a byte is left behind (`Labels.gap`).  Every segment with data carries the bytes that its positions stand
for, as long as no retransmission starts from a number that the scoreboard covers (`Core.Labelled.step`).
-/

namespace Libp2px.Vtcp

open Transition Intervals

/-- The bytes by index, filled up where an index has no byte, and the first index that has none. -/
structure Labels where
  bytes : List Byte
  gap : Option Nat

def Packet.span (p : Packet) : Span Nat := ⟨p.pos - 1, p.pos - 1 + p.seg.payload.length⟩

namespace Labels

def sound (l : Labels) : List Byte :=
  match l.gap with
  | none => l.bytes
  | some g => l.bytes.take g

/-- The packet carries the bytes of its positions, and none at the gap; `iss` is the number of position 0. -/
structure Holds (l : Labels) (iss : BitVec 32) (p : Packet) : Prop where
  seq : p.seg.seq = Serial.place iss p.pos
  pos : 0 < p.pos
  stop : p.span.hi ≤ l.bytes.length
  payload : p.seg.payload = stretch l.bytes p.span
  clear : ∀ g ∈ l.gap, ¬p.span.Contains g

/-- More bytes have been numbered; a gap stays where it is, and a new one lies after all earlier bytes. -/
structure Grows (l l' : Labels) : Prop where
  bytes : l.bytes <+: l'.bytes
  kept : ∀ g ∈ l.gap, g ∈ l'.gap
  fresh : ∀ g ∈ l'.gap, g ∈ l.gap ∨ l.bytes.length ≤ g

variable {l l' l'' : Labels}

theorem Grows.refl (l : Labels) : l.Grows l := ⟨List.prefix_refl _, fun _ => id, fun _ => .inl⟩

theorem Grows.trans (h : l.Grows l') (h' : l'.Grows l'') : l.Grows l'' := by
  refine ⟨h.bytes.trans h'.bytes, fun g hg => h'.kept g (h.kept g hg), fun g hg => ?_⟩
  rcases h'.fresh g hg with hg' | hle
  · exact h.fresh g hg'
  · exact .inr (h.bytes.length_le.trans hle)

theorem Holds.grow {iss : BitVec 32} {p : Packet} (h : l.Holds iss p) (hg : l.Grows l') : l'.Holds iss p := by
  have hstop := h.stop
  refine ⟨h.seq, h.pos, hstop.trans hg.bytes.length_le, ?_, fun g hmem hc => ?_⟩
  · rw [stretch_of_agree hg.bytes hstop]
    exact h.payload
  · rcases hg.fresh g hmem with hold | hle
    · exact h.clear g hold hc
    · have hlt := hc.2
      omega

theorem Holds.payload_eq_nil {iss : BitVec 32} {p : Packet} (h : l.Holds iss p) (hl : l.bytes = []) :
    p.seg.payload = [] := by
  rw [h.payload, hl, stretch, List.drop_nil, List.take_nil]

theorem sound_of_grows (h : l.Grows l') : l.sound <+: l'.sound := by
  obtain ⟨b, hb⟩ := h.bytes
  unfold sound
  cases hgap : l.gap with
  | some g =>
    rw [h.kept g hgap]
    exact List.IsPrefix.take h.bytes g
  | none =>
    cases hgap' : l'.gap with
    | none => exact h.bytes
    | some g =>
      rcases h.fresh g hgap' with hold | hle
      · cases hgap.symm.trans hold
      · have htake := List.IsPrefix.take h.bytes g
        rwa [List.take_of_length_le hle] at htake

/-- The labels filled up to `n` indices: beyond the bytes this leaves a gap. -/
def fill (l : Labels) (n : Nat) : Labels :=
  if n ≤ l.bytes.length then l
  else ⟨l.bytes ++ List.replicate (n - l.bytes.length) 0, l.gap <|> some l.bytes.length⟩

theorem grows_fill (l : Labels) (n : Nat) : l.Grows (l.fill n) := by
  unfold fill
  split
  · exact .refl l
  · refine ⟨List.prefix_append _ _, fun g hg => ?_, fun g hg => ?_⟩
    · have hg' : l.gap = some g := hg
      rw [hg']
      rfl
    · cases hgap : l.gap with
      | some g' =>
        rw [hgap] at hg
        exact .inl hg
      | none =>
        rw [hgap] at hg
        cases hg
        exact .inr le_rfl

end Labels

namespace Core

/-- The numbering: where the buffer stands, what has been accepted, and what the packets carry. -/
structure Labelled (l : Labels) (s : Core) : Prop where
  unopened : s.opened = false → s.sendBuf.acked = 0
  entered : State.established ∈ s.entered → 0 < s.sendBuf.acked
  una : s.opened = true → s.sendBuf.una = Serial.place s.iss s.sendBuf.acked
  handshake : s.state = .synSent ∨ s.state = .synReceived → s.sendBuf.acked = 0
  fresh : s.sendBuf.acked = 0 → s.sendBuf.buf = [] ∧ l.bytes = [] ∧ l.gap = none
  length : l.bytes.length = s.sendBuf.acked - 1 + s.sendBuf.buf.length
  buf : s.sendBuf.buf = l.bytes.drop (s.sendBuf.acked - 1)
  whole : l.gap = none → s.accepted = l.bytes
  part : ∀ g ∈ l.gap, l.bytes.take g <+: s.accepted ∧ g + 1 < s.sendBuf.acked
  syns : ∀ p ∈ s.emitted, p.seg.hasFlag flagSYN = true → s.opened = true ∧ p.seg.seq = s.iss ∧ p.seg.payload = []
  data : ∀ p ∈ s.emitted, p.seg.payload ≠ [] → l.Holds s.iss p

namespace Labelled

variable {l : Labels} {s t : Core}

theorem sound_accepted (h : s.Labelled l) : l.sound <+: s.accepted := by
  unfold Labels.sound
  cases hg : l.gap with
  | none =>
    rw [h.whole hg]
  | some g => exact (h.part g hg).1

theorem opened (h : s.Labelled l) (hb : s.sendBuf.buf ≠ []) : s.opened = true ∧ 0 < s.sendBuf.acked := by
  have hpos : 0 < s.sendBuf.acked := by
    by_contra hz
    exact hb (h.fresh (by omega)).1
  refine ⟨?_, hpos⟩
  by_contra ho
  have hzero := h.unopened (by simpa using ho)
  omega

theorem holds (h : s.Labelled l) {p : Packet} {d : Nat} (hne : p.seg.payload ≠ [])
    (hseq : p.seg.seq = Serial.place s.sendBuf.una d) (hpos : p.pos = s.sendBuf.acked + d)
    (hpay : p.seg.payload <+: s.sendBuf.buf.drop d) : l.Holds s.iss p := by
  have hlen := hpay.length_le
  have hpay0 := List.length_pos_iff.2 hne
  rw [List.length_drop] at hlen
  have hbuf : s.sendBuf.buf ≠ [] := by
    rw [← List.length_pos_iff]
    omega
  obtain ⟨hopen, hacked⟩ := h.opened hbuf
  have hidx : p.pos - 1 = s.sendBuf.acked - 1 + d := by omega
  have hall := h.length
  refine ⟨?_, by omega, ?_, ?_, ?_⟩
  · rw [hseq, h.una hopen, Serial.place_place, hpos]
  · show p.pos - 1 + p.seg.payload.length ≤ _
    omega
  · rw [h.buf, List.drop_drop] at hpay
    rw [stretch]
    show p.seg.payload = (l.bytes.drop (p.pos - 1)).take (p.pos - 1 + p.seg.payload.length - (p.pos - 1))
    rw [hidx, Nat.add_sub_cancel_left]
    exact List.prefix_iff_eq_take.1 hpay
  · intro g hg hc
    have hlt := (h.part g hg).2
    have hle : p.pos - 1 ≤ g := hc.1
    omega

theorem frame (h : s.Labelled l) (hopen : t.opened = s.opened) (hiss : t.iss = s.iss) (hacc : t.accepted = s.accepted)
    (hbuf : t.sendBuf.buf = s.sendBuf.buf) (huna : t.sendBuf.una = s.sendBuf.una)
    (hacked : t.sendBuf.acked = s.sendBuf.acked)
    (hent : State.established ∈ t.entered → State.established ∈ s.entered)
    (hst : t.state = .synSent ∨ t.state = .synReceived → s.state = .synSent ∨ s.state = .synReceived)
    (hem : ∀ p ∈ t.emitted, p ∈ s.emitted ∨
      (p.seg.hasFlag flagSYN = true → s.opened = true ∧ p.seg.seq = s.iss ∧ p.seg.payload = []) ∧
        (p.seg.payload ≠ [] → l.Holds s.iss p)) : t.Labelled l := by
  refine ⟨?_, ?_, ?_, ?_, ?_, ?_, ?_, ?_, ?_, ?_, ?_⟩
  · rw [hopen, hacked]; exact h.unopened
  · rw [hacked]; exact fun he => h.entered (hent he)
  · rw [hopen, huna, hiss, hacked]; exact h.una
  · rw [hacked]; exact fun hs => h.handshake (hst hs)
  · rw [hacked, hbuf]; exact h.fresh
  · rw [hacked, hbuf]; exact h.length
  · rw [hacked, hbuf]; exact h.buf
  · rw [hacc]; exact h.whole
  · rw [hacc, hacked]; exact h.part
  · intro p hp hsyn
    rw [hopen, hiss]
    exact (hem p hp).elim (fun hold => h.syns p hold hsyn) fun hnew => hnew.1 hsyn
  · intro p hp hne
    rw [hiss]
    exact (hem p hp).elim (fun hold => h.data p hold hne) fun hnew => hnew.2 hne

theorem emit {seg : Segment} (hsyn : seg.hasFlag flagSYN = false) {l : Labels}
    (hdata : seg.payload ≠ [] → l.Holds s.iss ⟨seg, s.sendBuf.pos seg.seq, s.freeSpace⟩) (p : Packet)
    (hp : p ∈ (s.emit seg).emitted) : p ∈ s.emitted ∨
      (p.seg.hasFlag flagSYN = true → s.opened = true ∧ p.seg.seq = s.iss ∧ p.seg.payload = []) ∧
        (p.seg.payload ≠ [] → l.Holds s.iss p) := by
  rcases List.mem_append.1 hp with hp | hp
  · exact .inl hp
  · right
    rw [List.mem_singleton.1 hp]
    refine ⟨fun h => ?_, hdata⟩
    cases hsyn.symm.trans h

theorem opening {iss : BitVec 32} {cap : Nat} {st : State} (h : s.Labelled l) (hs : s.opened = false)
    (hst : st = .synSent ∨ st = .synReceived)
    (ht : t.state = st ∧ t.entered = s.entered ++ [st] ∧ t.opened = true ∧ t.iss = iss ∧ t.accepted = s.accepted ∧
      t.sendBuf = (newSendBuf cap iss).advanceSent 1)
    (hem : ∀ p ∈ t.emitted, p ∈ s.emitted ∨ p.seg.seq = iss ∧ p.seg.payload = []) : t.Labelled l := by
  obtain ⟨-, hent, ho, hiss, hacc, hsb⟩ := ht
  obtain ⟨-, hbytes, hgap⟩ := h.fresh (h.unopened hs)
  refine ⟨?_, ?_, ?_, ?_, ?_, ?_, ?_, ?_, ?_, ?_, ?_⟩
  · intro hno
    cases hno.symm.trans ho
  · intro he
    rw [hent] at he
    have hold : State.established ∈ s.entered := by
      rcases hst with rfl | rfl <;> simpa using he
    have hpos := h.entered hold
    have hzero := h.unopened hs
    omega
  · intro _
    rw [hsb, hiss]
    exact (Serial.place_zero iss).symm
  · intro _
    rw [hsb]
    rfl
  · intro _
    rw [hsb]
    exact ⟨rfl, hbytes, hgap⟩
  · rw [hsb, hbytes]
    rfl
  · rw [hsb, hbytes]
    rfl
  · rw [hacc]
    exact h.whole
  · intro g hg
    cases hgap.symm.trans hg
  · intro p hp hsyn
    rw [ho, hiss]
    rcases hem p hp with hold | hnew
    · cases hs.symm.trans (h.syns p hold hsyn).1
    · exact ⟨rfl, hnew⟩
  · intro p hp hne
    rcases hem p hp with hold | hnew
    · exact absurd ((h.data p hold hne).payload_eq_nil hbytes) hne
    · exact absurd hnew.2 hne

theorem acknowledge {ack : BitVec 32} (h : s.Labelled l) (hopen : s.opened = true)
    (hlo : seqAfter ack s.sendBuf.una = true) (hhi : seqAfter ack s.sendBuf.nxt = false)
    (hst : early t.state = false) (ho : t.opened = s.opened) (hiss : t.iss = s.iss) (hacc : t.accepted = s.accepted)
    (hem : t.emitted = s.emitted) (hsb : t.sendBuf = (s.sendBuf.acknowledge ack).1) :
    ∃ l', l.Grows l' ∧ t.Labelled l' := by
  obtain ⟨hpos, -, -⟩ := SendBuf.ack_between hlo hhi
  rw [SendBuf.acknowledge_eq hlo hhi] at hsb
  have hacked : t.sendBuf.acked = s.sendBuf.acked + (ack - s.sendBuf.una).toNat := by
    rw [hsb]
    rfl
  have hbuf : t.sendBuf.buf = s.sendBuf.buf.drop (ack - s.sendBuf.una).toNat := by
    rw [hsb]
    rfl
  have huna : t.sendBuf.una = Serial.place t.iss t.sendBuf.acked := by
    have hu : t.sendBuf.una = ack := by
      rw [hsb]
      rfl
    rw [hu, hiss, hacked, ← Serial.place_place, ← h.una hopen, Serial.place_toNat_sub]
  generalize (ack - s.sendBuf.una).toNat = n at hpos hacked hbuf
  have hlen := h.length
  have hgrow := l.grows_fill (t.sendBuf.acked - 1)
  have hnil : s.sendBuf.acked = 0 → l.bytes.length = 0 := by
    intro hz
    rw [(h.fresh hz).2.1]
    rfl
  refine ⟨l.fill (t.sendBuf.acked - 1), hgrow, ?_, ?_, fun _ => huna, ?_, ?_, ?_, ?_, ?_, ?_, ?_, ?_⟩
  · rw [ho, hopen]
    exact fun hno => by cases hno
  · exact fun _ => by omega
  · rintro (hs | hs) <;> rw [hs] at hst <;> cases hst
  · exact fun hz => by omega
  · rw [hbuf, List.length_drop]
    unfold Labels.fill
    split
    · omega
    · simp only [List.length_append, List.length_replicate]
      omega
  · unfold Labels.fill
    split
    · rename_i hin
      rw [hbuf, h.buf, List.drop_drop, hacked]
      by_cases hz : s.sendBuf.acked = 0
      · have hb := (h.fresh hz).2.1
        rw [hb, List.drop_nil, List.drop_nil]
      · congr 1
        omega
    · rw [hbuf, List.drop_eq_nil_of_le (by omega), List.drop_eq_nil_of_le]
      simp only [List.length_append, List.length_replicate]
      omega
  · rw [hacc]
    unfold Labels.fill
    split
    · exact h.whole
    · intro hg
      cases hgap : l.gap <;> rw [hgap] at hg <;> cases hg
  · intro g hg
    rw [hacc]
    rcases hgrow.fresh g hg with hold | hle
    · obtain ⟨hpre, hlt⟩ := h.part g hold
      refine ⟨?_, by omega⟩
      obtain ⟨b, hb⟩ := hgrow.bytes
      rw [← hb, List.take_append_of_le_length (by omega)]
      exact hpre
    · -- the gap is new: all that was accepted lies before it
      unfold Labels.fill at hg ⊢
      split at hg
      · obtain ⟨hpre, hlt⟩ := h.part g hg
        omega
      · rename_i hout
        cases hgap : l.gap with
        | some g' =>
          rw [hgap] at hg
          cases hg
          have hlt := (h.part g hgap).2
          omega
        | none =>
          rw [hgap] at hg
          cases hg
          rw [if_neg hout]
          refine ⟨?_, by omega⟩
          rw [List.take_left, h.whole hgap]
  · rw [hem, ho, hiss]
    exact h.syns
  · rw [hem, hiss]
    exact fun p hp hne => (h.data p hp hne).grow hgrow

theorem write {x : List Byte} (h : s.Labelled l) (hpos : 0 < s.sendBuf.acked) :
    ∃ l', l.Grows l' ∧
      ({ s with sendBuf := { s.sendBuf with buf := s.sendBuf.buf ++ x }, accepted := s.accepted ++ x } : Core).Labelled l' := by
  have hlen := h.length
  have hgrow : l.Grows ⟨l.bytes ++ x, l.gap⟩ := ⟨List.prefix_append _ _, fun _ => id, fun _ => .inl⟩
  refine ⟨⟨l.bytes ++ x, l.gap⟩, hgrow, h.unopened, h.entered, h.una, h.handshake, ?_, ?_, ?_, ?_, ?_, h.syns, ?_⟩
  · intro hz
    have hz' : s.sendBuf.acked = 0 := hz
    omega
  · show (l.bytes ++ x).length = s.sendBuf.acked - 1 + (s.sendBuf.buf ++ x).length
    rw [List.length_append, List.length_append]
    omega
  · show s.sendBuf.buf ++ x = (l.bytes ++ x).drop (s.sendBuf.acked - 1)
    rw [List.drop_append_of_le_length (by omega), ← h.buf]
  · intro hg
    show s.accepted ++ x = l.bytes ++ x
    rw [h.whole hg]
  · intro g hg
    obtain ⟨hpre, hlt⟩ := h.part g hg
    refine ⟨?_, hlt⟩
    show (l.bytes ++ x).take g <+: s.accepted ++ x
    rw [List.take_append_of_le_length (by omega)]
    exact hpre.trans (List.prefix_append _ _)
  · exact fun p hp hne => (h.data p hp hne).grow hgrow

theorem consumeFIN (h : s.Labelled l) : s.consumeFIN.Labelled l := by
  unfold Core.consumeFIN
  simp only
  split
  · rename_i ha
    have hnot : ∀ acked st, awaitsFIN st = true →
        afterFIN acked st ≠ .established ∧ afterFIN acked st ≠ .synSent ∧ afterFIN acked st ≠ .synReceived := by
      intro acked st hst
      cases acked <;> cases st <;> first | decide | cases hst
    obtain ⟨hest, hsent, hrcvd⟩ := hnot (s.sendBuf.unacked == 0) s.state ha
    refine h.frame rfl rfl rfl rfl rfl rfl ?_ ?_ fun p hp => .inl hp
    · intro he
      rcases List.mem_append.1 he with he | he
      · exact he
      · exact absurd (List.mem_singleton.1 he).symm hest
    · rintro (hs | hs)
      · exact absurd hs hsent
      · exact absurd hs hrcvd
  · exact h.frame rfl rfl rfl rfl rfl rfl id id fun p hp => .inl hp

theorem step {e : Event} {o : Occasion} (h : s.Labelled l) (hinv : s.SendInv) (hst : CoreStep e o s t)
    (honce : s.OpensOnce e) (hcookie : ∀ a b c d, e ≠ .acceptCookie a b c d) (hres : ResumesEstablished e o s)
    (hsack : ∀ sb, o.retransmit sb → sb.isSACKed sb.una = false) : ∃ l', l.Grows l' ∧ t.Labelled l' := by
  have hclosed : ∀ st, s.state = st → st ≠ .closed → s.opened = true := by
    rintro st rfl hne
    by_contra hno
    exact hne (hinv.unopened (by simpa using hno))
  have hfresh : e.opens = true → s.state = .closed ∨ s.state = .listen → s.opened = false := by
    intro he hs
    by_contra hno
    exact absurd hs (not_or.2 (honce he (by simpa using hno)))
  -- the steps that leave the numbering alone
  have hkeep : t.Labelled l → ∃ l', l.Grows l' ∧ t.Labelled l' := fun ht => ⟨l, .refl l, ht⟩
  have hsyn : ∀ {seg : Segment} {p : Packet}, p ∈ s.emitted ++ [⟨seg, s.sendBuf.pos seg.seq, s.freeSpace⟩] →
      p ∈ s.emitted ∨ p.seg = seg := by
    intro seg p hp
    rcases List.mem_append.1 hp with hp | hp
    · exact .inl hp
    · exact .inr (by rw [List.mem_singleton.1 hp])
  cases hst with
  | @connect now iss syn cap he hs hsyn hseq =>
    refine hkeep (h.opening (hfresh (by rw [he]; rfl) (.inl hs)) (.inl rfl) ⟨rfl, rfl, rfl, rfl, rfl, rfl⟩ ?_)
    intro p hp
    rcases List.mem_append.1 hp with hp | hp
    · exact .inl hp
    · right
      rw [List.mem_singleton.1 hp]
      exact ⟨hseq, hsyn.payload⟩
  | @acceptSYN now iss seg syn cap he hs hsyn hseq =>
    refine hkeep (h.opening (hfresh (by rw [he]; rfl) hs) (.inr rfl) ⟨rfl, rfl, rfl, rfl, rfl, rfl⟩ ?_)
    intro p hp
    rcases List.mem_append.1 hp with hp | hp
    · exact .inl hp
    · right
      rw [List.mem_singleton.1 hp]
      exact ⟨hseq, hsyn.payload⟩
  | acceptCookie cap m he => exact absurd he (hcookie _ _ _ _)
  | setup cap he ho =>
    exact hkeep (h.opening ho (.inl rfl) ⟨rfl, rfl, rfl, rfl, rfl, rfl⟩ fun p hp => .inl hp)
  | @synAckIn now seg he hs hsyn hack hlo hhi =>
    have hlo' : seqAfter seg.ack s.sendBuf.una = true := by
      simp only [seqBeforeEq, seqAfter, decide_eq_false_iff_not, decide_eq_true_eq] at hlo ⊢
      omega
    exact h.acknowledge (hclosed _ hs (by decide)) hlo' hhi rfl rfl rfl rfl rfl rfl
  | synIn he hs =>
    exact hkeep (h.frame rfl rfl rfl rfl rfl rfl (by simp [insert, setState, negotiate]) (fun _ => .inl hs)
      fun p hp => .inl hp)
  | @synRcvdAck now seg he hs hack =>
    obtain ⟨-, huna, hnxt⟩ := hinv.handshake (.inr hs)
    have hone : s.iss + 1 - s.iss = 1 := by bv_omega
    refine h.acknowledge (hclosed _ hs (by decide)) (?_ : seqAfter seg.ack s.sendBuf.una = true) ?_ rfl rfl rfl rfl rfl rfl
    · rw [hack, hnxt, huna, seqAfter, hone]
      rfl
    · simp [hack, seqAfter]
  | @syn seg hs hsyn' hseq =>
    refine hkeep (h.frame rfl rfl rfl rfl rfl rfl id id fun p hp => ?_)
    rcases hsyn hp with hp | hp
    · exact .inl hp
    · right
      have hopen : s.opened = true := by
        rcases hs with hs | hs <;> exact hclosed _ hs (by decide)
      rw [hp]
      exact ⟨fun _ => ⟨hopen, hseq.trans (hinv.handshake hs).2.1, hsyn'.payload⟩, fun hne => absurd hsyn'.payload hne⟩
  | @control seg hctl =>
    exact hkeep (h.frame rfl rfl rfl rfl rfl rfl id id (emit hctl.syn fun hne => absurd hctl.payload hne))
  | @chunk seg n hs hp hd =>
    refine hkeep (h.frame rfl rfl rfl rfl rfl rfl id id (emit hd.syn fun hne => ?_))
    refine h.holds hne ?_ (d := s.sendBuf.unacked) ?_ ?_
    · show seg.seq = _
      rw [hd.seq, SendBuf.place_una_unacked]
    · show s.sendBuf.pos seg.seq = _
      rw [hd.seq]
      rfl
    · show seg.payload <+: _
      rw [hd.payload]
      exact List.take_prefix _ _
  | @rexmit seg n data hs ho hd hdata =>
    refine hkeep (h.frame rfl rfl rfl rfl rfl rfl id id (emit hdata.syn fun hne => ?_))
    refine h.holds hne ?_ (d := 0) ?_ ?_
    · show seg.seq = _
      rw [hdata.seq, Serial.place_zero]
    · show s.sendBuf.pos seg.seq = _
      rw [hdata.seq, SendBuf.pos, BitVec.sub_self]
      rfl
    · show seg.payload <+: _
      rw [hdata.payload, List.drop_zero]
      exact SendBuf.retransmitData_begins (hsack _ ho) hd
  | @ack now seg he hs hlo hhi =>
    have hopen : s.opened = true := by
      by_contra hno
      have hcl := hinv.unopened (by simpa using hno)
      rw [hcl] at hs
      cases hs
    exact h.acknowledge hopen hlo hhi (not_early_of_acksData hs) rfl rfl rfl rfl rfl
  | sack hs =>
    refine hkeep (h.frame rfl rfl rfl (by simp) (by simp) ?_ id id fun p hp => .inl hp)
    show (s.sendBuf.markSACKed _).acked = _
    unfold SendBuf.markSACKed
    split <;> rfl
  | @write p hc hs =>
    have hent : State.established ∈ s.entered := by
      rcases hs with ⟨now, i, he, ho⟩ | ⟨now, b, he, hs⟩
      · exact hres now i he ho
      · exact hinv.entered hs
    rw [SendBuf.write_eq]
    exact h.write (h.entered hent)
  | @fin now seg st he hc hs ho hf =>
    refine hkeep (h.frame rfl rfl rfl rfl rfl rfl ?_ ?_ (emit hf.syn fun hne => absurd hf.payload hne))
    · show State.established ∈ s.entered ++ [st] → _
      rcases hs with ⟨-, rfl⟩ | ⟨-, rfl⟩ | ⟨-, rfl⟩ <;> simp
    · show st = .synSent ∨ st = .synReceived → _
      rcases hs with ⟨-, rfl⟩ | ⟨-, rfl⟩ | ⟨-, rfl⟩ <;> exact fun h => by rcases h with h | h <;> cases h
  | @refin now seg he hc hs ho hf =>
    exact hkeep (h.frame rfl rfl rfl rfl rfl rfl id id (emit hf.syn fun hne => absurd hf.payload hne))
  | finIn => exact hkeep h.consumeFIN
  | finDeferred => exact hkeep (h.consumeFIN.frame rfl rfl rfl rfl rfl rfl id id fun p hp => .inl hp)
  | finAcked he hs =>
    refine hkeep (h.frame rfl rfl rfl rfl rfl rfl (by simp [setState]) ?_ fun p hp => .inl hp)
    rintro (h | h) <;> cases h
  | closingAcked he hs =>
    refine hkeep (h.frame rfl rfl rfl rfl rfl rfl (by simp [setState]) ?_ fun p hp => .inl hp)
    rintro (h | h) <;> cases h
  | shut =>
    refine hkeep (h.frame rfl rfl rfl rfl rfl rfl (by simp [Core.shut, setState]) ?_ fun p hp => .inl hp)
    rintro (h | h) <;> cases h
  | _ => exact hkeep (h.frame rfl rfl rfl rfl rfl rfl id id fun p hp => .inl hp)

theorem fresh_conn {σ : Type} [CongestionController σ] (cfg : ConnConfig) (now : Int) :
    (Host.fresh cfg now : Host σ).core.Labelled ⟨[], none⟩ := by
  refine ⟨fun _ => rfl, ?_, ?_, fun _ => rfl, fun _ => ⟨rfl, rfl, rfl⟩, rfl, rfl, fun _ => rfl, ?_, ?_, ?_⟩
  · exact fun h => absurd h List.not_mem_nil
  · exact fun h => by cases h
  · exact fun g hg => by cases hg
  · exact fun p hp => absurd hp List.not_mem_nil
  · exact fun p hp => absurd hp List.not_mem_nil

end Labelled

end Core

theorem Host.labelled_next {σ : Type} [CongestionController σ] {P : Host σ → Event → Prop} {h h' : Host σ} {e : Event}
    {l : Labels} (hr : (system σ).Reach P h) (hn : h.next e = some h') (hl : h.core.Labelled l)
    (honce : h.core.OpensOnce e) (hcookie : ∀ a b c d, e ≠ .acceptCookie a b c d)
    (hsack : h.conn.retransmits e = true → h.conn.sendBuf.isSACKed h.conn.sendBuf.una = false) :
    ∃ l', l.Grows l' ∧ h'.core.Labelled l' := by
  have hw := (send_inv hr).2
  have hstart : (∃ l', l.Grows l' ∧ (h.core.receive e).Labelled l') ∧ (h.core.receive e).OpensOnce e ∧
      ∀ st ∈ h.conn.entered, st ∈ (h.core.receive e).entered := by
    have hsame : (h.core.receive e).Labelled l := by
      cases e <;> exact hl.frame rfl rfl rfl rfl rfl rfl id id fun p hp => .inl hp
    refine ⟨⟨l, .refl l, hsame⟩, ?_, ?_⟩
    · cases e <;> exact honce
    · cases e <;> exact fun _ => id
  have key := next_induction hr hn
    (I := fun s => (∃ l', l.Grows l' ∧ s.Labelled l') ∧ s.OpensOnce e ∧ ∀ st ∈ h.conn.entered, st ∈ s.entered) hstart ?_
  · exact key.1
  · rintro s t hinv ⟨⟨l', hgrow, hs⟩, honce', hent⟩ hst
    refine ⟨?_, hst.opensOnce honce', fun st hmem => hst.entered_subset st (hent st hmem)⟩
    have hres : Core.ResumesEstablished e (h.occasion e) s := fun now i _ ho => hent _ (hw ho.2)
    have hsack' : ∀ sb, (h.occasion e).retransmit sb → sb.isSACKed sb.una = false := by
      rintro sb ⟨rfl, hre⟩
      exact hsack hre
    obtain ⟨l'', hgrow', ht⟩ := hs.step hinv hst honce' hcookie hres hsack'
    exact ⟨l'', hgrow.trans hgrow', ht⟩

/-- The connection is opened once, without a cookie, and nothing is sent again from a number that the scoreboard covers. -/
def Host.numbersOnce {σ : Type} [CongestionController σ] (h : Host σ) (e : Event) : Bool :=
  !(e.opens && h.conn.opened && (h.conn.state == .closed || h.conn.state == .listen)) && !(e matches .acceptCookie ..) &&
    !(h.conn.retransmits e && h.conn.sendBuf.isSACKed h.conn.sendBuf.una)

/-- Whatever the peer sends, all segments with data that a connection has sent, for the first time or again, are pieces of
one numbered stream, and up to a gap this stream is what `Write` has accepted. -/
theorem Host.sent_of_one_stream {σ : Type} [CongestionController σ] {h : Host σ}
    (hr : (system σ).Reach (fun h e => h.numbersOnce e = true) h) :
    ∃ l : Labels, l.sound <+: h.accepted ∧ ∀ p ∈ h.sent, p.seg.payload ≠ [] → l.Holds h.conn.iss p := by
  have hinv := hr.invariant (I := fun h => ∃ l, h.core.Labelled l) ?_ ?_
  · obtain ⟨l, hl⟩ := hinv
    refine ⟨l, hl.sound_accepted, fun p hp => hl.data p ?_⟩
    rwa [emitted_core hr]
  · rintro h ⟨cfg, now, rfl⟩
    exact ⟨_, Core.Labelled.fresh_conn cfg now⟩
  · rintro h e h' hr ⟨l, hl⟩ hP hn
    simp only [numbersOnce, Bool.and_eq_true, Bool.not_eq_true', Bool.and_eq_false_iff] at hP
    have honce : h.core.OpensOnce e := by
      intro he ho
      have hopened : h.conn.opened = true := ho
      show h.conn.state ≠ .closed ∧ h.conn.state ≠ .listen
      simpa [he, hopened] using hP.1.1
    have hcookie : ∀ a b c d, e ≠ .acceptCookie a b c d := by
      rintro a b c d rfl
      cases hP.1.2
    obtain ⟨l', -, hl'⟩ := labelled_next hr hn hl honce hcookie fun hre => hP.2.resolve_left (by simp [hre])
    exact ⟨l', hl'⟩

theorem Host.sent_of_one_stream_byte :
    let h : Host SmallController := (fresh {} 0).run (opening ++ [.write 0 [5]])
    ∃ l : Labels, l.sound <+: h.accepted ∧ ∀ p ∈ h.sent, p.seg.payload ≠ [] → l.Holds h.conn.iss p :=
  Host.sent_of_one_stream (run_reach (by decide) (by decide))

end Libp2px.Vtcp
