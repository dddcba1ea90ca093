import Libp2px.Vtcp.Exchange
import Libp2px.Vtcp.Labels

/-!
# The stream from one end to the other

What one end has returned to its readers is the beginning of what the other end has accepted from its writers, under
every order of deliveries, losses, repetitions and timers.  The sender numbers its bytes (`Core.Labelled`); the receiver
tracks the numbers that have arrived until it consumes a FIN (`Core.Receives`), and takes a segment for what it is as long
as the segment is near what is expected next.
-/

namespace Libp2px.Vtcp

open Transition Intervals

set_option linter.unusedSectionVars false

def Event.payload : Event → List Byte
  | .segment _ seg => seg.payload
  | _ => []

namespace Core

def receives (st : State) : Bool := st == .synReceived || st == .established || st == .finWait1 || st == .finWait2

/-- The receive buffer follows the bytes of the peer, the first of which has the number `base`: what has been returned
or is ready are those before the next expected one. -/
structure Follows (base : BitVec 32) (l : Labels) (t : Tracker Nat) (s : Core) : Prop where
  tracks : s.recvBuf.Tracks base l.bytes t
  arrived : s.returned ++ s.recvBuf.buf = l.bytes.take t.next
  clear : ∀ g ∈ l.gap, ¬t.Covers g

/-- One end as a receiver of the numbered bytes `l`; `live` says whether the peer has been opened. -/
structure Receives (base : BitVec 32) (l : Labels) (live : Bool) (s : Core) : Prop where
  unopened : s.opened = false → s.state = .closed
  blank : s.opened = false ∨ s.state = .synSent → s.returned ++ s.recvBuf.buf = []
  peer : receives s.state = true → live = true
  fins : receives s.state = true → s.recvBuf.fins = 0
  follows : receives s.state = true → ∃ t, s.Follows base l t
  sound : s.returned ++ s.recvBuf.buf <+: l.sound

/-- A SYN that an event brings is the one of the peer, and carries no payload. -/
def PeerOpens (base : BitVec 32) (live : Bool) : Event → Prop
  | .segment _ seg => seg.hasFlag flagSYN = true → seg.seq + 1 = base ∧ seg.payload = [] ∧ live = true
  | .acceptSYN _ _ seg => seg.seq + 1 = base ∧ seg.payload = [] ∧ live = true
  | .acceptCookie _ _ _ _ => False
  | _ => True

variable {base : BitVec 32} {l l' : Labels} {live : Bool} {s t : Core}

variable {k : Tracker Nat} {e : Event} {o : Occasion}

theorem Follows.sound (h : s.Follows base l k) : s.returned ++ s.recvBuf.buf <+: l.sound := by
  rw [h.arrived]
  unfold Labels.sound
  cases hgap : l.gap with
  | none => exact List.take_prefix _ _
  | some g =>
    have hle : k.next ≤ g := not_lt.1 fun hlt => h.clear g hgap (.inl hlt)
    have hsplit : l.bytes.take k.next = (l.bytes.take g).take k.next := by
      rw [List.take_take, Nat.min_eq_left hle]
    show l.bytes.take k.next <+: l.bytes.take g
    rw [hsplit]
    exact List.take_prefix _ _

theorem Follows.next_eq (h : s.Follows base l k) :
    k.next = s.returned.length + s.recvBuf.buf.length := by
  have hlen := congrArg List.length h.arrived
  have hle := h.tracks.stream.1
  rw [List.length_append, List.length_take, Nat.min_eq_left hle] at hlen
  exact hlen.symm

theorem Follows.grow (h : s.Follows base l k) (hg : l.Grows l') : s.Follows base l' k := by
  have hle := h.tracks.stream.1
  refine ⟨h.tracks.extend hg.bytes, ?_, fun g hmem hc => ?_⟩
  · obtain ⟨b, hb⟩ := hg.bytes
    rw [← hb, List.take_append_of_le_length hle]
    exact h.arrived
  · rcases hg.fresh g hmem with hold | hfar
    · exact h.clear g hold hc
    · rcases hc with hlt | ⟨p, hp, -, hlt⟩
      · omega
      · have hhi := h.tracks.stream.2 p hp
        omega

theorem Follows.of_eq (h : s.Follows base l k) (hbuf : s.recvBuf = t.recvBuf)
    (hret : t.returned ++ t.recvBuf.buf = s.returned ++ s.recvBuf.buf) : t.Follows base l k :=
  ⟨hbuf ▸ h.tracks, hret.trans h.arrived, h.clear⟩

theorem Follows.insert {iss : BitVec 32} {p : Packet} (h : s.Follows (iss + 1) l k)
    (hp : l.Holds iss p) (hw : s.recvBuf.windowSize ≤ 2 ^ 31) (hold : k.next + 1 ≤ p.pos + 2 ^ 31)
    (hnew : p.pos + p.seg.payload.length ≤ k.next + 1 + 2 ^ 31) :
    ∃ k', (s.insert p.seg.seq p.seg.payload).Follows (iss + 1) l k' := by
  have hpos := hp.pos
  have hstop := hp.stop
  have hlo : p.span.lo = p.pos - 1 := rfl
  have hhi : p.span.hi = p.pos - 1 + p.seg.payload.length := rfl
  have hseq : p.seg.seq = Serial.place (iss + 1) p.span.lo := by
    have hone : iss + 1 = Serial.place iss 1 := rfl
    have hsum : 1 + p.span.lo = p.pos := by omega
    rw [hp.seq, hone, Serial.place_place, hsum]
  -- the buffer takes a part of the payload in
  obtain ⟨q, hq₁, hq₂, hins⟩ := h.tracks.insert_near (p := p.span) (by omega) hstop hw (by omega) (by omega)
  rw [← hseq, ← hp.payload] at hins
  refine ⟨k.add q, ?_, ?_, fun g hg hc => ?_⟩
  · show (s.recvBuf.insert p.seg.seq p.seg.payload).1.Tracks _ _ _
    rw [hins]
    exact h.tracks.add (by omega) (by omega)
  · show s.returned ++ (s.recvBuf.insert p.seg.seq p.seg.payload).1.buf = _
    have harr : s.returned ++ s.recvBuf.buf = stretch l.bytes ⟨0, k.next⟩ := h.arrived
    rw [hins, RecvBuf.advance, ← List.append_assoc, harr, stretch_append (Nat.zero_le _) (Tracker.next_le_add q k)]
    rfl
  · rcases (Tracker.covers_add q k g).1 hc with ⟨hin₁, hin₂⟩ | hcov
    · exact hp.clear g hg ⟨by omega, by omega⟩
    · exact h.clear g hg hcov

theorem Receives.grow (h : s.Receives base l live) (hg : l.Grows l') : s.Receives base l' live :=
  { h with
    follows := fun hs => (h.follows hs).imp fun _ hk => hk.grow hg
    sound := h.sound.trans (Labels.sound_of_grows hg) }

theorem Receives.peer_opens {base' : BitVec 32} (h : s.Receives base l false) : s.Receives base' l live := by
  have hno : receives s.state = true → False := fun hs => by cases h.peer hs
  exact ⟨h.unopened, h.blank, fun hs => (hno hs).elim, fun hs => (hno hs).elim, fun hs => (hno hs).elim, h.sound⟩

theorem Receives.frame (h : s.Receives base l live) (hun : t.opened = false → t.state = .closed)
    (hbl : t.opened = false ∨ t.state = .synSent → s.opened = false ∨ s.state = .synSent)
    (hst : receives t.state = true → receives s.state = true)
    (hret : t.returned ++ t.recvBuf.buf = s.returned ++ s.recvBuf.buf)
    (hbuf : receives t.state = true → t.recvBuf.nxt = s.recvBuf.nxt ∧ t.recvBuf.ooo = s.recvBuf.ooo ∧
      t.recvBuf.fins = s.recvBuf.fins) : t.Receives base l live := by
  refine ⟨hun, ?_, fun ht => h.peer (hst ht), ?_, ?_, ?_⟩
  · intro hb
    rw [hret]
    exact h.blank (hbl hb)
  · intro ht
    rw [(hbuf ht).2.2]
    exact h.fins (hst ht)
  · intro ht
    obtain ⟨k, hk⟩ := h.follows (hst ht)
    obtain ⟨hnxt, hooo, -⟩ := hbuf ht
    exact ⟨k, ⟨hnxt.trans hk.tracks.nxt, hooo.trans hk.tracks.ooo, hk.tracks.stream, hk.tracks.near⟩,
      hret.trans hk.arrived, hk.clear⟩
  · rw [hret]
    exact h.sound

theorem Receives.waiting (h : s.Receives base l live) (hs : s.opened = false) (hopen : t.opened = true)
    (hst : t.state = .synSent) (hret : t.returned = s.returned) (hbuf : t.recvBuf.buf = []) : t.Receives base l live := by
  have hnil : t.returned ++ t.recvBuf.buf = [] := by
    rw [hret, hbuf, (List.append_eq_nil_iff.1 (h.blank (.inl hs))).1]
    rfl
  have hno : receives t.state = true → False := by
    rw [hst]
    exact fun ht => by cases ht
  refine ⟨?_, fun _ => hnil, fun ht => (hno ht).elim, fun ht => (hno ht).elim, fun ht => (hno ht).elim, ?_⟩
  · intro hclosed
    cases hclosed.symm.trans hopen
  · rw [hnil]
    exact List.nil_prefix

theorem Receives.opening (h : s.Receives base l live) (hs : s.opened = false ∨ s.state = .synSent)
    (hopen : t.opened = true) (hst : t.state ≠ .synSent) (hret : t.returned = s.returned) (cap : Nat)
    (hbuf : t.recvBuf = newRecvBuf base cap) (hlive : live = true) : t.Receives base l live := by
  have hnil : t.returned = [] := hret.trans (List.append_eq_nil_iff.1 (h.blank hs)).1
  have hfollows : t.Follows base l (Tracker.start 0) := by
    refine ⟨⟨?_, ?_, ?_, ?_⟩, ?_, fun g _ hc => ?_⟩
    · rw [hbuf]
      exact (Serial.place_zero base).symm
    · rw [hbuf]
      rfl
    · exact ⟨Nat.zero_le _, fun p hp => absurd hp List.not_mem_nil⟩
    · exact ⟨Nat.zero_le _, fun p hp => absurd hp List.not_mem_nil⟩
    · rw [hnil, hbuf]
      rfl
    · rcases hc with hlt | ⟨p, hp, -⟩
      · exact absurd hlt (Nat.not_lt_zero _)
      · exact absurd hp List.not_mem_nil
  refine ⟨?_, ?_, fun _ => hlive, ?_, fun _ => ⟨_, hfollows⟩, hfollows.sound⟩
  · intro hno
    cases hno.symm.trans hopen
  · rintro (hno | hs')
    · cases hno.symm.trans hopen
    · exact absurd hs' hst
  · intro _
    rw [hbuf]
    rfl

theorem receives_afterFIN {st : State} (acked : Bool) (h : awaitsFIN st = true) : receives (afterFIN acked st) = false := by
  cases acked <;> cases st <;> first | rfl | cases h

theorem receives_consumeFIN (hs : seesFIN s.state = true) : receives s.consumeFIN.state = false := by
  unfold consumeFIN
  simp only
  split
  · rename_i ha
    exact receives_afterFIN _ ha
  · rename_i ha
    have hnot : ∀ st, seesFIN st = true → ¬awaitsFIN st = true → receives st = false := by
      intro st hst hnot
      cases st <;> first | rfl | exact absurd rfl hnot | cases hst
    exact hnot _ hs ha

theorem Receives.consumeFIN (h : s.Receives base l live) (hs : seesFIN s.state = true)
    (hun : s.consumeFIN.opened = false → s.consumeFIN.state = .closed) : s.consumeFIN.Receives base l live := by
  have hno := receives_consumeFIN hs
  have hblank : s.consumeFIN.opened = false ∨ s.consumeFIN.state = .synSent → s.opened = false ∨ s.state = .synSent := by
    unfold Core.consumeFIN
    simp only
    split
    · rename_i ha
      rintro (ho | hst)
      · exact .inl ho
      · have hlate := late_afterFIN (s.sendBuf.unacked == 0) ha
        have hst' : afterFIN (s.sendBuf.unacked == 0) s.state = .synSent := hst
        rw [hst'] at hlate
        cases hlate
    · exact id
  have hret : s.consumeFIN.returned ++ s.consumeFIN.recvBuf.buf = s.returned ++ s.recvBuf.buf := by
    unfold Core.consumeFIN
    simp only
    split <;> rfl
  refine h.frame hun hblank (fun ht => ?_) hret fun ht => ?_
  · cases hno.symm.trans ht
  · cases hno.symm.trans ht

theorem receives_step (h : CoreStep e o s t) (hpeer : PeerOpens base live e)
    (ht : receives t.state = true) : receives s.state = true ∨ e.payload = [] := by
  cases h with
  | connect | setup => cases ht
  | acceptSYN _ he | acceptCookie _ _ he | fin he =>
    rw [he]
    exact .inr rfl
  | synAckIn he _ hsyn | synIn he _ hsyn =>
    rw [he] at hpeer ⊢
    exact .inr (hpeer hsyn).2.1
  | synRcvdAck _ hs | finAcked _ hs =>
    rw [hs]
    exact .inl rfl
  | closingAcked | shut => cases ht
  | finIn _ _ hs => cases (receives_consumeFIN hs).symm.trans ht
  | finDeferred _ _ hs =>
    have hsees : seesFIN s.state = true := by
      rcases hs with hs | hs | hs <;> rw [hs] <;> rfl
    cases (receives_consumeFIN hsees).symm.trans ht
  | _ => exact .inl ht

theorem Receives.step (h : s.Receives base l live) (hst : CoreStep e o s t)
    (honce : s.OpensOnce e) (hpeer : PeerOpens base live e) (hquiet : e.payload = [] ∨ receives s.state = false) :
    t.Receives base l live := by
  have hun := hst.unopened h.unopened
  have hfresh : e.opens = true → s.state = .closed ∨ s.state = .listen → s.opened = false := by
    intro he hs
    by_contra hno
    exact absurd hs (not_or.2 (honce he (by simpa using hno)))
  -- a segment without payload is inserted nowhere
  have hnil : ∀ (r : RecvBuf) (seq : BitVec 32), (r.insert seq []).1 = r := fun r seq => rfl
  have hopened : s.state = .synSent → s.opened = true := by
    intro hs
    by_contra hno
    cases hs.symm.trans (h.unopened (by simpa using hno))
  cases hst with
  | connect cap he hs => exact h.waiting (hfresh (by rw [he]; rfl) (.inl hs)) rfl rfl rfl rfl
  | setup cap he hopen => exact h.waiting hopen rfl rfl rfl rfl
  | @acceptSYN now iss seg syn cap he hs =>
    rw [he] at hpeer
    obtain ⟨hseq, hpay, hlive⟩ := hpeer
    refine h.opening (.inl (hfresh (by rw [he]; rfl) hs)) rfl (by simp [Core.insert, emit, setState]) rfl
      s.recvBufCap ?_ hlive
    show ((newRecvBuf (seg.seq + 1) _).insert (seg.seq + 1) seg.payload).1 = _
    rw [hpay, hnil, hseq]
    rfl
  | acceptCookie cap m he =>
    rw [he] at hpeer
    exact hpeer.elim
  | @synAckIn now seg he hs hsyn =>
    rw [he] at hpeer
    obtain ⟨hseq, hpay, hlive⟩ := hpeer hsyn
    refine h.opening (.inr hs) (hopened hs) (by simp [Core.insert, setState]) rfl s.recvBufCap ?_ hlive
    show ((newRecvBuf (seg.seq + 1) _).insert (seg.seq + 1) seg.payload).1 = _
    rw [hpay, hnil, hseq]
  | @synIn now seg he hs hsyn =>
    rw [he] at hpeer
    obtain ⟨hseq, hpay, hlive⟩ := hpeer hsyn
    refine h.opening (.inr hs) (hopened hs) (by simp [Core.insert, setState]) rfl s.recvBufCap ?_ hlive
    show ((newRecvBuf (seg.seq + 1) _).insert (seg.seq + 1) seg.payload).1 = _
    rw [hpay, hnil, hseq]
  | synRcvdAck he hs =>
    refine h.frame hun ?_ (fun _ => by rw [hs]; rfl) rfl fun _ => ⟨rfl, rfl, rfl⟩
    exact Or.imp_right fun hst => by cases hst
  | @fin now seg st he hc hs =>
    refine h.frame hun ?_ (fun ht => ?_) rfl fun _ => ⟨rfl, rfl, rfl⟩
    · refine Or.imp_right fun hst => ?_
      have hst' : st = .synSent := hst
      rcases hs with ⟨-, rfl⟩ | ⟨-, rfl⟩ | ⟨-, rfl⟩ <;> cases hst'
    · have ht' : receives st = true := ht
      rcases hs with ⟨hs, -⟩ | ⟨-, rfl⟩ | ⟨hs, -⟩
      · rw [hs]
        rfl
      · cases ht'
      · rw [hs]
        rfl
  | @insert now seg he hs =>
    have hpay : seg.payload = [] := by
      rcases hquiet with hq | hq
      · rw [he] at hq
        exact hq
      · rcases hs with hs | hs | hs <;> rw [hs] at hq <;> cases hq
    have hsame : s.insert seg.seq seg.payload = s := by
      unfold Core.insert
      rw [hpay, hnil]
    rw [hsame]
    exact h
  | finIn he hfin hs => exact h.consumeFIN hs hun
  | finDeferred he hp hs =>
    have hsees : seesFIN s.state = true := by
      rcases hs with hs | hs | hs <;> rw [hs] <;> rfl
    have hc := h.consumeFIN hsees hun
    exact hc.frame hun id id rfl fun _ => ⟨rfl, rfl, rfl⟩
  | finAcked he hs =>
    refine h.frame hun ?_ (fun _ => by rw [hs]; rfl) rfl fun _ => ⟨rfl, rfl, rfl⟩
    exact Or.imp_right fun hst => by cases hst
  | closingAcked he hs =>
    refine h.frame hun ?_ (fun ht => by cases ht) rfl fun _ => ⟨rfl, rfl, rfl⟩
    exact Or.imp_right fun hst => by cases hst
  | @read now n he ho =>
    refine h.frame hun id id ?_ fun _ => ⟨rfl, rfl, rfl⟩
    show s.returned ++ s.recvBuf.buf.take n ++ s.recvBuf.buf.drop n = _
    rw [List.append_assoc, List.take_append_drop]
  | shut =>
    refine h.frame hun ?_ (fun ht => by cases ht) rfl fun _ => ⟨rfl, rfl, rfl⟩
    exact Or.imp_right fun hst => by cases hst
  | _ => exact h.frame hun id id rfl fun _ => ⟨rfl, rfl, rfl⟩

theorem recvBuf_fins_step (h : CoreStep e o s t) (hs : receives s.state = true → s.recvBuf.fins = 0)
    (ht : receives t.state = true) : t.recvBuf.fins = 0 := by
  have hins : ∀ (r : RecvBuf) seq data, r.fins = 0 → (r.insert seq data).1.fins = 0 :=
    fun r seq data hr => (RecvBuf.insert_extends r seq data).fins.trans hr
  cases h with
  | connect | setup => rfl
  | acceptSYN | acceptCookie | synAckIn | synIn => exact hins _ _ _ rfl
  | synRcvdAck _ hst | finAcked _ hst =>
    refine hs ?_
    rw [hst]
    rfl
  | @fin now seg st _ _ hst =>
    have ht' : receives st = true := ht
    rcases hst with ⟨hst, -⟩ | ⟨-, rfl⟩ | ⟨hst, -⟩
    · exact hs (by rw [hst]; rfl)
    · cases ht'
    · exact hs (by rw [hst]; rfl)
  | insert => exact hins _ _ _ (hs ht)
  | finIn _ _ hst => cases (receives_consumeFIN hst).symm.trans ht
  | finDeferred _ _ hst =>
    have hsees : seesFIN s.state = true := by
      rcases hst with hst | hst | hst <;> rw [hst] <;> rfl
    cases (receives_consumeFIN hsees).symm.trans ht
  | closingAcked | shut => cases ht
  | _ => exact hs ht

theorem synSent_step (h : CoreStep e o s t) (he : e.opens = false)
    (ht : t.state = .synSent) : s.state = .synSent := by
  cases h with
  | connect _ he' | setup _ he' =>
    rw [he'] at he
    cases he
  | @fin now seg st _ _ hst =>
    have ht' : st = .synSent := ht
    rcases hst with ⟨-, rfl⟩ | ⟨-, rfl⟩ | ⟨-, rfl⟩ <;> cases ht'
  | finIn | finDeferred =>
    revert ht
    unfold consumeFIN
    simp only
    split
    · rename_i ha
      intro ht
      have hlate := late_afterFIN (s.sendBuf.unacked == 0) ha
      have ht' : afterFIN (s.sendBuf.unacked == 0) s.state = .synSent := ht
      rw [ht'] at hlate
      cases hlate
    · exact id
  | acceptSYN | acceptCookie | synAckIn | synIn | synRcvdAck | finAcked | closingAcked | shut => cases ht
  | _ => exact ht

theorem recvBufCap_step (h : CoreStep e o s t) : t.recvBufCap = s.recvBufCap := by
  cases h with
  | finIn | finDeferred =>
    unfold consumeFIN
    simp only
    split <;> rfl
  | _ => rfl

end Core

theorem Placement.recvBuf_take (first : BitVec 32) (finAt : Option (BitVec 32)) (size : Nat) {seg : Segment} (x : Intake)
    (hne : seg.payload ≠ []) :
    (Placement.take ⟨false, first, finAt⟩ size seg x).recvBuf.buf = (x.recvBuf.insert first seg.payload).1.buf ∧
      ((Placement.take ⟨false, first, finAt⟩ size seg x).recvBuf.fins = 0 →
        (Placement.take ⟨false, first, finAt⟩ size seg x).recvBuf = (x.recvBuf.insert first seg.payload).1) := by
  have hdata : (x.data first seg.payload).recvBuf = (x.recvBuf.insert first seg.payload).1 ∨
      (x.data first seg.payload).recvBuf = (x.recvBuf.insert first seg.payload).1.consumeFIN := by
    unfold Intake.data
    rw [if_neg hne]
    simp only
    split
    · exact .inr rfl
    · exact .inl rfl
  have hbuf : (x.data first seg.payload).recvBuf.buf = (x.recvBuf.insert first seg.payload).1.buf := by
    rcases hdata with h | h <;> rw [h]
    rfl
  have hfins : (x.data first seg.payload).recvBuf.fins = 0 →
      (x.data first seg.payload).recvBuf = (x.recvBuf.insert first seg.payload).1 := by
    rcases hdata with h | h
    · exact fun _ => h
    · rw [h]
      exact fun hz => by cases hz
  unfold Placement.take
  simp only [Bool.false_eq_true, if_false]
  cases finAt with
  | none => exact ⟨hbuf, hfins⟩
  | some num =>
    simp only [Intake.fin]
    split
    · exact ⟨hbuf, fun hz => by cases hz⟩
    · exact ⟨hbuf, hfins⟩

/-! ### One event of the receiver -/

namespace Host

variable {σ : Type} [CongestionController σ] {P : Host σ → Event → Prop} {h h' : Host σ} {base : BitVec 32} {l : Labels}
  {live : Bool}

theorem receives_next {e : Event} (hn : h.next e = some h') (hR : h.core.Receives base l live) (honce : h.core.OpensOnce e)
    (hpeer : Core.PeerOpens base live e) (hquiet : e.payload = [] ∨ Core.receives h.conn.state = false) :
    h'.core.Receives base l live := by
  have hstart : (h.core.receive e).Receives base l live ∧ (h.core.receive e).OpensOnce e ∧
      (e.payload = [] ∨ Core.receives (h.core.receive e).state = false) := by
    refine ⟨?_, ?_, ?_⟩
    · cases e <;> exact hR.frame hR.unopened id id rfl fun _ => ⟨rfl, rfl, rfl⟩
    · cases e <;> exact honce
    · cases e <;> exact hquiet
  have key := (next_core hn).induction
    (I := fun s => s.Receives base l live ∧ s.OpensOnce e ∧ (e.payload = [] ∨ Core.receives s.state = false)) hstart ?_
  · exact key.1
  · rintro s t ⟨hs, honce', hquiet'⟩ hst
    refine ⟨hs.step hst honce' hpeer hquiet', hst.opensOnce honce', ?_⟩
    rcases hquiet' with hq | hq
    · exact .inl hq
    · by_cases ht : Core.receives t.state = true
      · rcases Core.receives_step hst hpeer ht with hs' | hpay
        · cases hq.symm.trans hs'
        · exact .inl hpay
      · exact .inr (Bool.eq_false_of_not_eq_true ht)

theorem segment_keeps {now : Int} {seg : Segment} (hn : h.next (.segment now seg) = some h')
    (ho : h.conn.opened = true) (hst : h.conn.state ≠ .synSent)
    (hf : Core.receives h.conn.state = true → h.conn.recvBuf.fins = 0) :
    h'.conn.opened = true ∧ h'.conn.state ≠ .synSent ∧
      (Core.receives h'.conn.state = true → h'.conn.recvBuf.fins = 0) := by
  have hstep := (next_core hn).induction
    (I := fun s => s.opened = true ∧ s.state ≠ .synSent ∧ (Core.receives s.state = true → s.recvBuf.fins = 0))
    ⟨ho, hst, hf⟩ ?_
  · exact hstep
  · rintro s t ⟨hso, hss, hsf⟩ hst
    have honce : s.OpensOnce (.segment now seg) := fun he => by cases he
    exact ⟨(hst.iss honce hso).1, fun ht => hss (Core.synSent_step hst rfl ht), Core.recvBuf_fins_step hst hsf⟩

theorem recvBuf_segment {now : Int} {seg : Segment} (hn : h.next (.segment now seg) = some h')
    (hst : h.conn.state ≠ .synSent) (hne : seg.payload ≠ []) :
    h'.conn.recvBuf = h.conn.recvBuf ∨
      h'.conn.recvBuf.buf = (h.conn.recvBuf.insert seg.seq seg.payload).1.buf ∧
        (h'.conn.recvBuf.fins = 0 → h'.conn.recvBuf = (h.conn.recvBuf.insert seg.seq seg.payload).1) := by
  have hintake : h'.conn.intake = (h.conn.handleSegment now seg).intake := by
    rw [conn_segment hn]
    rfl
  cases hpl : h.conn.placement seg with
  | none =>
    left
    rw [Conn.intake_handleSegment_of_none now hpl] at hintake
    exact congrArg Intake.recvBuf hintake
  | some pl =>
    right
    have hplace : ∃ finAt, pl = ⟨false, seg.seq, finAt⟩ := by
      unfold Conn.placement at hpl
      split at hpl
      · rename_i hs
        exact absurd hs hst
      case h_6 => cases hpl
      all_goals split at hpl
      all_goals cases hpl
      all_goals exact ⟨_, rfl⟩
    obtain ⟨finAt, rfl⟩ := hplace
    have htake := Placement.recvBuf_take seg.seq finAt h.conn.recvBufCap h.conn.intake hne
    rw [← Conn.intake_handleSegment now hpl, ← hintake] at htake
    exact htake

theorem receives_segment {now : Int} {iss : BitVec 32} {p : Packet} (hn : h.next (.segment now p.seg) = some h')
    (hR : h.core.Receives (iss + 1) l live) (hp : l.Holds iss p) (hne : p.seg.payload ≠ [])
    (hrcv : Core.receives h.conn.state = true) (hw : h.conn.recvBuf.windowSize ≤ 2 ^ 31)
    (hold : h.consumed + 1 ≤ p.pos + 2 ^ 31) (hnew : p.pos + p.seg.payload.length ≤ h.consumed + 1 + 2 ^ 31) :
    h'.core.Receives (iss + 1) l live := by
  obtain ⟨k, hk⟩ := hR.follows hrcv
  have hzero : h.conn.recvBuf.fins = 0 := hR.fins hrcv
  have hcons : h.consumed = k.next := by
    have hnext : k.next = h.returned.length + h.conn.recvBuf.buf.length := hk.next_eq
    unfold consumed
    omega
  obtain ⟨k', hk'⟩ := hk.insert hp hw (by omega) (by omega)
  have hopen : h.conn.opened = true := by
    by_contra hno
    have hcl : h.conn.state = .closed := hR.unopened (Bool.eq_false_of_not_eq_true hno)
    rw [hcl] at hrcv
    cases hrcv
  have hsent : h.conn.state ≠ .synSent := by
    intro hs
    rw [hs] at hrcv
    cases hrcv
  obtain ⟨hopen', hsent', hfins'⟩ := segment_keeps hn hopen hsent hR.fins
  have hret : h'.returned = h.returned := by
    rw [← Option.some.inj (apply_of_next hn).1]
    rfl
  have hbuf := recvBuf_segment hn hsent hne
  refine ⟨?_, ?_, fun _ => hR.peer hrcv, hfins', fun ht => ?_, ?_⟩
  · intro hno
    cases hno.symm.trans hopen'
  · rintro (hno | hs)
    · cases hno.symm.trans hopen'
    · exact absurd hs hsent'
  · rcases hbuf with hsame | ⟨-, hins⟩
    · refine ⟨k, hk.of_eq hsame.symm ?_⟩
      show h'.returned ++ h'.conn.recvBuf.buf = h.returned ++ h.conn.recvBuf.buf
      rw [hret, hsame]
    · have heq := hins (hfins' ht)
      refine ⟨k', hk'.of_eq heq.symm ?_⟩
      show h'.returned ++ h'.conn.recvBuf.buf = h.returned ++ (h.conn.recvBuf.insert p.seg.seq p.seg.payload).1.buf
      rw [hret, heq]
  · show h'.returned ++ h'.conn.recvBuf.buf <+: _
    rw [hret]
    rcases hbuf with hsame | ⟨hins, -⟩
    · rw [hsame]
      exact hR.sound
    · rw [hins]
      exact hk'.sound

theorem recvBufCap_next {e : Event} (hn : h.next e = some h') : h'.conn.recvBufCap = h.conn.recvBufCap := by
  have hstart : (h.core.receive e).recvBufCap = h.conn.recvBufCap := by
    cases e <;> rfl
  exact (next_core hn).induction (I := fun s => s.recvBufCap = h.conn.recvBufCap) hstart
    fun s t hs hst => (Core.recvBufCap_step hst).trans hs

theorem windowSize_eq (hr : (system σ).Reach P h) (ho : h.conn.opened = true) :
    h.conn.recvBuf.windowSize = h.conn.recvBufCap := by
  have hsized : h.core.Sized := by
    refine reach_core hr (I := Core.Sized) (fun cfg now ho => by cases ho) fun g e t hg _ hst => ?_
    refine hst.induction (I := Core.Sized) ?_ fun _ _ hs hstep => hs.step hstep
    cases e <;> exact hg
  exact hsized ho

theorem iss_next {e : Event} (hn : h.next e = some h') (honce : h.core.OpensOnce e) (ho : h.conn.opened = true) :
    h'.conn.opened = true ∧ h'.conn.iss = h.conn.iss := by
  have hstart : (h.core.receive e).OpensOnce e ∧ (h.core.receive e).opened = true ∧
      (h.core.receive e).iss = h.conn.iss := by
    cases e <;> exact ⟨honce, ho, rfl⟩
  have key := (next_core hn).induction
    (I := fun s => s.OpensOnce e ∧ s.opened = true ∧ s.iss = h.conn.iss) hstart ?_
  · exact key.2
  · rintro s t ⟨honce', ho', hiss⟩ hst
    obtain ⟨ho'', hiss'⟩ := hst.iss honce' ho'
    exact ⟨hst.opensOnce honce', ho'', hiss'.trans hiss⟩

end Host

/-! ### Both ends -/

namespace Network

variable {σ : Type} [CongestionController σ]

/-- The condition on a run with the sender `s`: segments with payload are delivered near the next expected number, and
a retransmission starts from a number that the scoreboard leaves out. -/
def Straight (s : Side) (n : Network σ) (a : Action) : Prop :=
  (match a with
    | .deliver r _ p => p.seg.payload ≠ [] → Near (n.host r) p
    | _ => True) ∧
  (a.side = s → (n.conn s).retransmits a.event = true → (n.conn s).sendBuf.isSACKed (n.conn s).sendBuf.una = false)

instance (s : Side) (n : Network σ) (a : Action) : Decidable (Straight s n a) :=
  match a with
  | .deliver _ _ _ => inferInstanceAs (Decidable ((_ → _) ∧ (_ → _ → _)))
  | .call _ _ | .accept _ _ _ _ | .setup _ _ => inferInstanceAs (Decidable (True ∧ (_ → _ → _)))

structure Carries (s : Side) (l : Labels) (n : Network σ) : Prop where
  sender : (n.host s).core.Labelled l
  syn : ∀ seg ∈ (n.endpoint s).syn, (n.conn s).opened = true ∧ seg.seq = (n.conn s).iss ∧ seg.payload = []
  receiver : (n.host s.other).core.Receives ((n.conn s).iss + 1) l (n.conn s).opened

variable {s : Side} {l : Labels} {n n' : Network σ} {a : Action}

theorem Carries.flight (h : n.Carries s l) (hsent : (n.host s).core.emitted = (n.host s).sent) {p : Packet}
    (hp : p ∈ (n.endpoint s).inFlight) :
    (p.seg.hasFlag flagSYN = true → (n.conn s).opened = true ∧ p.seg.seq = (n.conn s).iss ∧ p.seg.payload = []) ∧
      (p.seg.payload ≠ [] → l.Holds (n.conn s).iss p) := by
  rcases List.mem_append.1 hp with hp | hp
  · obtain ⟨seg, hseg, rfl⟩ := List.mem_map.1 hp
    obtain hsyn := h.syn seg (Option.mem_toList.1 hseg)
    exact ⟨fun _ => hsyn, fun hne => absurd hsyn.2.2 hne⟩
  · have hp' : p ∈ (n.host s).core.emitted := by
      rw [hsent]
      exact hp
    exact ⟨h.sender.syns p hp', h.sender.data p hp'⟩

theorem Carries.peerOpens (h : n.Carries s l) (hsent : (n.host s).core.emitted = (n.host s).sent)
    (hal : n.allows a = true) (hs : a.side = s.other) :
    Core.PeerOpens ((n.conn s).iss + 1) (n.conn s).opened a.event := by
  have hflight : ∀ r p, r = s.other → p ∈ (n.endpoint r.other).inFlight → p.seg.hasFlag flagSYN = true →
      p.seg.seq + 1 = (n.conn s).iss + 1 ∧ p.seg.payload = [] ∧ (n.conn s).opened = true := by
    rintro r p rfl hp hsyn
    rw [Side.other_other] at hp
    obtain ⟨ho, hseq, hpay⟩ := (h.flight hsent hp).1 hsyn
    exact ⟨by rw [hseq], hpay, ho⟩
  cases a with
  | call r e =>
    cases e with
    | segment | acceptSYN | acceptCookie | setupForHandshake => cases hal
    | _ => trivial
  | deliver r now p => exact hflight r p hs (of_decide_eq_true hal)
  | accept r now iss p =>
    simp only [allows, Bool.and_eq_true, decide_eq_true_eq] at hal
    exact hflight r p hs hal.1.1.1 hal.1.1.2
  | setup => trivial

theorem not_acceptCookie (hal : n.allows a = true) (seq iss : BitVec 32) (mss : BitVec 16) (data : List Byte) :
    a.event ≠ .acceptCookie seq iss mss data := by
  cases a with
  | call r e =>
    rintro rfl
    cases hal
  | _ => exact fun h => by cases h

theorem Carries.send {P : Host σ → Event → Prop} (h : n.Carries s l) (hr : (Host.system σ).Reach P (n.host s))
    (hn : n.next a = some n') (hs : a.side = s) (hP : n.Straight s a) : ∃ l', n'.Carries s l' := by
  obtain ⟨hal, hstep, hsyn, hother⟩ := of_next hn
  have honce := opensOnce hal
  have hcookie := not_acceptCookie hal
  subst hs
  obtain ⟨l', hgrow, hl'⟩ := Host.labelled_next hr hstep h.sender honce hcookie (hP.2 rfl)
  have hhost : n'.host a.side.other = n.host a.side.other := by rw [host, host, hother]
  refine ⟨l', hl', ?_, ?_⟩
  · intro seg hseg
    rw [hsyn] at hseg
    cases a with
    | setup r syn =>
      cases hseg
      simp only [allows, Bool.and_eq_true, decide_eq_true_eq] at hal
      have happ := (Host.apply_of_next hstep).1
      simp only [Action.event, Host.apply] at happ
      split at happ
      · cases happ
      · have hconn := congrArg Host.conn (Option.some.inj happ)
        refine ⟨?_, ?_, hal.1.2⟩
        · rw [conn, ← hconn]
          rfl
        · rw [conn, ← hconn]
          rfl
    | _ =>
      obtain ⟨ho, hseq, hpay⟩ := h.syn seg hseg
      obtain ⟨ho', hiss⟩ := Host.iss_next hstep honce ho
      exact ⟨ho', hseq.trans hiss.symm, hpay⟩
  · rw [hhost]
    by_cases ho : (n.conn a.side).opened = true
    · obtain ⟨ho', hiss⟩ := Host.iss_next hstep honce ho
      have hsame : (n'.conn a.side).iss + 1 = (n.conn a.side).iss + 1 := congrArg (· + 1) hiss
      have hopen : (n'.conn a.side).opened = (n.conn a.side).opened := Eq.trans ho' ho.symm
      rw [hsame, hopen]
      exact h.receiver.grow hgrow
    · have hrec := h.receiver
      rw [Bool.eq_false_of_not_eq_true ho] at hrec
      exact hrec.peer_opens.grow hgrow

theorem Carries.receive (h : n.Carries s l) (hsent : (n.host s).core.emitted = (n.host s).sent)
    (hw : (n.conn s.other).opened = true → (n.conn s.other).recvBuf.windowSize ≤ 2 ^ 31) (hn : n.next a = some n')
    (hs : a.side = s.other) (hP : n.Straight s a) : n'.Carries s l := by
  obtain ⟨hal, hstep, -, hother⟩ := of_next hn
  have honce := opensOnce hal
  have hpeer := h.peerOpens hsent hal hs
  rw [hs, Side.other_other] at hother
  have hhost : n'.host s = n.host s := by rw [host, host, hother]
  have hconn : n'.conn s = n.conn s := by rw [conn, conn, hhost]
  refine ⟨by rw [hhost]; exact h.sender, by rw [hother, hconn]; exact h.syn, ?_⟩
  rw [hconn]
  rw [hs] at hstep honce
  by_cases hquiet : a.event.payload = [] ∨ Core.receives (n.conn s.other).state = false
  · exact Host.receives_next hstep h.receiver honce hpeer hquiet
  · obtain ⟨hne, hrcv⟩ := not_or.1 hquiet
    have hrcv' : Core.receives (n.conn s.other).state = true := Bool.eq_true_of_not_eq_false hrcv
    cases a with
    | deliver r now p =>
      have hr : r = s.other := hs
      subst hr
      have hp : p ∈ (n.endpoint s).inFlight := by
        have hmem := of_decide_eq_true hal
        rwa [Side.other_other] at hmem
      have hnear := hP.1 hne
      have hopen : (n.conn s.other).opened = true := by
        by_contra hno
        have hcl : (n.conn s.other).state = .closed := h.receiver.unopened (Bool.eq_false_of_not_eq_true hno)
        rw [hcl] at hrcv'
        cases hrcv'
      exact Host.receives_segment hstep h.receiver ((h.flight hsent hp).2 hne) hne hrcv' (hw hopen) hnear.1 hnear.2
    | call r e =>
      cases e with
      | segment => cases hal
      | _ => exact absurd rfl hne
    | accept => exact absurd rfl hne
    | setup => exact absurd rfl hne

/-- The bytes `Read` has returned at one end are the first of the bytes `Write` has accepted at the other, in every
straight run. -/
theorem stream_safety {cfg : Side → ConnConfig} {s : Side} (hcap : (cfg s.other).effRecvBuf ≤ 2 ^ 30) {n : Network σ}
    (hr : (system σ cfg).Reach (Straight s) n) : (n.host s.other).returned <+: (n.host s).accepted := by
  have hinv : (∃ l, n.Carries s l) ∧ (n.conn s.other).recvBufCap = (cfg s.other).effRecvBuf := by
    refine hr.invariant
      (I := fun m => (∃ l, m.Carries s l) ∧ (m.conn s.other).recvBufCap = (cfg s.other).effRecvBuf) ?_ ?_
    · intro m hm
      obtain ⟨now, hnow⟩ := hm s
      obtain ⟨now', hnow'⟩ := hm s.other
      refine ⟨⟨⟨[], none⟩, ?_, ?_, ?_⟩, ?_⟩
      · rw [host, hnow]
        exact Core.Labelled.fresh_conn _ _
      · rw [hnow]
        exact fun seg hseg => by cases hseg
      · rw [host, hnow']
        exact ⟨fun _ => rfl, fun _ => rfl, (fun ht => by cases ht), (fun ht => by cases ht), (fun ht => by cases ht),
          List.nil_prefix⟩
      · rw [conn, host, hnow']
        rfl
    · rintro m a m' hm ⟨⟨l, hl⟩, hcap'⟩ hP hn
      have hreach : ∀ r, (Host.system σ).Reach anyStep (m.host r) := fun r => reach_host hm r fun _ _ _ _ => trivial
      obtain ⟨-, hstep, -, hother⟩ := of_next hn
      rcases Side.eq_or_eq_other s a.side with hs | hs
      · refine ⟨hl.send (hreach s) hn hs hP, ?_⟩
        rw [hs] at hother
        rw [conn, host, hother]
        exact hcap'
      · refine ⟨⟨l, hl.receive (Host.emitted_core (hreach s)) (fun ho => ?_) hn hs hP⟩, ?_⟩
        · have hsize := Host.windowSize_eq (hreach s.other) ho
          have hcap'' : (m.host s.other).conn.recvBufCap = (cfg s.other).effRecvBuf := hcap'
          rw [conn, hsize, hcap'']
          omega
        · rw [hs] at hstep
          exact (Host.recvBufCap_next hstep).trans hcap'
  obtain ⟨⟨l, hl⟩, -⟩ := hinv
  have hall := hl.receiver.sound.trans hl.sender.sound_accepted
  exact (List.prefix_append _ _).trans hall

theorem stream_safety_twoBytes :
    ((fresh (fun _ => oneByteConfig) 0 : Network SmallController).run twoBytes).right.host.returned = [10, 11] ∧
      ((fresh (fun _ => oneByteConfig) 0 : Network SmallController).run twoBytes).right.host.returned <+:
        ((fresh (fun _ => oneByteConfig) 0 : Network SmallController).run twoBytes).left.host.accepted := by
  have hr : (system SmallController fun _ => oneByteConfig).Reach (Straight .left)
      ((fresh (fun _ => oneByteConfig) 0).run twoBytes) :=
    run_reach (by decide +kernel) (by decide +kernel)
  exact ⟨by decide +kernel, stream_safety (s := .left) (by decide) hr⟩

/-- An old acknowledgment puts `SND.UNA` into the scoreboard, and the byte 21 is returned where 20 was written. -/
theorem stream_broken_by_old_block :
    ∃ n : Network SmallController, oneByteConfig.effRecvBuf ≤ 2 ^ 30 ∧
      (system SmallController fun _ => oneByteConfig).Reach DeliversNear n ∧ (n.conn .left).state = .established ∧
      (n.conn .right).state = .established ∧ ¬(n.host .right).returned <+: (n.host .left).accepted := by
  have hr : (system SmallController fun _ => oneByteConfig).Reach DeliversNear
      ((fresh (fun _ => oneByteConfig) 0).run twoBytes) :=
    run_reach (by decide +kernel) (by decide +kernel)
  obtain ⟨m, hm, hidle⟩ := idle_twoBytes.rounds (fun _ => oneByteConfig) (2 ^ 32 - 1)
  have hx : 3 + (2 ^ 32 - 1) = 2 ^ 32 + 2 := by decide
  rw [hx] at hidle
  obtain ⟨n, hn, hl, hrt, hwrong⟩ := hidle.block_again fun _ => oneByteConfig
  exact ⟨n, by decide, (hr.steps hm).steps hn, hl, hrt, hwrong⟩

end Network

end Libp2px.Vtcp
