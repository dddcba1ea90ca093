import Libp2px.Vtcp.Sender

/-!
# What a firing of the RTO timer sends

`onRTOTimeout` sends the SYN again during the handshake and the first outstanding bytes in ESTABLISHED and CLOSE-WAIT.
In the states after `Close` it sends a FIN with a new number or nothing, so the oldest outstanding number is not sent
again there.  A retransmission has the number `SND.UNA` and up to a segment of data; it fails to stop before the next
block of the scoreboard, and a block on `SND.UNA` itself makes it carry later data (`Conn.retransmit_fills_iff`).
-/

namespace Libp2px.Vtcp

open Transition CongestionController

variable {σ : Type} [CongestionController σ]

namespace Conn

/-- Whether a segment has the number `SND.UNA` and carries what has it: the SYN during the handshake, then the first
byte of the buffer, and the FIN when it is empty. -/
def carriesOldest (seg : Segment) (c : Conn σ) : Bool :=
  decide (seg.seq = c.sendBuf.una) &&
    if c.state = .synSent ∨ c.state = .synReceived then seg.hasFlag flagSYN
    else
      match c.sendBuf.buf with
      | b :: _ => seg.payload.head? == some b
      | [] => seg.hasFlag flagFIN

/-- The states in which the RTO timer sends the oldest outstanding number again. -/
def ResendsOldest (c : Conn σ) : Prop :=
  c.closed = false ∧
    (c.state = .synSent ∨ c.state = .synReceived ∨ (c.state = .established ∨ c.state = .closeWait) ∧ 0 < c.mss)

instance (c : Conn σ) : Decidable c.ResendsOldest := by
  unfold ResendsOldest
  infer_instance

end Conn

/-- The scoreboard leaves out `SND.UNA`, and less than half the number space is outstanding if it has a block. -/
def SendBuf.OldestUnsacked (s : SendBuf) : Prop :=
  s.sacked = [] ∨ s.isSACKed s.una = false ∧ seqBefore s.una s.nxt = true

instance (s : SendBuf) : Decidable s.OldestUnsacked := by
  unfold SendBuf.OldestUnsacked
  infer_instance

namespace SendBuf

theorem skipChanged_eq_any (blocks : List SACKBlock) (seq : BitVec 32)
    (h : blocks.any (fun b => covers b seq) = false) : skipChanged blocks seq = false := by
  induction blocks with
  | nil => rfl
  | cons b bs ih =>
    rw [List.any_cons, Bool.or_eq_false_iff] at h
    rw [skipChanged, h.1, ih h.2]
    rfl

variable {s : SendBuf}

theorem skipSACKed_una (h : s.isSACKed s.una = false) :
    skipSACKed s.sacked (s.sacked.length + 2) s.una = some s.una := by
  rw [skipSACKed, skipChanged_eq_any _ _ h]
  rfl

theorem retransmitData_una {n : Nat} {data : List Byte} (h : s.isSACKed s.una = false)
    (hd : s.retransmitData n = some data) : data = [] ∨ data = s.buf.take (s.resendLength n) := by
  unfold retransmitData at hd
  simp only [skipSACKed_una h] at hd
  have htake : (s.buf.take (if s.unacked > s.buf.length then s.buf.length else s.unacked)).take n =
      s.buf.take (s.resendLength n) := by
    rw [List.take_take, resendLength]
    congr 1
    split <;> omega
  generalize (if s.unacked > s.buf.length then s.buf.length else s.unacked) = u at hd htake
  split at hd
  · exact .inr ((Option.some.inj hd).symm.trans htake)
  · split at hd
    · exact .inl (Option.some.inj hd).symm
    · split at hd
      · exact .inl (Option.some.inj hd).symm
      · rw [BitVec.sub_self] at hd
        exact .inr ((Option.some.inj hd).symm.trans htake)

theorem retransmitData_begins {n : Nat} {data : List Byte} (h : s.isSACKed s.una = false)
    (hd : s.retransmitData n = some data) : data <+: s.buf := by
  rcases retransmitData_una h hd with rfl | rfl
  · exact List.nil_prefix
  · exact List.take_prefix _ _

theorem retransmitData_oldest (h : s.OldestUnsacked) (hu : s.unacked ≤ s.buf.length) (n : Nat) :
    s.retransmitData n = some ((s.buf.take s.unacked).take n) := by
  have hle : ¬s.unacked > s.buf.length := by omega
  unfold retransmitData
  simp only [if_neg hle]
  split
  · rfl
  · rename_i hne
    obtain ⟨hs, hb⟩ := h.resolve_left hne
    have hdist : (s.una - s.nxt).toInt < 0 := by simpa [seqBefore] using hb
    have hafter : seqAfterEq s.una s.nxt = false := by
      simp only [seqAfterEq, decide_eq_false_iff_not]
      omega
    have hpos : 0 < s.unacked := by
      by_contra hzero
      have heq : s.nxt = s.una := by
        unfold unacked at hzero
        bv_omega
      rw [heq] at hdist
      simp at hdist
    rw [skipSACKed_una hs]
    simp only [hafter, Bool.false_eq_true, if_false, BitVec.sub_self, BitVec.toNat_ofNat, Nat.zero_mod]
    rw [if_neg (by omega), List.drop_zero]

end SendBuf

namespace Conn

variable {c : Conn σ}

theorem onRTOTimeout_eq (now : Int) (hc : c.closed = false) (hs : c.state ≠ .closed) (hret : c.retries < maxRetries) :
    ∃ rto, onRTOTimeout now c =
      (resend now { c with retries := c.retries + 1, rto := rto, cc := onTimeout c.cc }).startRTO := by
  have hresends : c.resends = true := by simp [resends, hc, hs, hret]
  rcases onRTOTimeout_cases now c with ⟨hno, -⟩ | ⟨-, ⟨-, hno, -⟩ | ⟨-, heq⟩⟩
  · cases hno.symm.trans hresends
  · cases hno.symm.trans hresends
  · exact ⟨_, heq⟩

omit [CongestionController σ] in
theorem retransmit_data (now : Int) {data : List Byte} (hd : c.sendBuf.retransmitData c.mss = some data)
    (hne : data ≠ []) : ∃ rto t, retransmit now c =
      { c with rto := rto, rtoTimer := t
               outgoing := c.outgoing ++ [⟨c.ackSegment now c.sendBuf.una (flagACK ||| flagPSH) data,
                c.sendBuf.pos c.sendBuf.una, c.freeSpace⟩] } := by
  unfold retransmit
  rw [hd]
  simp only [hne, if_false]
  exact ⟨_, _, rfl⟩

omit [CongestionController σ] in
theorem retransmit_oldest (now : Int) (hu : c.sendBuf.unacked ≤ c.sendBuf.buf.length)
    (hsack : c.sendBuf.OldestUnsacked) (hout : c.outgoing = []) :
    (retransmit now c).hung = c.hung ∧
      (retransmit now c).outgoing =
        if (c.sendBuf.buf.take c.sendBuf.unacked).take c.mss = [] then []
        else [⟨c.ackSegment now c.sendBuf.una (flagACK ||| flagPSH) ((c.sendBuf.buf.take c.sendBuf.unacked).take c.mss),
          c.sendBuf.pos c.sendBuf.una, c.freeSpace⟩] := by
  unfold retransmit
  rw [SendBuf.retransmitData_oldest hsack hu]
  simp only
  split
  · exact ⟨rfl, hout⟩
  · refine ⟨rfl, ?_⟩
    show c.outgoing ++ _ = _
    rw [hout]
    rfl

omit [CongestionController σ] in
theorem exists_carriesOldest_retransmit (now : Int) (hs : c.state = .established ∨ c.state = .closeWait)
    (hpos : 0 < c.sendBuf.unacked) (hu : c.sendBuf.unacked ≤ c.sendBuf.buf.length) (hsack : c.sendBuf.OldestUnsacked)
    (hout : c.outgoing = []) :
    (∃ p ∈ (retransmit now c).outgoing, c.carriesOldest p.seg = true) ↔ 0 < c.mss := by
  have hns : ¬(c.state = .synSent ∨ c.state = .synReceived) := by
    rcases hs with hs | hs <;> rw [hs] <;> decide
  rw [(retransmit_oldest now hu hsack hout).2]
  cases hbuf : c.sendBuf.buf with
  | nil =>
    rw [hbuf] at hu
    exact absurd hu (by simp; omega)
  | cons b bs =>
    obtain ⟨k, hk⟩ := Nat.exists_eq_succ_of_ne_zero (Nat.ne_of_gt hpos)
    rw [hk, List.take_succ_cons]
    cases hmss : c.mss with
    | zero => simp
    | succ m =>
      rw [List.take_succ_cons, if_neg (List.cons_ne_nil _ _)]
      constructor
      · exact fun _ => Nat.succ_pos _
      · intro _
        refine ⟨_, List.mem_singleton.2 rfl, ?_⟩
        simp [carriesOldest, hns, hbuf, ackSegment]

omit [CongestionController σ] in
theorem exists_carriesOldest_resend (now : Int) (hc : c.closed = false) (hout : c.outgoing = [])
    (hne : c.sendBuf.una ≠ c.sendBuf.nxt)
    (hu : c.state = .established ∨ c.state = .closeWait → c.sendBuf.unacked ≤ c.sendBuf.buf.length)
    (hsack : c.sendBuf.OldestUnsacked) :
    (resend now c).hung = c.hung ∧
      ((∃ p ∈ (resend now c).outgoing, c.carriesOldest p.seg = true) ↔ c.ResendsOldest) := by
  have hpos : 0 < c.sendBuf.unacked := by
    by_contra hzero
    apply hne
    unfold SendBuf.unacked at hzero
    bv_omega
  have hsyn : ∀ seg : Segment, c.state = .synSent ∨ c.state = .synReceived → seg.seq = c.sendBuf.una →
      seg.hasFlag flagSYN = true →
        ((∃ p ∈ (c.queueSeg seg).outgoing, c.carriesOldest p.seg = true) ↔ c.ResendsOldest) := by
    intro seg hs hseq hf
    refine ⟨fun _ => ⟨hc, ?_⟩, fun _ => ⟨⟨seg, c.sendBuf.pos seg.seq, c.freeSpace⟩, ?_, ?_⟩⟩
    · exact hs.imp_right .inl
    · exact List.mem_append_right _ (List.mem_singleton.2 rfl)
    · simp [carriesOldest, hs, hseq, hf]
  have hnot : ∀ d : Conn σ, d.outgoing = [] ∨ d.outgoing = (queueFIN now c).outgoing → c.state ≠ .synSent →
      c.state ≠ .synReceived → c.state ≠ .established → c.state ≠ .closeWait →
        ((∃ p ∈ d.outgoing, c.carriesOldest p.seg = true) ↔ c.ResendsOldest) := by
    intro d hd h1 h2 h3 h4
    constructor
    · rintro ⟨p, hp, hcarry⟩
      rcases hd with hd | hd
      · rw [hd] at hp
        cases hp
      · -- the FIN is sent with number `SND.NXT`
        have hq : (queueFIN now c).outgoing = [⟨c.ackSegment now c.sendBuf.nxt (flagFIN ||| flagACK) [],
            c.sendBuf.pos c.sendBuf.nxt, c.freeSpace⟩] := by
          show c.outgoing ++ _ = _
          rw [hout]
          rfl
        rw [hd, hq, List.mem_singleton] at hp
        rw [hp, carriesOldest, Bool.and_eq_true, decide_eq_true_eq] at hcarry
        exact absurd hcarry.1.symm hne
    · rintro ⟨-, hs | hs | ⟨hs | hs, -⟩⟩
      · exact absurd hs h1
      · exact absurd hs h2
      · exact absurd hs h3
      · exact absurd hs h4
  have hdata : c.state = .established ∨ c.state = .closeWait →
      ((∃ p ∈ (retransmit now c).outgoing, c.carriesOldest p.seg = true) ↔ c.ResendsOldest) := by
    intro hs
    rw [exists_carriesOldest_retransmit now hs hpos (hu hs) hsack hout]
    constructor
    · exact fun hm => ⟨hc, .inr (.inr ⟨hs, hm⟩)⟩
    · rintro ⟨-, h1 | h1 | ⟨-, hm⟩⟩
      · rcases hs with hs | hs <;> cases hs.symm.trans h1
      · rcases hs with hs | hs <;> cases hs.symm.trans h1
      · exact hm
  unfold resend
  split
  · exact ⟨rfl, hsyn _ (.inl ‹_›) rfl (isSyn_syn { conn := c } c now _).syn⟩
  · exact ⟨rfl, hsyn _ (.inr ‹_›) rfl (isSyn_synAck { conn := c } c now _).syn⟩
  · exact ⟨(retransmit_oldest now (hu (.inl ‹_›)) hsack hout).1, hdata (.inl ‹_›)⟩
  · exact ⟨(retransmit_oldest now (hu (.inr ‹_›)) hsack hout).1, hdata (.inr ‹_›)⟩
  · exact ⟨rfl, hnot _ (.inr rfl) (by simp [*]) (by simp [*]) (by simp [*]) (by simp [*])⟩
  · exact ⟨rfl, hnot _ (.inr rfl) (by simp [*]) (by simp [*]) (by simp [*]) (by simp [*])⟩
  · exact ⟨rfl, hnot _ (.inl hout) (by assumption) (by assumption) (by assumption) (by assumption)⟩

end Conn

namespace Host

theorem not_hung {P : Host σ → Event → Prop} {h : Host σ} (hr : (system σ).Reach P h) : h.conn.hung = false := by
  refine hr.invariant (I := fun g => g.conn.hung = false) ?_ ?_
  · rintro g ⟨cfg, now, rfl⟩
    rfl
  · intro g e g' _ _ _ hn
    exact (apply_of_next hn).2

/-- A firing of the RTO timer returns, and one of the packets it sends carries the oldest outstanding number. -/
def ResendsOldest (h : Host σ) (now : Int) : Prop :=
  ∃ h', h.next (.rto now) = some h' ∧ ∃ p ∈ h'.sent.drop h.sent.length, h.conn.carriesOldest p.seg = true

theorem resendsOldest_iff {h : Host σ} {now : Int} (hh : (h.conn.onRTOTimeout now).hung = false) :
    h.ResendsOldest now ↔ ∃ p ∈ (h.conn.onRTOTimeout now).outgoing, h.conn.carriesOldest p.seg = true := by
  have hn : h.next (.rto now) = some (h.finish (h.conn.onRTOTimeout now)) := by
    have hh' : (h.finish (h.conn.onRTOTimeout now)).conn.hung = false := hh
    unfold next
    simp [apply, hh']
  have hdrop : (h.finish (h.conn.onRTOTimeout now)).sent.drop h.sent.length = (h.conn.onRTOTimeout now).outgoing :=
    List.drop_left
  unfold ResendsOldest
  rw [hn]
  constructor
  · rintro ⟨h', heq, hp⟩
    rwa [← Option.some.inj heq, hdrop] at hp
  · intro hp
    exact ⟨_, rfl, by rwa [hdrop]⟩

/-- With the scoreboard leaving `SND.UNA` out, a firing of the RTO timer with retries left sends the oldest outstanding
number again exactly during the handshake and in ESTABLISHED and CLOSE-WAIT. -/
theorem rto_resends_oldest {h : Host σ} (hr : (system σ).Reach anyStep h) (now : Int) (hs : h.conn.state ≠ .closed)
    (hu : h.conn.sendBuf.una ≠ h.conn.sendBuf.nxt) (hret : h.conn.retries < maxRetries)
    (hsack : h.conn.sendBuf.OldestUnsacked) : h.ResendsOldest now ↔ h.conn.ResendsOldest := by
  have hout := outgoing_eq_nil hr
  have hh := not_hung hr
  have hinv := (send_inv hr).1
  by_cases hc : h.conn.closed = false
  · obtain ⟨rto, hrto⟩ := Conn.onRTOTimeout_eq now hc hs hret
    obtain ⟨hhung, hiff⟩ := Conn.exists_carriesOldest_resend
      (c := { h.conn with retries := h.conn.retries + 1, rto := rto, cc := onTimeout h.conn.cc }) now hc hout hu
      hinv.outstanding hsack
    rw [resendsOldest_iff, hrto]
    · exact hiff
    · rw [hrto]
      exact hhung.trans hh
  · -- the callback of an ended connection does nothing
    have hc' : h.conn.closed = true := by simpa using hc
    have hrto : h.conn.onRTOTimeout now = h.conn := by
      unfold Conn.onRTOTimeout
      rw [if_pos (.inl hc')]
    rw [resendsOldest_iff (by rw [hrto]; exact hh), hrto, hout]
    constructor
    · rintro ⟨p, hp, -⟩
      cases hp
    · rintro ⟨hcf, -⟩
      exact absurd hcf hc

end Host

def byteOutstanding : List Event := opening ++ [.write 0 [1]]

theorem rto_resends_oldest_byteOutstanding :
    ((Host.fresh {} 0 : Host SmallController).run byteOutstanding).ResendsOldest 1 := by
  have hr : (Host.system SmallController).Reach anyStep ((Host.fresh {} 0).run byteOutstanding) :=
    Host.run_reach (by decide +kernel) (execMeets_anyStep _ _ _)
  exact (Host.rto_resends_oldest hr 1 (by decide +kernel) (by decide +kernel) (by decide +kernel)
    (by decide +kernel)).2 (by decide +kernel)

/-- A byte is written and sent, and the connection is closed. -/
def byteBeforeFIN : List Event := opening ++ [.write 0 [1], .close 0]

/-- In FIN-WAIT-1 a firing of the RTO timer sends a FIN with a new number and not the byte with number `SND.UNA`. -/
theorem rto_skips_data_before_fin :
    ∃ h h' : Host SmallController, (Host.system SmallController).Reach anyStep h ∧ h.conn.state = .finWait1 ∧
      h.conn.sendBuf.una = 101 ∧ h.conn.sendBuf.nxt = 103 ∧ h.conn.sendBuf.buf = [1] ∧ h.conn.retries = 0 ∧
      h.next (.rto 1) = some h' ∧
      (h'.sent.drop h.sent.length).map (fun p => (p.seg.seq, p.seg.hasFlag flagFIN, p.seg.payload)) =
        [(103, true, [])] ∧
      ∀ p ∈ h'.sent.drop h.sent.length, h.conn.carriesOldest p.seg = false := by
  refine ⟨(Host.fresh {} 0).run byteBeforeFIN, ((Host.fresh {} 0).run byteBeforeFIN).run [.rto 1],
    ?_, ?_, ?_, ?_, ?_, ?_, ?_, ?_, ?_⟩
  · exact Host.run_reach (by decide +kernel) (execMeets_anyStep _ _ _)
  · decide +kernel
  · decide +kernel
  · decide +kernel
  · decide +kernel
  · decide +kernel
  · exact Host.next_run (by decide +kernel)
  · decide +kernel
  · decide +kernel

/-! ### What a retransmission carries -/

/-- The segment carries the buffered bytes of its sequence numbers, none of which is on the scoreboard. -/
structure SendBuf.Fills (s : SendBuf) (seg : Segment) : Prop where
  bytes : seg.payload <+: s.buf.drop (seg.seq - s.una).toNat
  unsacked : ∀ i < seg.payload.length, s.isSACKed (Serial.place seg.seq i) = false

theorem SendBuf.not_fills {s : SendBuf} {seg : Segment} {i : Nat}
    (h : i < seg.payload.length ∧ s.isSACKed (Serial.place seg.seq i) = true) : ¬s.Fills seg :=
  fun hfills => absurd h.2 (by rw [hfills.unsacked i h.1]; exact Bool.false_ne_true)

namespace Conn

omit [CongestionController σ] in
theorem mem_retransmit {c : Conn σ} {now : Int} {p : Packet} (hp : p ∈ (retransmit now c).outgoing.drop c.outgoing.length) :
    ∃ data ≠ [], c.sendBuf.retransmitData c.mss = some data ∧ p.seg.seq = c.sendBuf.una ∧ p.seg.payload = data := by
  cases hd : c.sendBuf.retransmitData c.mss with
  | none =>
    unfold retransmit at hp
    simp [hd] at hp
  | some data =>
    by_cases hne : data = []
    · unfold retransmit at hp
      simp [hd, hne] at hp
    · obtain ⟨rto, t, heq⟩ := retransmit_data now hd hne
      rw [heq] at hp
      simp only [List.drop_left, List.mem_singleton] at hp
      rw [hp]
      exact ⟨data, hne, rfl, rfl, rfl⟩

omit [CongestionController σ] in
/-- The segment that `retransmit` queues carries the bytes of its numbers and none that is in the scoreboard exactly if the
scoreboard leaves out all the numbers that fit into a segment from `SND.UNA` on. -/
theorem retransmit_fills_iff (c : Conn σ) (now : Int) {p : Packet}
    (hp : p ∈ (retransmit now c).outgoing.drop c.outgoing.length) :
    c.sendBuf.Fills p.seg ↔
      ∀ i < c.sendBuf.resendLength c.mss, c.sendBuf.isSACKed (Serial.place c.sendBuf.una i) = false := by
  obtain ⟨data, hne, hd, hseq, hpayload⟩ := mem_retransmit hp
  have hpos := List.length_pos_iff.2 hne
  cases hcov : c.sendBuf.isSACKed c.sendBuf.una with
  | true =>
    -- the data come from behind `SND.UNA`, and this number is in the scoreboard
    constructor
    · intro hfills
      have huna := hfills.unsacked 0 (by rwa [hpayload])
      rw [hseq, Serial.place_zero, hcov] at huna
      cases huna
    · intro hnone
      have huna := hnone 0 (hpos.trans_le (SendBuf.length_retransmitData_le hd))
      rw [Serial.place_zero, hcov] at huna
      cases huna
  | false =>
    obtain rfl := (SendBuf.retransmitData_una hcov hd).resolve_left hne
    have hlength : (c.sendBuf.buf.take (c.sendBuf.resendLength c.mss)).length = c.sendBuf.resendLength c.mss := by
      rw [List.length_take, SendBuf.resendLength]
      omega
    constructor
    · intro hfills i hi
      have hun := hfills.unsacked i (by rw [hpayload, hlength]; exact hi)
      rwa [hseq] at hun
    · intro hnone
      refine ⟨?_, ?_⟩
      · rw [hpayload, hseq, BitVec.sub_self]
        exact List.take_prefix _ _
      · rw [hpayload, hlength, hseq]
        exact hnone

end Conn

def blockReported (mss : BitVec 16) (block : SACKBlock) : List Event :=
  [.connect 0 100,
    .segment 0 { srcPort := 0, dstPort := 0, seq := 700, ack := 101, flags := flagSYN ||| flagACK, window := 1000
                 options := [mssOption mss, sackPermOption] },
    .write 0 [1, 2, 3],
    .segment 0 { srcPort := 0, dstPort := 0, seq := 701, ack := 101, flags := flagACK, window := 1000
                 options := [sackOption [block]] }]

def sackedHost (mss : BitVec 16) (block : SACKBlock) : Host SmallController :=
  (Host.fresh { enableSACK := true } 0).run (blockReported mss block)

/-- With segments of one byte the retransmission stops before the block. -/
theorem retransmit_fills_oneByte :
    ∃ p ∈ (Conn.retransmit 1 (sackedHost 1 ⟨102, 103⟩).conn).outgoing.drop (sackedHost 1 ⟨102, 103⟩).conn.outgoing.length,
      p.seg.payload = [1] ∧ (sackedHost 1 ⟨102, 103⟩).conn.sendBuf.Fills p.seg := by
  have hne : (Conn.retransmit 1 (sackedHost 1 ⟨102, 103⟩).conn).outgoing.drop
      (sackedHost 1 ⟨102, 103⟩).conn.outgoing.length ≠ [] := by decide +kernel
  obtain ⟨p, hp⟩ := List.exists_mem_of_ne_nil _ hne
  have hall : ∀ p ∈ (Conn.retransmit 1 (sackedHost 1 ⟨102, 103⟩).conn).outgoing.drop
      (sackedHost 1 ⟨102, 103⟩).conn.outgoing.length, p.seg.payload = [1] := by decide +kernel
  exact ⟨p, hp, hall p hp, (Conn.retransmit_fills_iff _ 1 hp).2 (by decide +kernel)⟩

/-- The RTO timer fires after a block was reported.  With the block on the second of three bytes the segment carries all
three; with the block on the first one it carries the other two under the number of the first. -/
theorem retransmit_ignores_blocks :
    ∃ h₁ h₂ h₁' h₂' : Host SmallController, (Host.system SmallController).Reach anyStep h₁ ∧
      (Host.system SmallController).Reach anyStep h₂ ∧ h₁.conn.sendBuf.una = 101 ∧ h₂.conn.sendBuf.una = 101 ∧
      h₁.conn.sendBuf.buf = [1, 2, 3] ∧ h₂.conn.sendBuf.buf = [1, 2, 3] ∧
      h₁.conn.sendBuf.sacked = [⟨102, 103⟩] ∧ h₂.conn.sendBuf.sacked = [⟨101, 102⟩] ∧
      h₁.next (.rto 1) = some h₁' ∧ h₂.next (.rto 1) = some h₂' ∧
      (h₁'.sent.drop h₁.sent.length).map (fun p => (p.seg.seq, p.seg.payload)) = [(101, [1, 2, 3])] ∧
      (h₂'.sent.drop h₂.sent.length).map (fun p => (p.seg.seq, p.seg.payload)) = [(101, [2, 3])] ∧
      (∀ p ∈ h₁'.sent.drop h₁.sent.length, ¬h₁.conn.sendBuf.Fills p.seg) ∧
      ∀ p ∈ h₂'.sent.drop h₂.sent.length, ¬h₂.conn.sendBuf.Fills p.seg := by
  refine ⟨sackedHost 3 ⟨102, 103⟩, sackedHost 3 ⟨101, 102⟩, (sackedHost 3 ⟨102, 103⟩).run [.rto 1],
    (sackedHost 3 ⟨101, 102⟩).run [.rto 1], ?_, ?_, ?_, ?_, ?_, ?_, ?_, ?_, ?_, ?_, ?_, ?_, ?_, ?_⟩
  · exact Host.run_reach (by decide +kernel) (execMeets_anyStep _ _ _)
  · exact Host.run_reach (by decide +kernel) (execMeets_anyStep _ _ _)
  · decide +kernel
  · decide +kernel
  · decide +kernel
  · decide +kernel
  · decide +kernel
  · decide +kernel
  · exact Host.next_run (by decide +kernel)
  · exact Host.next_run (by decide +kernel)
  · decide +kernel
  · decide +kernel
  · have hsacked : ∀ p ∈ ((sackedHost 3 ⟨102, 103⟩).run [.rto 1]).sent.drop (sackedHost 3 ⟨102, 103⟩).sent.length,
        1 < p.seg.payload.length ∧
          (sackedHost 3 ⟨102, 103⟩).conn.sendBuf.isSACKed (Serial.place p.seg.seq 1) = true := by decide +kernel
    exact fun p hp => SendBuf.not_fills (hsacked p hp)
  · have hsacked : ∀ p ∈ ((sackedHost 3 ⟨101, 102⟩).run [.rto 1]).sent.drop (sackedHost 3 ⟨101, 102⟩).sent.length,
        0 < p.seg.payload.length ∧
          (sackedHost 3 ⟨101, 102⟩).conn.sendBuf.isSACKed (Serial.place p.seg.seq 0) = true := by decide +kernel
    exact fun p hp => SendBuf.not_fills (hsacked p hp)

end Libp2px.Vtcp
