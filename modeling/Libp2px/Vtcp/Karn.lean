import Libp2px.Vtcp.Advertise

/-!
# Karn's rule

Which segment an RTT sample measures.  `StartTiming` is called for the SYN of `Connect` and for new data, `AckReceived`
for an acknowledgment that advances `SND.UNA`, and `InvalidateTiming` where data or a SYN is sent again.  The part of a
connection that matters is its sending record: the outstanding numbers, the packets, and the timed segment.  Only the
simultaneous open sends a timed number again without a call of `InvalidateTiming`; as long as it does not do so, the
timed number is outstanding and one packet carries it.
-/

namespace Libp2px.Vtcp

open Transition

set_option linter.unusedSectionVars false

def Packet.numbers (p : Packet) : Nat :=
  p.seg.payload.length + (if p.seg.hasFlag flagSYN then 1 else 0) + (if p.seg.hasFlag flagFIN then 1 else 0)

def Packet.bears (x : Nat) (p : Packet) : Bool := decide (p.pos ≤ x ∧ x < p.pos + p.numbers)

theorem Packet.bears_of_numbers_eq_zero {p : Packet} (h : p.numbers = 0) (x : Nat) : p.bears x = false := by
  unfold bears
  rw [h, decide_eq_false_iff_not]
  omega

/-- What `Sample` keeps: the smoothed RTT, its variation, and whether there was a sample. -/
def RTOCalculator.estimate (r : RTOCalculator) : Int × Int × Bool := (r.srtt, r.rttvar, r.measured)

structure SendRecord where
  una : BitVec 32
  nxt : BitVec 32
  acked : Nat
  emitted : List Packet
  timing : Option (Int × BitVec 32)
  estimate : Int × Int × Bool
  opened : Bool
  synReceived : Bool

namespace SendRecord

def unacked (r : SendRecord) : Nat := (r.nxt - r.una).toNat

/-- One packet carries the number at the position, and it is its first one. -/
def Once (r : SendRecord) (seq : BitVec 32) (x : Nat) : Prop :=
  ∃ p, r.emitted.filter (Packet.bears x) = [p] ∧ p.pos = x ∧ p.seg.seq = seq

/-- The timed number is outstanding and has been sent once.  In SYN-RECEIVED nothing is timed. -/
structure Karn (est : Int × Int × Bool) (r : SendRecord) : Prop where
  estimate : r.estimate = est
  below : ∀ p ∈ r.emitted, 0 < p.numbers → p.pos + p.numbers ≤ r.acked + r.unacked
  timed : ∀ sent seq, r.timing = some (sent, seq) →
    (seq - r.una).toNat < r.unacked ∧ r.Once seq (r.acked + (seq - r.una).toNat)
  unopened : r.opened = false → r.timing = none ∧ ∀ p ∈ r.emitted, p.numbers = 0
  passive : r.synReceived = true → r.timing = none

variable {est : Int × Int × Bool} {r : SendRecord} {p : Packet}

theorem Once.push {seq : BitVec 32} {x : Nat} (h : r.Once seq x) (hp : p.bears x = false) :
    ({ r with emitted := r.emitted ++ [p] } : SendRecord).Once seq x := by
  obtain ⟨q, hq, hpos, hseq⟩ := h
  refine ⟨q, ?_, hpos, hseq⟩
  simp [List.filter_append, hq, hp]

theorem Karn.control (h : r.Karn est) (hp : p.numbers = 0) :
    ({ r with emitted := r.emitted ++ [p] } : SendRecord).Karn est := by
  refine ⟨h.estimate, ?_, ?_, ?_, h.passive⟩
  · intro q hq hpos
    rcases List.mem_append.1 hq with hq | hq
    · exact h.below q hq hpos
    · rw [List.mem_singleton.1 hq] at hpos
      omega
  · intro sent seq ht
    obtain ⟨hout, honce⟩ := h.timed sent seq ht
    exact ⟨hout, honce.push (Packet.bears_of_numbers_eq_zero hp _)⟩
  · intro ho
    refine ⟨(h.unopened ho).1, fun q hq => ?_⟩
    rcases List.mem_append.1 hq with hq | hq
    · exact (h.unopened ho).2 q hq
    · rw [List.mem_singleton.1 hq]
      exact hp

theorem Karn.stop (h : r.Karn est) : ({ r with timing := none } : SendRecord).Karn est :=
  ⟨h.estimate, h.below, fun _ _ ht => (nomatch ht), fun ho => ⟨rfl, (h.unopened ho).2⟩, fun _ => rfl⟩

theorem Karn.again (h : r.Karn est) (ho : r.opened = true) (hp : p.pos + p.numbers ≤ r.acked + r.unacked) :
    ({ r with emitted := r.emitted ++ [p], timing := none } : SendRecord).Karn est := by
  refine ⟨h.estimate, ?_, fun _ _ ht => (nomatch ht), ?_, fun _ => rfl⟩
  · intro q hq hpos
    rcases List.mem_append.1 hq with hq | hq
    · exact h.below q hq hpos
    · rw [List.mem_singleton.1 hq]
      exact hp
  · intro hno
    cases hno.symm.trans ho

def fresh (p : Packet) (r : SendRecord) : SendRecord :=
  { r with emitted := r.emitted ++ [p], nxt := r.nxt + BitVec.ofNat 32 p.numbers }

theorem unacked_fresh (hlt : r.unacked + p.numbers < 2 ^ 32) : (r.fresh p).unacked = r.unacked + p.numbers := by
  have hsub : r.nxt + BitVec.ofNat 32 p.numbers - r.una = (r.nxt - r.una) + BitVec.ofNat 32 p.numbers := by bv_omega
  show (r.nxt + BitVec.ofNat 32 p.numbers - r.una).toNat = _
  rw [hsub, BitVec.toNat_add, BitVec.toNat_ofNat, Nat.add_mod_mod]
  exact Nat.mod_eq_of_lt hlt

theorem Karn.fresh (h : r.Karn est) (ho : r.opened = true) (hpos : p.pos = r.acked + r.unacked)
    (hlt : r.unacked + p.numbers < 2 ^ 32) : (r.fresh p).Karn est := by
  have hun := unacked_fresh hlt
  refine ⟨h.estimate, ?_, ?_, ?_, h.passive⟩
  · intro q hq hq0
    rw [hun]
    show q.pos + q.numbers ≤ r.acked + (r.unacked + p.numbers)
    rcases List.mem_append.1 hq with hq | hq
    · have := h.below q hq hq0
      omega
    · rw [List.mem_singleton.1 hq]
      omega
  · intro sent seq ht
    obtain ⟨hout, honce⟩ := h.timed sent seq ht
    rw [hun]
    have hout' : (seq - r.una).toNat < r.unacked + p.numbers := by omega
    refine ⟨hout', honce.push (r := r) ?_⟩
    unfold Packet.bears
    rw [decide_eq_false_iff_not]
    omega
  · intro hno
    cases hno.symm.trans ho

theorem Karn.start (h : r.Karn est) (ho : r.opened = true) (hpos : p.pos = r.acked + r.unacked)
    (hlt : r.unacked + p.numbers < 2 ^ 32) (hp : 0 < p.numbers) (hseq : p.seg.seq = r.nxt) (hs : r.synReceived = false)
    (now : Int) : ({ r.fresh p with timing := some (r.timing.getD (now, r.nxt)) } : SendRecord).Karn est := by
  have hfresh := h.fresh ho hpos hlt
  cases ht : r.timing with
  | some x =>
    refine ⟨h.estimate, hfresh.below, fun sent seq hx => ?_, fun hno => ?_, fun hsr => ?_⟩
    · exact hfresh.timed sent seq (ht.trans hx)
    · cases hno.symm.trans ho
    · cases hsr.symm.trans hs
  | none =>
    refine ⟨h.estimate, hfresh.below, fun sent seq hx => ?_, fun hno => ?_, fun hsr => ?_⟩
    · have hx' : (now, r.nxt) = (sent, seq) := Option.some.inj hx
      obtain ⟨rfl, rfl⟩ := Prod.mk.inj hx'
      have hun := unacked_fresh hlt
      refine ⟨?_, p, ?_, hpos, hseq⟩
      · show r.unacked < (r.fresh p).unacked
        omega
      · -- no older packet reaches the position of the new one
        have hold : ∀ q ∈ r.emitted, q.bears (r.acked + r.unacked) = false := by
          intro q hq
          rcases Nat.eq_zero_or_pos q.numbers with h0 | h0
          · exact Packet.bears_of_numbers_eq_zero h0 _
          · have := h.below q hq h0
            unfold Packet.bears
            rw [decide_eq_false_iff_not]
            omega
        have hnew : p.bears (r.acked + r.unacked) = true := by
          unfold Packet.bears
          rw [decide_eq_true_eq]
          omega
        have hnil : r.emitted.filter (Packet.bears (r.acked + r.unacked)) = [] :=
          List.filter_eq_nil_iff.2 fun q hq => by rw [hold q hq]; exact Bool.false_ne_true
        show (r.emitted ++ [p]).filter (Packet.bears (r.acked + r.unacked)) = [p]
        rw [List.filter_append, hnil, List.filter_cons_of_pos hnew]
        rfl
    · cases hno.symm.trans ho
    · cases hsr.symm.trans hs

/-- The record after an acknowledgment: the timed number is forgotten if it is acknowledged. -/
def acknowledge (ack : BitVec 32) (r : SendRecord) : SendRecord :=
  { r with una := ack, acked := r.acked + (ack - r.una).toNat
           timing := r.timing.filter fun x => !seqAfter ack x.2 }

theorem Karn.acknowledge {ack : BitVec 32} (h : r.Karn est) (hlo : 0 < (ack - r.una).toNat)
    (hhalf : (ack - r.una).toNat < 2 ^ 31) (hsum : (ack - r.una).toNat + (r.nxt - ack).toNat = r.unacked) :
    (r.acknowledge ack).Karn est := by
  have hun : (r.acknowledge ack).unacked = (r.nxt - ack).toNat := rfl
  have hnone : r.timing = none → (r.acknowledge ack).timing = none := fun ht => by
    show r.timing.filter _ = none
    rw [ht]
    rfl
  refine ⟨h.estimate, ?_, ?_, fun ho => ⟨hnone (h.unopened ho).1, (h.unopened ho).2⟩, fun hs => hnone (h.passive hs)⟩
  · intro q hq hq0
    have := h.below q hq hq0
    rw [hun]
    show q.pos + q.numbers ≤ r.acked + (ack - r.una).toNat + (r.nxt - ack).toNat
    omega
  · intro sent seq ht
    obtain ⟨ht', hafter⟩ := Option.filter_eq_some_iff.1 ht
    obtain ⟨hout, honce⟩ := h.timed sent seq ht'
    -- the acknowledgment does not reach the timed number
    have hle : (ack - r.una).toNat ≤ (seq - r.una).toNat := by
      by_contra hlt
      have hsub : ack - seq = (ack - r.una) - (seq - r.una) := by bv_omega
      have hint : (ack - seq).toInt = (ack - r.una).toNat - (seq - r.una).toNat := by
        rw [hsub, BitVec.toInt_eq_toNat_cond, BitVec.toNat_sub_of_le (by rw [BitVec.le_def]; omega)]
        split <;> omega
      simp only [seqAfter, Bool.not_eq_true', decide_eq_false_iff_not] at hafter
      omega
    have hdist : (seq - ack).toNat = (seq - r.una).toNat - (ack - r.una).toNat := by
      have hsub : seq - ack = (seq - r.una) - (ack - r.una) := by bv_omega
      rw [hsub, BitVec.toNat_sub_of_le (by rw [BitVec.le_def]; exact hle)]
    have hpos : r.acked + (ack - r.una).toNat + (seq - ack).toNat = r.acked + (seq - r.una).toNat := by omega
    rw [hun]
    refine ⟨?_, ?_⟩
    · show (seq - ack).toNat < (r.nxt - ack).toNat
      omega
    · show r.Once seq (r.acked + (ack - r.una).toNat + (seq - ack).toNat)
      rw [hpos]
      exact honce

theorem Karn.setEstimate (h : r.Karn est) (est' : Int × Int × Bool) :
    ({ r with estimate := est' } : SendRecord).Karn est' :=
  { h with estimate := rfl }

end SendRecord

namespace RTOCalculator

theorem estimate_clamp (r : RTOCalculator) : r.clamp.estimate = r.estimate ∧ r.clamp.timing = r.timing := by
  unfold clamp
  simp only
  split <;> split <;> exact ⟨rfl, rfl⟩

theorem timing_ackReceived (r : RTOCalculator) (now : Int) (ack : BitVec 32) :
    (r.ackReceived now ack).timing = r.timing.filter fun x => !seqAfter ack x.2 := by
  unfold ackReceived
  split
  · rename_i ht
    rw [ht]
    rfl
  · rename_i sent seq ht
    split
    · rename_i hafter
      rw [ht]
      simp [Option.filter, hafter]
    · rename_i hafter
      rw [ht]
      simp [Option.filter, hafter]

theorem ackReceived_of_none {r : RTOCalculator} (now : Int) (ack : BitVec 32) (h : r.timing = none) :
    r.ackReceived now ack = r := by
  unfold ackReceived
  rw [h]

theorem startTiming_eq (r : RTOCalculator) (now : Int) (seq : BitVec 32) :
    (r.startTiming now seq).timing = some (r.timing.getD (now, seq)) ∧
      (r.startTiming now seq).estimate = r.estimate := by
  unfold startTiming
  cases ht : r.timing with
  | none => exact ⟨rfl, rfl⟩
  | some x => exact ⟨ht, rfl⟩

end RTOCalculator

/-! ### The record of a connection -/

namespace Conn

variable {σ : Type}

/-- The sending record of a connection that has sent `sent`. -/
def sendRecord (sent : List Packet) (c : Conn σ) : SendRecord where
  una := c.sendBuf.una
  nxt := c.sendBuf.nxt
  acked := c.sendBuf.acked
  emitted := sent ++ c.outgoing
  timing := c.rto.timing
  estimate := c.rto.estimate
  opened := c.opened
  synReceived := c.state == .synReceived

def Karn (sent : List Packet) (est : Int × Int × Bool) (c : Conn σ) : Prop := (c.sendRecord sent).Karn est

variable {sent : List Packet} {est : Int × Int × Bool} {c d : Conn σ}

theorem sendRecord_queueSeg (sent : List Packet) (seg : Segment) (c : Conn σ) :
    (c.queueSeg seg).sendRecord sent =
      { c.sendRecord sent with
        emitted := (c.sendRecord sent).emitted ++ [⟨seg, c.sendBuf.pos seg.seq, c.freeSpace⟩] } := by
  unfold sendRecord queueSeg
  simp only [List.append_assoc]

theorem Karn.congr (h : c.Karn sent est)
    (hbuf : d.sendBuf.una = c.sendBuf.una ∧ d.sendBuf.nxt = c.sendBuf.nxt ∧ d.sendBuf.acked = c.sendBuf.acked)
    (hout : d.outgoing = c.outgoing) (hrto : d.rto.timing = c.rto.timing ∧ d.rto.estimate = c.rto.estimate)
    (ho : d.opened = c.opened) (hst : d.state = .synReceived → c.state = .synReceived) : d.Karn sent est := by
  have heq : d.sendRecord sent = { c.sendRecord sent with synReceived := d.state == .synReceived } := by
    unfold sendRecord
    rw [hbuf.1, hbuf.2.1, hbuf.2.2, hout, hrto.1, hrto.2, ho]
  unfold Karn
  rw [heq]
  refine { h with passive := fun hs => h.passive ?_ }
  have hs' : (d.state == .synReceived) = true := hs
  show (c.state == .synReceived) = true
  rw [beq_iff_eq] at hs' ⊢
  exact hst hs'

theorem Karn.same (h : c.Karn sent est) (hd : d.sendRecord sent = c.sendRecord sent) : d.Karn sent est := by
  unfold Karn
  rw [hd]
  exact h

variable {seg : Segment}

theorem Karn.queueSeg (h : c.Karn sent est) (hc : Core.IsControl seg) :
    (c.queueSeg seg).Karn sent est := by
  unfold Karn
  rw [sendRecord_queueSeg]
  refine SendRecord.Karn.control h ?_
  unfold Packet.numbers
  rw [hc.payload, hc.syn, hc.fin]
  rfl

variable (now : Int) (opts : List TcpOption)

theorem Karn.queueACK (h : c.Karn sent est) : (queueACK now c).Karn sent est :=
  h.queueSeg (isControl_ack rfl rfl)

theorem numbers_ackSegment (seq : BitVec 32) (flags : BitVec 8) (data : List Byte) (pos space : Nat)
    (hsyn : (flags &&& flagSYN != 0) = false) (c : Conn σ) :
    (⟨c.ackSegment now seq flags data, pos, space⟩ : Packet).numbers =
      data.length + if flags &&& flagFIN != 0 then 1 else 0 := by
  unfold Packet.numbers Segment.hasFlag
  show data.length + (if (flags &&& flagSYN != 0) = true then 1 else 0) + (if (flags &&& flagFIN != 0) = true then 1 else 0) = _
  rw [hsyn]
  rfl

theorem numbers_synSegment (seq : BitVec 32) (pos space : Nat) (c : Conn σ) :
    (⟨c.synSegment now seq, pos, space⟩ : Packet).numbers = 1 := by
  show 0 + (if (flagSYN &&& flagSYN != 0) = true then 1 else 0) + (if (flagSYN &&& flagFIN != 0) = true then 1 else 0) = 1
  decide

theorem numbers_synAckSegment (seq : BitVec 32) (pos space : Nat) (c : Conn σ) :
    (⟨c.synAckSegment now seq, pos, space⟩ : Packet).numbers = 1 := by
  show 0 + (if ((flagSYN ||| flagACK) &&& flagSYN != 0) = true then 1 else 0) +
    (if ((flagSYN ||| flagACK) &&& flagFIN != 0) = true then 1 else 0) = 1
  decide

theorem Karn.fresh {n : Nat} (seg : Segment) (h : c.Karn sent est) (ho : c.opened = true)
    (hnum : (⟨seg, c.sendBuf.pos seg.seq, c.freeSpace⟩ : Packet).numbers = n) (hseq : seg.seq = c.sendBuf.nxt)
    (hlt : c.sendBuf.unacked + n < 2 ^ 32) (hbuf : d.sendBuf = c.sendBuf.advanceSent n)
    (hout : d.outgoing = c.outgoing ++ [⟨seg, c.sendBuf.pos seg.seq, c.freeSpace⟩]) (hrto : d.rto = c.rto)
    (hdo : d.opened = c.opened) (hst : d.state = c.state) : d.Karn sent est := by
  have hfresh := SendRecord.Karn.fresh (p := ⟨seg, c.sendBuf.pos seg.seq, c.freeSpace⟩) h ho
    (by rw [hseq]; rfl) (by rw [hnum]; exact hlt)
  unfold SendRecord.fresh at hfresh
  rw [hnum] at hfresh
  unfold Karn sendRecord
  rw [hbuf, hout, hrto, hdo, hst, ← List.append_assoc]
  exact hfresh

theorem Karn.start {n : Nat} (seg : Segment) (h : c.Karn sent est) (ho : c.opened = true)
    (hnum : (⟨seg, c.sendBuf.pos seg.seq, c.freeSpace⟩ : Packet).numbers = n) (hseq : seg.seq = c.sendBuf.nxt)
    (hlt : c.sendBuf.unacked + n < 2 ^ 32) (hn : 0 < n) (hs : c.state ≠ .synReceived)
    (hbuf : d.sendBuf = c.sendBuf.advanceSent n)
    (hout : d.outgoing = c.outgoing ++ [⟨seg, c.sendBuf.pos seg.seq, c.freeSpace⟩])
    (hrto : d.rto = c.rto.startTiming now c.sendBuf.nxt) (hdo : d.opened = c.opened) (hst : d.state = c.state) :
    d.Karn sent est := by
  have hstart := SendRecord.Karn.start (p := ⟨seg, c.sendBuf.pos seg.seq, c.freeSpace⟩) h ho (by rw [hseq]; rfl)
    (by rw [hnum]; exact hlt) (by rw [hnum]; exact hn) hseq (beq_eq_false_iff_ne.2 hs) now
  obtain ⟨htiming, hest⟩ := c.rto.startTiming_eq now c.sendBuf.nxt
  unfold SendRecord.fresh at hstart
  rw [hnum] at hstart
  unfold Karn sendRecord
  rw [hbuf, hout, hrto, htiming, hest, hdo, hst, ← List.append_assoc]
  exact hstart

theorem Karn.queueFIN (h : c.Karn sent est) (ho : c.opened = true) (hlt : c.sendBuf.unacked + 1 < 2 ^ 32) :
    (queueFIN now c).Karn sent est :=
  h.fresh (c.ackSegment now c.sendBuf.nxt (flagFIN ||| flagACK) []) ho (numbers_ackSegment now _ _ _ _ _ rfl c) rfl hlt
    rfl rfl rfl rfl rfl

theorem Karn.sendChunk {n : Nat} (h : c.Karn sent est) (ho : c.opened = true) (hst : c.state ≠ .synReceived)
    (hlen : 0 < (c.sendBuf.peekUnsent n).length) (hlt : c.sendBuf.unacked + (c.sendBuf.peekUnsent n).length < 2 ^ 32) :
    (c.sendChunk now n).Karn sent est := by
  have hstart := fun d => h.start (d := d) now
    (c.ackSegment now c.sendBuf.nxt (flagACK ||| flagPSH) (c.sendBuf.peekUnsent n)) ho
    (numbers_ackSegment now _ _ _ _ _ rfl c) rfl hlt hlen hst
  unfold Conn.sendChunk
  simp only
  split <;> exact hstart _ rfl rfl rfl rfl rfl

theorem Karn.windowProbe (h : c.Karn sent est) (ho : c.opened = true) (hlt : c.sendBuf.unacked + 1 < 2 ^ 32) :
    c.windowProbe.Karn sent est := by
  unfold Conn.windowProbe
  split
  · have hone : (c.sendBuf.peekUnsent 1).length ≤ 1 := by
      unfold SendBuf.peekUnsent
      rw [List.length_take]
      exact Nat.min_le_left _ _
    exact h.fresh (n := (c.sendBuf.peekUnsent 1).length)
      { c.ackSegment 0 c.sendBuf.nxt flagACK (c.sendBuf.peekUnsent 1) with options := [] } ho
      (numbers_ackSegment 0 c.sendBuf.nxt flagACK (c.sendBuf.peekUnsent 1) 0 0 rfl c) rfl (by omega) rfl rfl rfl rfl rfl
  · exact h

theorem Karn.again (seg : Segment) (h : c.Karn sent est) (ho : c.opened = true) (hseq : seg.seq = c.sendBuf.una)
    (hnum : (⟨seg, c.sendBuf.pos seg.seq, c.freeSpace⟩ : Packet).numbers ≤ c.sendBuf.unacked)
    (hd : d.sendBuf = c.sendBuf) (hout : d.outgoing = c.outgoing ++ [⟨seg, c.sendBuf.pos seg.seq, c.freeSpace⟩])
    (hrto : d.rto.timing = none ∧ d.rto.estimate = c.rto.estimate) (hdo : d.opened = c.opened) :
    d.Karn sent est := by
  have hpos : c.sendBuf.pos seg.seq = c.sendBuf.acked := by
    unfold SendBuf.pos
    rw [hseq]
    simp
  have hend : c.sendBuf.pos seg.seq + (⟨seg, c.sendBuf.pos seg.seq, c.freeSpace⟩ : Packet).numbers ≤
      c.sendBuf.acked + c.sendBuf.unacked := by omega
  have hagain := SendRecord.Karn.again (p := ⟨seg, c.sendBuf.pos seg.seq, c.freeSpace⟩) h ho hend
  unfold Karn sendRecord
  rw [hd, hout, hrto.1, hrto.2, hdo, ← List.append_assoc]
  exact { hagain with passive := fun _ => rfl }

theorem Karn.retransmit (h : c.Karn sent est) (ho : c.opened = true) : (retransmit now c).Karn sent est := by
  unfold Conn.retransmit
  split
  · exact h.same rfl
  · rename_i data hdata
    split
    · exact h
    · refine h.again (c.ackSegment now c.sendBuf.una (flagACK ||| flagPSH) data) ho rfl ?_ rfl rfl ⟨rfl, rfl⟩ rfl
      rw [numbers_ackSegment now _ _ _ _ _ rfl]
      exact (SendBuf.retransmitData_length hdata).1

theorem Karn.broadcastSend (h : c.Karn sent est) : c.broadcastSend.Karn sent est :=
  h.same rfl

theorem Karn.updateSACK (h : c.Karn sent est) : (updateSACK opts c).Karn sent est := by
  rw [updateSACK_frame]
  exact h.same rfl

theorem Karn.acknowledge {ack : BitVec 32} (h : c.Karn sent est) (hlo : seqAfter ack c.sendBuf.una = true)
    (hhi : seqAfter ack c.sendBuf.nxt = false)
    (hd : d.sendBuf.una = (c.sendBuf.acknowledge ack).1.una ∧ d.sendBuf.nxt = (c.sendBuf.acknowledge ack).1.nxt ∧
      d.sendBuf.acked = (c.sendBuf.acknowledge ack).1.acked) (hout : d.outgoing = c.outgoing)
    (hrto : d.rto.timing = (c.rto.ackReceived now ack).timing ∧ d.rto.estimate = (c.rto.ackReceived now ack).estimate)
    (ho : d.opened = c.opened) (hst : d.state = .synReceived → c.state = .synReceived) :
    d.Karn sent (c.rto.ackReceived now ack).estimate := by
  obtain ⟨hpos, hhalf, hsum⟩ := SendBuf.ack_between hlo hhi
  have hack := (SendRecord.Karn.acknowledge h hpos hhalf hsum).setEstimate (c.rto.ackReceived now ack).estimate
  rw [SendBuf.acknowledge_eq hlo hhi] at hd
  obtain ⟨huna, hnxt, hacked⟩ := hd
  unfold Karn sendRecord
  rw [huna, hnxt, hacked, hout, hrto.1, hrto.2, ho, RTOCalculator.timing_ackReceived]
  refine { hack with estimate := rfl, passive := fun hs => hack.passive ?_ }
  show (c.state == .synReceived) = true
  rw [beq_iff_eq]
  exact hst (beq_iff_eq.1 hs)

variable [CongestionController σ]

theorem Karn.flushLoop (fuel : Nat) (h : c.Karn sent est) (ho : c.opened = true)
    (hst : c.state = .synReceived → c.sendBuf.buf = []) : (flushLoop now fuel c).Karn sent est := by
  induction fuel generalizing c with
  | zero => exact h
  | succ fuel ih =>
    unfold Conn.flushLoop
    split
    · exact h
    · rename_i n hn
      obtain ⟨hpos, hlen, hbuf, hwnd⟩ := chunkSize_bounds hn
      have hframe : (c.sendChunk now n).opened = c.opened ∧ (c.sendChunk now n).state = c.state := by
        unfold Conn.sendChunk
        simp only
        split <;> exact ⟨rfl, rfl⟩
      have hne : c.state ≠ .synReceived := by
        intro hs
        rw [hst hs, List.length_nil] at hbuf
        omega
      refine ih (h.sendChunk now ho hne (by omega) ?_) (hframe.1.trans ho) fun hs => absurd (hframe.2.symm.trans hs) hne
      have := c.effWnd.isLt
      omega

theorem Karn.flushSendQueue (h : c.Karn sent est) (ho : c.opened = true)
    (hst : c.state = .synReceived → c.sendBuf.buf = []) : (flushSendQueue now c).Karn sent est := by
  have hloop := h.flushLoop now c.sendBuf.pending.toNat ho hst
  unfold Conn.flushSendQueue Conn.armPersist
  split
  · exact hloop.same rfl
  · exact hloop

theorem Karn.processDupACK (h : c.Karn sent est) (ho : c.opened = true) :
    (processDupACK now opts c).Karn sent est := by
  unfold Conn.processDupACK
  refine Karn.updateSACK opts ?_
  simp only
  split
  · refine Karn.retransmit now ?_ ho
    exact h.same rfl
  · exact h.same rfl

theorem Karn.processNewACK {ack : BitVec 32} (h : c.Karn sent est)
    (ho : c.opened = true) (hst : c.state ≠ .synReceived) (hlo : seqAfter ack c.sendBuf.una = true)
    (hhi : seqAfter ack c.sendBuf.nxt = false) :
    (processNewACK now ack opts c).Karn sent (c.rto.ackReceived now ack).estimate := by
  have hacks : (rearm now ack (Conn.updateSACK opts (c.applyACK ack))).Karn sent
      (c.rto.ackReceived now ack).estimate := by
    rw [newACK_frame]
    exact h.acknowledge now hlo hhi ⟨rfl, rfl, rfl⟩ rfl ⟨rfl, rfl⟩ rfl id
  have hflush := hacks.flushSendQueue now (by rw [newACK_frame]; exact ho) fun hs => by
    rw [newACK_frame] at hs
    exact absurd hs hst
  exact hflush.broadcastSend

def estimateAfterACK (now : Int) (ack : BitVec 32) (c : Conn σ) : Int × Int × Bool :=
  if seqAfter ack c.sendBuf.una && !seqAfter ack c.sendBuf.nxt then (c.rto.ackReceived now ack).estimate
  else c.rto.estimate

theorem Karn.processACK (ack : BitVec 32) (opts : List TcpOption) (h : c.Karn sent c.rto.estimate)
    (ho : c.opened = true) (hst : c.state ≠ .synReceived) :
    (processACK now ack opts c).Karn sent (c.estimateAfterACK now ack) := by
  unfold Conn.processACK
  by_cases hlo : seqAfter ack c.sendBuf.una = true
  · rw [if_neg (by rw [hlo]; exact Bool.false_ne_true)]
    by_cases hhi : seqAfter ack c.sendBuf.nxt = true
    · have hest : c.estimateAfterACK now ack = c.rto.estimate := if_neg (by simp [hhi])
      rw [if_pos hhi, hest]
      exact h.queueACK now
    · have hest : c.estimateAfterACK now ack = (c.rto.ackReceived now ack).estimate := if_pos (by simp [hlo, hhi])
      rw [if_neg hhi, hest]
      exact h.processNewACK now opts ho hst hlo (Bool.eq_false_of_not_eq_true hhi)
  · have hest : c.estimateAfterACK now ack = c.rto.estimate := if_neg (by simp [hlo])
    rw [if_pos (by simpa using hlo), hest]
    exact h.processDupACK now opts ho

theorem Karn.processSegACK (h : c.Karn sent c.rto.estimate) (ho : c.opened = true)
    (hst : c.state ≠ .synReceived) (hack : seg.hasFlag flagACK = true) :
    (processSegACK now seg c).Karn sent (c.estimateAfterACK now seg.ack) := by
  unfold Conn.processSegACK
  rw [if_pos hack]
  exact (h.processACK now seg.ack seg.options ho hst).same rfl

/-! ### The handlers -/

theorem Karn.dataAndFIN (seg : Segment) (h : c.Karn sent est) : (dataAndFIN seg c).Karn sent est := by
  have htaken := taken_dataAndFIN seg c
  rw [htaken.frame]
  exact h.congr ⟨rfl, rfl, rfl⟩ rfl ⟨rfl, rfl⟩ rfl htaken.synReceived

theorem Karn.handleDataState (h : c.Karn sent c.rto.estimate) (ho : c.opened = true)
    (hst : c.state ≠ .synReceived) (hack : seg.hasFlag flagACK = true) :
    (handleDataState now seg c).Karn sent
      (if c.pawsOK seg.options then c.estimateAfterACK now seg.ack else c.rto.estimate) := by
  by_cases hpaws : c.pawsOK seg.options = true
  · obtain ⟨ts, hts⟩ := recordTimestamp_eq seg.options c
    have hack' := Karn.processSegACK (c := c.recordTimestamp seg.options) now
      (by rw [hts]; exact h.same rfl) (by rw [hts]; exact ho)
      (by rw [hts]; exact hst) hack
    have hest : (c.recordTimestamp seg.options).estimateAfterACK now seg.ack = c.estimateAfterACK now seg.ack := by
      rw [hts]
      rfl
    rw [hest] at hack'
    rw [handleDataState_eq now hpaws, if_pos hpaws]
    split
    · exact (hack'.dataAndFIN seg).queueACK now
    · exact hack'.dataAndFIN seg
  · rw [if_neg hpaws, handleDataState_of_paws now (Bool.eq_false_of_not_eq_true hpaws)]
    exact h.queueACK now

theorem Karn.completePassiveOpen (h : c.Karn sent est) (hst : c.state = .synReceived)
    (hack : seg.ack = c.sendBuf.nxt) : (completePassiveOpen seg c).Karn sent est := by
  have hnone : c.rto.timing = none := h.passive (by show (c.state == .synReceived) = true; rw [hst]; rfl)
  have hne : (Conn.completePassiveOpen seg c).state = .synReceived → c.state = .synReceived := fun _ => hst
  rw [completePassiveOpen_eq] at hne ⊢
  by_cases hlo : seqAfter seg.ack c.sendBuf.una = true
  · have hhi : seqAfter seg.ack c.sendBuf.nxt = false := by rw [hack]; simp [seqAfter]
    have hsame := RTOCalculator.ackReceived_of_none 0 seg.ack hnone
    have hest : (c.rto.ackReceived 0 seg.ack).estimate = est := by
      rw [hsame]
      exact h.estimate
    rw [← hest]
    exact h.acknowledge 0 hlo hhi ⟨rfl, rfl, rfl⟩ rfl (by rw [hsame]; exact ⟨rfl, rfl⟩) rfl hne
  · have hsame : (c.sendBuf.acknowledge seg.ack).1 = c.sendBuf := by
      unfold SendBuf.acknowledge
      rw [if_pos (by simpa using hlo)]
    rw [hsame]
    exact h.congr ⟨rfl, rfl, rfl⟩ rfl ⟨rfl, rfl⟩ rfl hne

theorem options_keep (c : Conn σ) :
    (negotiateOptions opts (narrowMSS opts c)).sendBuf = c.sendBuf ∧
      (negotiateOptions opts (narrowMSS opts c)).outgoing = c.outgoing ∧
      (negotiateOptions opts (narrowMSS opts c)).opened = c.opened ∧
      (negotiateOptions opts (narrowMSS opts c)).state = c.state ∧
      (negotiateOptions opts (narrowMSS opts c)).rto = c.rto := by
  obtain ⟨ts, -, h⟩ := negotiate_eq opts c
  rw [h]
  exact ⟨rfl, rfl, rfl, rfl, rfl⟩

theorem Karn.options (h : c.Karn sent est) :
    (negotiateOptions opts (narrowMSS opts c)).Karn sent est := by
  obtain ⟨hbuf, hout, ho, hst, hrto⟩ := options_keep opts c
  refine h.congr (by rw [hbuf]; exact ⟨rfl, rfl, rfl⟩) hout (by rw [hrto]; exact ⟨rfl, rfl⟩) ho fun hs => ?_
  exact hst.symm.trans hs

theorem Karn.completeActiveOpen (seg : Segment) (now : Int) (h : c.Karn sent est) (ho : c.opened = true)
    (hlo : seqAfter seg.ack c.sendBuf.una = true) (hhi : seqAfter seg.ack c.sendBuf.nxt = false) :
    (completeActiveOpen now seg c).Karn sent (c.rto.ackReceived now seg.ack).estimate := by
  obtain ⟨rc, hopen⟩ := completeActiveOpen_frame now seg c
  have hne : (c.synAcked now seg rc).state ≠ .synReceived := State.noConfusion
  have hacked : (c.synAcked now seg rc).Karn sent (c.rto.ackReceived now seg.ack).estimate :=
    h.acknowledge now hlo hhi ⟨rfl, rfl, rfl⟩ rfl ⟨rfl, rfl⟩ rfl fun hs => absurd hs hne
  have hflush := (hacked.queueACK now).flushSendQueue now ho fun hs => absurd hs hne
  rw [hopen]
  exact hflush.congr ⟨rfl, rfl, rfl⟩ rfl ⟨rfl, rfl⟩ rfl id

theorem Karn.simultaneousOpen (h : c.Karn sent est) (ho : c.opened = true)
    (hout : c.sendBuf.unacked = 1) (hnone : c.rto.timing = none) : (simultaneousOpen now seg c).Karn sent est := by
  have hframe : ∃ p rb, Conn.simultaneousOpen now seg c =
      { c.setState .synReceived with
        recvBuf := rb, sndWnd := c.scaledWindow seg, retries := 0, rtoTimer := some c.rto.rto
        outgoing := c.outgoing ++ [p] } ∧
      p.numbers = 1 ∧ p.pos = c.sendBuf.acked ∧ p.seg.seq = c.sendBuf.una := by
    refine ⟨_, _, rfl, numbers_synAckSegment now _ _ _ _, ?_, rfl⟩
    show c.sendBuf.pos c.sendBuf.una = c.sendBuf.acked
    simp [SendBuf.pos]
  obtain ⟨p, rb, hframe, hnum, hpos, -⟩ := hframe
  have hagain := SendRecord.Karn.again (p := p) h ho (by
    rw [hnum, hpos]
    show c.sendBuf.acked + 1 ≤ c.sendBuf.acked + c.sendBuf.unacked
    omega)
  rw [hframe]
  unfold Karn sendRecord
  simp only [← List.append_assoc]
  refine ⟨hagain.estimate, hagain.below, ?_, ?_, fun _ => hnone⟩
  · intro sent seq ht
    cases hnone.symm.trans ht
  · intro hno
    cases hno.symm.trans ho

theorem Karn.shut (h : c.Karn sent est) (hbuf : d.sendBuf = c.sendBuf) (hout : d.outgoing = c.outgoing)
    (hrto : d.rto = c.rto) (ho : d.opened = c.opened) (hst : d.state = .closed) : d.Karn sent est := by
  refine h.congr (by rw [hbuf]; exact ⟨rfl, rfl, rfl⟩) hout (by rw [hrto]; exact ⟨rfl, rfl⟩) ho fun hs => ?_
  cases hst.symm.trans hs

def callsAckReceived (seg : Segment) (c : Conn σ) : Bool :=
  match c.state with
  | .synSent => c.takesWindow seg && seg.hasFlag flagACK
  | .established | .finWait1 | .finWait2 | .closeWait =>
    c.takesACK seg && seqAfter seg.ack c.sendBuf.una && !seqAfter seg.ack c.sendBuf.nxt
  | _ => false

def estimateAfter (now : Int) (seg : Segment) (c : Conn σ) : Int × Int × Bool :=
  if c.callsAckReceived seg then (c.rto.ackReceived now seg.ack).estimate else c.rto.estimate

theorem Leaves.estimateAfter (ht : c.Leaves seg) : c.estimateAfter now seg = c.rto.estimate := by
  have hcalls : c.callsAckReceived seg = false := by
    unfold callsAckReceived
    split
    · rw [ht.takesWindow]
      rfl
    iterate 4
      · rw [ht.ack]
        rfl
    · rfl
  rw [Conn.estimateAfter, hcalls]
  rfl

theorem estimateAfterACK_completePassiveOpen (hack : seg.ack = c.sendBuf.nxt) :
    (Conn.completePassiveOpen seg c).estimateAfterACK now seg.ack = c.rto.estimate := by
  have hself : ∀ x : BitVec 32, seqAfter x x = false := fun x => by simp [seqAfter]
  have hdup : seqAfter seg.ack (c.sendBuf.acknowledge seg.ack).1.una = false := by
    unfold SendBuf.acknowledge
    split
    · rename_i hlo
      simpa using hlo
    · simp only [hack, hself]
      exact hself _
  rw [completePassiveOpen_eq]
  unfold estimateAfterACK
  simp only
  rw [hdup]
  rfl

theorem Handled.karn {now : Int} (hd : Handled now seg c d) (h : c.Karn sent c.rto.estimate)
    (ho : c.state ≠ .closed → c.opened = true) (hun : c.state = .synSent → c.sendBuf.unacked = 1)
    (hsim : c.state = .synSent → c.takesWindow seg = true → seg.hasFlag flagACK = false → c.rto.timing = none) :
    d.Karn sent (c.estimateAfter now seg) := by
  obtain ⟨hbuf, -, hopened, -, hrto⟩ := options_keep seg.options c
  have hopt := h.options seg.options
  have hopen : ∀ st, c.state = st → st ≠ .closed → c.opened = true := by
    rintro st rfl hne
    exact ho hne
  have hest : c.state = .synSent → c.estimateAfter now seg =
      if c.takesWindow seg && seg.hasFlag flagACK then (c.rto.ackReceived now seg.ack).estimate else c.rto.estimate := by
    intro hst
    unfold estimateAfter callsAckReceived
    rw [hst]
  -- where the acknowledgment is processed the sample is taken
  have htake : c.state = .established ∨ c.state = .finWait1 ∨ c.state = .finWait2 ∨ c.state = .closeWait →
      c.takesACK seg = true → c.estimateAfter now seg = c.estimateAfterACK now seg.ack := by
    intro hst ht
    unfold estimateAfter callsAckReceived estimateAfterACK
    rcases hst with hst | hst | hst | hst <;> rw [hst, ht] <;> rfl
  cases hd with
  | ignored ht => exact ht.estimateAfter now ▸ h
  | answered ht => exact ht.estimateAfter now ▸ h.queueACK now
  | refused ht _ hr =>
    rw [ht.estimateAfter now]
    refine h.queueSeg ?_
    rcases hr with rfl | rfl
    · exact isControl_rst c seg.ack
    · exact ⟨rfl, show ((flagRST ||| flagACK) &&& flagSYN != 0) = false by decide,
        show ((flagRST ||| flagACK) &&& flagFIN != 0) = false by decide⟩
  | closing ht =>
    rw [ht.estimateAfter now]
    refine Karn.queueACK now (h.congr ⟨rfl, rfl, rfl⟩ rfl ⟨rfl, rfl⟩ rfl fun hs => ?_)
    cases hs
  | timeWait ht =>
    rw [ht.estimateAfter now]
    exact Karn.queueACK now (h.same rfl)
  | lastAck ht =>
    rw [ht.estimateAfter now]
    exact h.shut rfl rfl rfl rfl rfl
  | reset ht =>
    rw [ht.estimateAfter now, resetTeardown_frame]
    exact h.shut rfl rfl rfl rfl rfl
  | refusedOpen ht =>
    rw [ht.estimateAfter now, safeCloseFinRecvd_frame]
    exact h.shut rfl rfl rfl rfl rfl
  | synAck hst hsyn hrst hack hlo hhi =>
    have hlo' : seqAfter seg.ack c.sendBuf.una = true := by
      simp only [seqBeforeEq, seqAfter, decide_eq_false_iff_not, decide_eq_true_eq] at hlo ⊢
      omega
    have hopen' := hopt.completeActiveOpen seg now (hopened.trans (hopen _ hst (by decide))) (by rw [hbuf]; exact hlo')
      (by rw [hbuf]; exact hhi)
    rw [hrto] at hopen'
    rw [hest hst, takesWindow_synSent seg hst, hsyn, hrst, hack, hlo, hhi]
    exact hopen'
  | syn hst hsyn hrst hack =>
    have hyes : c.takesWindow seg = true := by
      rw [takesWindow_synSent seg hst, hsyn, hrst, hack]
      rfl
    rw [hest hst, hyes, hack]
    exact hopt.simultaneousOpen now (hopened.trans (hopen _ hst (by decide))) (by rw [hbuf]; exact hun hst)
      (by rw [hrto]; exact hsim hst hyes hack)
  | passive hst hp hack =>
    have hsame : c.estimateAfter now seg = c.rto.estimate := by
      unfold estimateAfter callsAckReceived
      rw [hst]
      rfl
    have hrto' : (Conn.completePassiveOpen seg c).rto = c.rto := by rw [completePassiveOpen_eq]; rfl
    have hdata := Karn.handleDataState (c := Conn.completePassiveOpen seg c) now
      (by rw [hrto']; exact h.completePassiveOpen hst hack)
      (by rw [completePassiveOpen_eq]; exact hopen _ hst (by decide))
      (by rw [(completePassiveOpen_frame c seg).1]; decide) hp.ack
    rw [estimateAfterACK_completePassiveOpen now hack, hrto', ite_self] at hdata
    rw [hsame]
    exact hdata
  | data hst hp ht hpaws =>
    have hdata := h.handleDataState now (ho (by rcases hst with h | h | h <;> rw [h] <;> decide))
      (by rcases hst with h | h | h <;> rw [h] <;> decide) hp.ack
    rw [if_pos hpaws] at hdata
    rw [htake (by tauto) ht]
    exact hdata
  | closeWait hst hp ht =>
    rw [htake (.inr (.inr (.inr hst))) ht]
    exact h.processSegACK now (hopen _ hst (by decide)) (by rw [hst]; decide) hp.ack

/-- `HandleSegment` keeps to Karn's rule, unless it takes a bare SYN in SYN-SENT while a segment is timed. -/
theorem Karn.handleSegment (h : c.Karn sent c.rto.estimate)
    (ho : c.state ≠ .closed → c.opened = true) (hun : c.state = .synSent → c.sendBuf.unacked = 1)
    (hsim : c.state = .synSent → c.takesWindow seg = true → seg.hasFlag flagACK = false → c.rto.timing = none) :
    (c.handleSegment now seg).Karn sent (c.estimateAfter now seg) :=
  (handled now seg c).karn (h.same rfl) ho hun hsim

/-! ### Timers and calls -/

theorem Karn.onRTOTimeout (h : c.Karn sent est) (ho : c.state ≠ .closed → c.opened = true)
    (hun : c.state = .synSent ∨ c.state = .synReceived → c.sendBuf.unacked = 1)
    (hroom : c.sendBuf.unacked + 1 < 2 ^ 32) : (onRTOTimeout now c).Karn sent est := by
  rcases onRTOTimeout_cases now c with ⟨-, heq⟩ | ⟨hopen, ⟨-, -, heq⟩ | ⟨-, heq⟩⟩ <;> rw [heq]
  · exact h
  · exact h.shut rfl rfl rfl rfl rfl
  · have hopened := ho hopen.2
    have hstart : ∀ d : Conn σ, d.Karn sent est → d.startRTO.Karn sent est := fun d hd => hd.same rfl
    refine hstart _ ?_
    -- nothing is timed any more
    generalize hd : ({ c with retries := c.retries + 1, rto := c.rto.backoff.invalidateTiming
                              cc := CongestionController.onTimeout c.cc } : Conn σ) = d
    have hdbuf : d.sendBuf = c.sendBuf := by rw [← hd]
    have hdst : d.state = c.state := by rw [← hd]
    have hdo : d.opened = true := by rw [← hd]; exact hopened
    have hdt : d.rto.timing = none := by rw [← hd]; rfl
    have hdk : d.Karn sent est := by
      have hest : c.rto.backoff.invalidateTiming.estimate = c.rto.estimate :=
        (RTOCalculator.estimate_clamp { c.rto with rto := c.rto.rto * 2 }).1
      have hstop := SendRecord.Karn.stop h
      rw [← hd]
      unfold Karn sendRecord
      simp only [hest]
      exact hstop
    have hone : ∀ st, d.state = st → st = .synSent ∨ st = .synReceived → d.sendBuf.unacked = 1 := by
      rintro st hs hst
      rw [hdbuf]
      exact hun (by rw [← hdst, hs]; exact hst)
    unfold resend
    split
    · rename_i hs
      exact hdk.again (d.synSegment now d.sendBuf.una) hdo rfl
        (by rw [numbers_synSegment, hone _ hs (.inl rfl)]) rfl rfl ⟨hdt, rfl⟩ rfl
    · rename_i hs
      exact hdk.again (d.synAckSegment now d.sendBuf.una) hdo rfl
        (by rw [numbers_synAckSegment, hone _ hs (.inr rfl)]) rfl rfl ⟨hdt, rfl⟩ rfl
    · exact hdk.retransmit now hdo
    · exact hdk.retransmit now hdo
    · exact hdk.queueFIN now hdo (by rw [hdbuf]; exact hroom)
    · exact hdk.queueFIN now hdo (by rw [hdbuf]; exact hroom)
    · exact hdk

theorem Karn.onPersistTimeout (h : c.Karn sent est) (ho : c.state ≠ .closed → c.opened = true)
    (hbuf : c.state = .synReceived → c.sendBuf.buf = []) (hroom : c.sendBuf.unacked + 1 < 2 ^ 32) :
    (onPersistTimeout now c).Karn sent est := by
  unfold Conn.onPersistTimeout
  split
  · exact h
  · rename_i hopen
    have hopened : c.opened = true := ho fun hs => hopen (.inr hs)
    split
    · have hstop : c.stopPersist.Karn sent est := h.same rfl
      exact hstop.flushSendQueue now hopened hbuf
    · have hprobe := h.windowProbe hopened hroom
      simp only
      generalize c.windowProbe = d at hprobe
      exact hprobe.same rfl

theorem Karn.onKeepalive (h : c.Karn sent est) : (onKeepalive now c).Karn sent est := by
  rcases onKeepalive_cases now c with hsame | ⟨-, -, ⟨-, habort⟩ | ⟨-, d, ks, kt, hd, hrearm⟩⟩
  · rw [hsame]
    exact h
  · rw [habort, keepaliveAbort_frame]
    exact h.shut rfl rfl rfl rfl rfl
  · have hprobe : d.Karn sent est := by
      rcases hd with rfl | rfl
      · exact h
      · exact h.queueSeg (isControl_ack rfl rfl)
    rw [hrearm]
    exact hprobe.same rfl

theorem Karn.writeLoop (rest : List Byte) (written : Nat) (h : c.Karn sent est) (ho : c.opened = true)
    (hst : c.state ≠ .synReceived) : (c.writeLoop now rest written).1.Karn sent est := by
  have hw : ({ c with sendBuf := (c.sendBuf.write rest).1 } : Conn σ).Karn sent est := by
    rw [SendBuf.write_eq]
    exact h.same rfl
  unfold Conn.writeLoop
  simp only
  split
  · exact hw.flushSendQueue now ho fun hs => absurd hs hst
  · split
    · split <;> exact hw
    · exact hw

theorem unacked_flushSendQueue_le (c : Conn σ) :
    (Conn.flushSendQueue now c).sendBuf.unacked ≤ max c.sendBuf.unacked c.sendBuf.buf.length := by
  have hloop : ∀ (fuel : Nat) (c : Conn σ),
      (flushLoop now fuel c).sendBuf.unacked ≤ max c.sendBuf.unacked c.sendBuf.buf.length := by
    intro fuel
    induction fuel with
    | zero => exact fun c => le_max_left _ _
    | succ fuel ih =>
      intro c
      unfold flushLoop
      split
      · exact le_max_left _ _
      · rename_i n hn
        obtain ⟨-, -, hbuf, -⟩ := chunkSize_bounds hn
        refine (ih (c.sendChunk now n)).trans ?_
        rw [unacked_sendChunk now hn, buf_sendChunk]
        omega
  unfold Conn.flushSendQueue armPersist
  split <;> exact hloop _ c

theorem Karn.close (h : c.Karn sent est) (ho : c.state ≠ .closed → c.opened = true)
    (hroom : max c.sendBuf.unacked c.sendBuf.buf.length + 1 < 2 ^ 32) : (close now c).Karn sent est := by
  have hmove : ∀ (d : Conn σ) (st : State), d.Karn sent est → st ≠ .synReceived → (d.setState st).Karn sent est := by
    intro d st hd hne
    exact hd.congr ⟨rfl, rfl, rfl⟩ rfl ⟨rfl, rfl⟩ rfl fun hs => absurd hs hne
  have hend : ∀ d : Conn σ, d.Karn sent est → d.startRTO.broadcastRecv.broadcastSend.Karn sent est := by
    intro d hd
    unfold Conn.broadcastSend broadcastRecv startRTO
    exact hd.same rfl
  have hshut : c.shut.stopRTO.stopKeepalive.stopPersist.broadcastRecv.broadcastSend.Karn sent est := by
    unfold Conn.broadcastSend broadcastRecv stopPersist stopKeepalive stopRTO Conn.shut setState
    exact h.shut rfl rfl rfl rfl rfl
  have hopened : ∀ st, c.state = st → st ≠ .closed → c.opened = true := by
    rintro st rfl hne
    exact ho hne
  have hroom' : c.sendBuf.unacked + 1 < 2 ^ 32 := by omega
  unfold Conn.close
  split
  · exact h
  · split
    · rename_i hs
      have hflush := h.flushSendQueue now (hopened _ hs (by decide)) fun hs' => by cases hs.symm.trans hs'
      have hle := unacked_flushSendQueue_le now c
      have ho' : (Conn.flushSendQueue now c).opened = true := by
        rw [flushSendQueue_frame]
        exact hopened _ hs (by decide)
      generalize Conn.flushSendQueue now c = d at hflush hle ho'
      exact hend _ ((hmove d .finWait1 hflush (by decide)).queueFIN now ho' (show d.sendBuf.unacked + 1 < 2 ^ 32 by omega))
    · rename_i hs
      exact hend _ ((hmove c .lastAck h (by decide)).queueFIN now (hopened _ hs (by decide)) hroom')
    · exact hshut
    · rename_i hs
      exact hend _ ((hmove c .finWait1 h (by decide)).queueFIN now (hopened _ hs (by decide)) hroom')
    · exact h
    · exact h
    · exact hshut

theorem Karn.abort (h : c.Karn sent est) : c.abort.Karn sent est := by
  have hend : ∀ d : Conn σ, d.Karn sent est →
      d.broadcastRecv.broadcastSend.safeCloseEstablished.safeCloseFinRecvd.Karn sent est := by
    intro d hd
    rw [safeCloseFinRecvd_frame]
    exact hd.congr ⟨rfl, rfl, rfl⟩ rfl ⟨rfl, rfl⟩ rfl id
  unfold Conn.abort
  split
  · exact h
  · have hshut : c.shut.stopRTO.stopKeepalive.stopPersist.Karn sent est := by
      unfold stopPersist stopKeepalive stopRTO Conn.shut setState
      exact h.shut rfl rfl rfl rfl rfl
    simp only
    refine hend _ ?_
    generalize c.shut.stopRTO.stopKeepalive.stopPersist = d at hshut
    split
    · exact hshut.queueSeg (isControl_rst _ _)
    · exact hshut

theorem Karn.openBufs (cap : Nat) (iss irs : BitVec 32) (st : State) (h : c.Karn sent est) (ho : c.opened = false) :
    ((c.openBufs cap iss irs).setState st).Karn sent est := by
  obtain ⟨hnone, hzero⟩ := h.unopened ho
  refine ⟨h.estimate, fun p hp hpos => ?_, fun sent seq ht => ?_, fun hno => ?_, fun _ => hnone⟩
  · have := hzero p hp
    omega
  · cases hnone.symm.trans ht
  · cases hno

theorem Karn.connect (iss : BitVec 32) (h : c.Karn sent est)
    (ho : c.state = .closed → c.opened = false) : (connect now iss c).Karn sent est := by
  unfold Conn.connect
  split
  · exact h
  · rename_i hs
    have hopen := h.openBufs c.sendBufSize iss 0 .synSent (ho (not_not.1 hs))
    generalize hd : (c.openBufs c.sendBufSize iss 0).setState .synSent = d at hopen
    have hnxt : d.sendBuf.nxt = iss := by rw [← hd]; rfl
    have hun : d.sendBuf.unacked = 0 := by rw [← hd]; exact congrArg BitVec.toNat (BitVec.sub_self iss)
    exact hopen.start now (d.synSegment now iss) (by rw [← hd]; rfl) (numbers_synSegment now _ _ _ d) hnxt.symm (by omega)
      one_pos (by rw [← hd]; exact State.noConfusion) rfl rfl (by rw [hnxt]; rfl) rfl rfl

theorem Karn.acceptSYN (iss : BitVec 32) (syn : Segment) (h : c.Karn sent est)
    (ho : c.state = .closed ∨ c.state = .listen → c.opened = false) : (acceptSYN now iss syn c).Karn sent est := by
  unfold Conn.acceptSYN
  split
  · exact h
  · rename_i hs
    obtain ⟨-, -, hopened, -, -⟩ := options_keep syn.options c
    have hopt := h.options syn.options
    have ho' : (negotiateOptions syn.options (narrowMSS syn.options c)).opened = false :=
      hopened.trans (ho (by tauto))
    generalize negotiateOptions syn.options (narrowMSS syn.options c) = b at hopt ho'
    have hopen := hopt.openBufs b.sendBufCap iss (syn.seq + 1) .synReceived ho'
    generalize hd : (b.openBufs b.sendBufCap iss (syn.seq + 1)).setState .synReceived = d at hopen
    have hnxt : d.sendBuf.nxt = iss := by rw [← hd]; rfl
    have hun : d.sendBuf.unacked = 0 := by rw [← hd]; exact congrArg BitVec.toNat (BitVec.sub_self iss)
    simp only [hd]
    exact hopen.fresh (d.synAckSegment now iss) (by rw [← hd]; rfl) (numbers_synAckSegment now _ _ _ d) hnxt.symm (by omega)
      rfl rfl rfl rfl rfl

theorem Karn.acceptCookie (remoteSeq ourISS : BitVec 32) (mss : BitVec 16) (data : List Byte) (h : c.Karn sent est)
    (ho : c.state = .closed ∨ c.state = .listen → c.opened = false) :
    (acceptCookie remoteSeq ourISS mss data c).Karn sent est := by
  by_cases hst : c.state = .closed ∨ c.state = .listen
  · obtain ⟨m, kt, pt, pb, hcookie⟩ := acceptCookie_frame remoteSeq ourISS mss data hst
    have hopen := h.openBufs c.sendBufCap (ourISS + 1) remoteSeq .established (ho hst)
    rw [hcookie]
    refine Karn.queueSeg ?_ (isControl_ack rfl rfl)
    exact hopen.congr ⟨rfl, rfl, rfl⟩ rfl ⟨rfl, rfl⟩ rfl fun hs => by cases hs
  · have hsame : Conn.acceptCookie remoteSeq ourISS mss data c = c := if_pos (not_or.1 hst)
    rw [hsame]
    exact h

theorem Karn.setupForHandshake (iss : BitVec 32) (h : c.Karn sent est) (ho : c.opened = false) :
    (setupForHandshake iss c).Karn sent est := by
  obtain ⟨hnone, hzero⟩ := h.unopened ho
  refine ⟨h.estimate, fun p hp hpos => ?_, fun sent seq ht => ?_, fun hno => ?_, fun _ => hnone⟩
  · have := hzero p hp
    omega
  · cases hnone.symm.trans ht
  · cases hno

/-- The RTT sample that the event makes `AckReceived` record: the time measured, and the timed number. -/
def sampleOf (c : Conn σ) : Event → Option (Int × BitVec 32)
  | .segment now seg =>
    if c.callsAckReceived seg then
      (c.rto.timing.filter fun x => seqAfter seg.ack x.2).map fun x => (now - x.1, x.2)
    else none
  | _ => none

def crossesTimedSYN (c : Conn σ) : Event → Bool
  | .segment _ seg => c.state == .synSent && c.takesWindow seg && !seg.hasFlag flagACK && c.rto.timing.isSome
  | _ => false

def estimateOf (c : Conn σ) (e : Event) : Int × Int × Bool :=
  (c.sampleOf e).elim c.rto.estimate fun x => (c.rto.sample x.1).estimate

theorem estimateOf_segment (seg : Segment) (c : Conn σ) :
    c.estimateOf (.segment now seg) = c.estimateAfter now seg := by
  unfold estimateOf sampleOf estimateAfter
  simp only
  cases c.callsAckReceived seg with
  | false => rfl
  | true =>
    unfold RTOCalculator.ackReceived
    cases ht : c.rto.timing with
    | none => rfl
    | some x =>
      obtain ⟨sent, seq⟩ := x
      simp only [if_true, Option.filter]
      split
      · rfl
      · rfl

end Conn

/-- Ghost: the position of a number that has been sent, counted from the initial one without wrapping. -/
def SendBuf.sentPos (s : SendBuf) (seq : BitVec 32) : Nat := s.acked + s.unacked - (s.nxt - seq).toNat

namespace Host

variable {σ : Type} [CongestionController σ]

/-- One packet sent carries the number, and it is the packet's first one. -/
def SentOnce (h : Host σ) (seq : BitVec 32) : Prop :=
  ∃ p, h.sent.filter (Packet.bears (h.conn.sendBuf.sentPos seq)) = [p] ∧
    p.pos = h.conn.sendBuf.sentPos seq ∧ p.seg.seq = seq

/-- One opening, no SYN crosses a timed one, and what is outstanding or buffered does not fill the sequence space. -/
def KarnSafe (h : Host σ) (e : Event) : Prop :=
  h.core.OpensOnce e ∧ h.conn.crossesTimedSYN e = false ∧
    max h.conn.sendBuf.unacked h.conn.sendBuf.buf.length + 1 < 2 ^ 32

instance (s : Core) (e : Event) : Decidable (s.OpensOnce e) := by
  unfold Core.OpensOnce
  infer_instance

instance (h : Host σ) (e : Event) : Decidable (h.KarnSafe e) := by
  unfold KarnSafe
  infer_instance

theorem karn_next {P : Host σ → Event → Prop} {h h' : Host σ} {e : Event} (hr : (system σ).Reach P h)
    (hk : h.conn.Karn h.sent h.conn.rto.estimate) (hn : h.next e = some h') (he : h.KarnSafe e) :
    h'.conn.Karn h'.sent (h.conn.estimateOf e) := by
  obtain ⟨hinv, hwriters⟩ := send_inv hr
  obtain ⟨honce, hsim, hroom⟩ := he
  obtain ⟨c, hcall, hleft⟩ := called_of_next hn
  suffices hc : c.Karn h.sent (h.conn.estimateOf e) by
    have heq : h'.conn.sendRecord h'.sent = c.sendRecord h.sent := by
      unfold Conn.sendRecord
      rw [hleft.emitted, hleft.conn]
    unfold Conn.Karn
    rw [heq]
    exact hc
  have hopened : h.conn.state ≠ .closed → h.conn.opened = true := fun hne =>
    Bool.eq_true_of_not_eq_false fun ho => hne (hinv.unopened ho)
  have hone : h.conn.state = .synSent ∨ h.conn.state = .synReceived → h.conn.sendBuf.unacked = 1 := by
    intro hs
    obtain ⟨-, huna, hnxt⟩ := hinv.handshake hs
    have huna' : h.conn.sendBuf.una = h.conn.iss := huna
    have hnxt' : h.conn.sendBuf.nxt = h.conn.iss + 1 := hnxt
    have hsub : h.conn.iss + 1 - h.conn.iss = 1#32 := by bv_omega
    unfold SendBuf.unacked
    rw [huna', hnxt', hsub]
    rfl
  have hroom' : h.conn.sendBuf.unacked + 1 < 2 ^ 32 := by omega
  cases hcall with
  | connect now iss => exact hk.connect now iss fun hs => Core.OpensOnce.unopened honce rfl (.inl hs)
  | acceptSYN now iss syn => exact hk.acceptSYN now iss syn (Core.OpensOnce.unopened honce rfl)
  | acceptCookie remoteSeq ourISS mss data =>
    exact hk.acceptCookie remoteSeq ourISS mss data (Core.OpensOnce.unopened honce rfl)
  | setupForHandshake iss ho => exact hk.setupForHandshake iss ho
  | segment now seg =>
    rw [Conn.estimateOf_segment]
    refine hk.handleSegment now hopened (fun hs => hone (.inl hs)) fun hs htakes hack => ?_
    have hsome : h.conn.rto.timing.isSome = false := by
      simpa [Conn.crossesTimedSYN, hs, htakes, hack] using hsim
    exact Option.not_isSome_iff_eq_none.1 (by rw [hsome]; exact Bool.false_ne_true)
  | rto now => exact hk.onRTOTimeout now hopened hone hroom'
  | persist now => exact hk.onPersistTimeout now hopened (fun hs => (hinv.handshake (.inr hs)).1) hroom'
  | keepalive now => exact hk.onKeepalive now
  | timeWait => refine hk.shut ?_ ?_ ?_ ?_ ?_ <;> rfl
  | write now b =>
    unfold Conn.write
    split
    · exact hk
    · split
      · exact hk
      · rename_i hs
        have hne : h.conn.state ≠ .closed ∧ h.conn.state ≠ .synReceived := by
          constructor <;> intro hs' <;> rw [hs'] at hs <;> exact hs ⟨by decide, by decide⟩
        exact hk.writeLoop now b 0 (hopened hne.1) hne.2
  | @resume now i w hw =>
    unfold Conn.writeResume
    split
    · exact hk
    · -- a call that waits has seen ESTABLISHED
      rename_i hc
      have hent := hwriters (fun hnil => by rw [hnil] at hw; cases hw)
      have hopen : h.core.closed = false := Bool.eq_false_of_not_eq_true hc
      have hlate : Core.early h.core.state = false := by
        by_contra hearly
        exact (hinv.fresh hopen (Bool.eq_true_of_not_eq_false hearly)).1 hent
      have hne : h.conn.state ≠ .closed ∧ h.conn.state ≠ .synReceived := by
        constructor <;> intro hs <;> rw [show h.core.state = _ from hs] at hlate <;> cases hlate
      exact hk.writeLoop now w.rest w.written (hopened hne.1) hne.2
  | read now n =>
    rw [Conn.read_frame]
    exact hk.same rfl
  | close now => exact hk.close now hopened hroom
  | abort => exact hk.abort
  | setDeadline | setReadDeadline | setWriteDeadline | broadcastSend => exact hk.same rfl

theorem karn_reach {h : Host σ} (hr : (system σ).Reach KarnSafe h) : h.conn.Karn h.sent h.conn.rto.estimate := by
  refine hr.invariant (I := fun g => g.conn.Karn g.sent g.conn.rto.estimate) ?_ ?_
  · rintro g ⟨cfg, now, rfl⟩
    have hnone : (fresh cfg now : Host σ).conn.rto.timing = none := rfl
    refine ⟨rfl, fun p hp => (nomatch hp), fun sent seq ht => ?_, fun _ => ⟨rfl, fun p hp => (nomatch hp)⟩, fun _ => rfl⟩
    cases hnone.symm.trans ht
  · intro g e g' hr' hk he hn
    have hk' := karn_next hr' hk hn he
    have hest : g'.conn.rto.estimate = g.conn.estimateOf e := hk'.estimate
    rw [hest]
    exact hk'

/-- Every sample that `AckReceived` records in a run with safe steps measures a packet whose first number has been
sent once.  An event without a sample leaves the estimate as it is. -/
theorem sample_measures_sent_once {h h' : Host σ} {e : Event} (hr : (system σ).Reach KarnSafe h) (he : h.KarnSafe e)
    (hn : h.next e = some h') :
    h'.conn.rto.estimate =
        (h.conn.sampleOf e).elim h.conn.rto.estimate (fun x => (h.conn.rto.sample x.1).estimate) ∧
      ∀ rtt seq, h.conn.sampleOf e = some (rtt, seq) → h.SentOnce seq := by
  have hk := karn_reach hr
  refine ⟨(karn_next hr hk hn he).estimate, fun rtt seq hs => ?_⟩
  have htimed : ∃ sent, h.conn.rto.timing = some (sent, seq) := by
    cases e with
    | segment now seg =>
      unfold Conn.sampleOf at hs
      simp only at hs
      split at hs
      · obtain ⟨x, hx, heq⟩ := Option.map_eq_some_iff.1 hs
        obtain ⟨hx', -⟩ := Option.filter_eq_some_iff.1 hx
        exact ⟨x.1, by rw [hx', ← (Prod.mk.inj heq).2]⟩
      · cases hs
    | _ => cases hs
  obtain ⟨sent, ht⟩ := htimed
  obtain ⟨hout, hsent⟩ := hk.timed sent seq ht
  have hout' : (seq - h.conn.sendBuf.una).toNat < (h.conn.sendBuf.nxt - h.conn.sendBuf.una).toNat := hout
  have hpos : h.conn.sendBuf.sentPos seq = h.conn.sendBuf.acked + (seq - h.conn.sendBuf.una).toNat := by
    have hsub : h.conn.sendBuf.nxt - seq = (h.conn.sendBuf.nxt - h.conn.sendBuf.una) - (seq - h.conn.sendBuf.una) := by
      bv_omega
    have hdist : (h.conn.sendBuf.nxt - seq).toNat =
        (h.conn.sendBuf.nxt - h.conn.sendBuf.una).toNat - (seq - h.conn.sendBuf.una).toNat := by
      rw [hsub]
      exact BitVec.toNat_sub_of_le (BitVec.le_def.2 hout'.le)
    unfold SendBuf.sentPos SendBuf.unacked
    omega
  have hemitted : (h.conn.sendRecord h.sent).emitted = h.sent := by
    show h.sent ++ h.conn.outgoing = h.sent
    rw [outgoing_eq_nil hr, List.append_nil]
  unfold SentOnce
  rw [hpos, ← hemitted]
  exact hsent

def pureAck (seq ack : BitVec 32) : Segment :=
  { srcPort := 0, dstPort := 0, seq, ack, flags := flagACK, window := 1000 }

/-- The byte with number 101 is acknowledged five units after it was sent. -/
theorem sample_measures_sent_once_byte :
    let h : Host SmallController := (fresh {} 0).run (opening ++ [.write 5 [1]])
    h.conn.sampleOf (.segment 10 (pureAck 701 102)) = some (5, 101) ∧ h.SentOnce 101 := by
  have hr : (system SmallController).Reach KarnSafe ((fresh {} 0).run (opening ++ [.write 5 [1]])) :=
    run_reach (by decide +kernel) (by decide +kernel)
  have hs : ((fresh {} 0 : Host SmallController).run (opening ++ [.write 5 [1]])).conn.sampleOf
      (.segment 10 (pureAck 701 102)) = some (5, 101) := by
    decide +kernel
  have hsafe : ((fresh {} 0 : Host SmallController).run (opening ++ [.write 5 [1]])).KarnSafe
      (.segment 10 (pureAck 701 102)) := by
    decide +kernel
  exact ⟨hs, (sample_measures_sent_once hr hsafe (next_run (by decide +kernel))).2 5 101 hs⟩

def simultaneous : List Event :=
  [.connect 0 100,
    .segment 1 { srcPort := 0, dstPort := 0, seq := 700, ack := 0, flags := flagSYN, window := 1000 },
    .segment 2 (pureAck 701 101), .write 5 [1]]

/-- The acknowledgment of the byte records a sample for the SYN, which was sent again in the SYN-ACK. -/
theorem sample_of_simultaneous_open :
    let h : Host SmallController := (fresh {} 0).run simultaneous
    (system SmallController).Reach (fun g e => g.core.OpensOnce e) h ∧
      (h.next (.segment 10 (pureAck 701 102))).isSome = true ∧
      h.conn.sampleOf (.segment 10 (pureAck 701 102)) = some (10, 100) ∧
      (h.sent.filter (Packet.bears (h.conn.sendBuf.sentPos 100))).map (·.seg.seq) = [100, 100] ∧ ¬h.SentOnce 100 := by
  have hr : (system SmallController).Reach (fun g e => g.core.OpensOnce e) ((fresh {} 0).run simultaneous) :=
    run_reach (by decide +kernel) (by decide +kernel)
  have htwice : (((fresh {} 0 : Host SmallController).run simultaneous).sent.filter (Packet.bears
      (((fresh {} 0 : Host SmallController).run simultaneous).conn.sendBuf.sentPos 100))).map (·.seg.seq) =
      [100, 100] := by
    decide +kernel
  refine ⟨hr, by decide +kernel, by decide +kernel, htwice, ?_⟩
  rintro ⟨p, hp, -⟩
  rw [hp] at htwice
  simp at htwice

end Host

end Libp2px.Vtcp
