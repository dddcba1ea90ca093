import Libp2px.Vtcp.Segment

/-!
# The send buffer

`vtcp/sendbuf.go`: the data from `SND.UNA` on, what of it has been sent, and the SACK scoreboard.
-/

namespace Libp2px.Vtcp

/-- `SendBuf`.  `buf` holds the bytes from sequence number `una` on; the first `nxt - una` of them are sent. -/
structure SendBuf where
  buf : List Byte := []
  cap : Nat
  una : BitVec 32
  nxt : BitVec 32
  sacked : List SACKBlock := []
  /-- Ghost: the sequence number the buffer was created with. -/
  initialSeq : BitVec 32
  /-- Ghost: how many sequence numbers have been acknowledged. -/
  acked : Nat := 0
  deriving DecidableEq, Repr

def newSendBuf (capacity : Nat) (initialSeq : BitVec 32) : SendBuf where
  cap := capacity
  una := initialSeq
  nxt := initialSeq
  initialSeq := initialSeq

namespace SendBuf

/-- `Write`: the buffer after appending what fits of `p`, and how many bytes that is. -/
def write (s : SendBuf) (p : List Byte) : SendBuf × Nat :=
  let avail := s.cap - s.buf.length
  if avail = 0 then (s, 0)
  else
    let n := if p.length > avail then avail else p.length
    ({ s with buf := s.buf ++ p.take n }, n)

def unacked (s : SendBuf) : Nat := (s.nxt - s.una).toNat

/-- Ghost: the position of a sequence number at or after `una`, counted from the initial one without wrapping. -/
def pos (s : SendBuf) (seq : BitVec 32) : Nat := s.acked + (seq - s.una).toNat

/-- `Pending`: the bytes queued and not sent; negative when a SYN or FIN counts as sent beyond the buffer. -/
def pending (s : SendBuf) : Int := s.buf.length - s.unacked

def peekUnsent (s : SendBuf) (n : Nat) : List Byte := (s.buf.drop s.unacked).take n

def advanceSent (s : SendBuf) (n : Nat) : SendBuf := { s with nxt := s.nxt + BitVec.ofNat 32 n }

def pruneSACK (s : SendBuf) : SendBuf := { s with sacked := s.sacked.filter fun b => seqAfter b.right s.una }

/-- `Acknowledge`: the buffer after the acknowledgment and the number of bytes it freed. -/
def acknowledge (s : SendBuf) (ack : BitVec 32) : SendBuf × BitVec 32 :=
  if !seqAfter ack s.una then (s, 0)
  else
    let ack := if seqAfter ack s.nxt then s.nxt else ack
    let n := ack - s.una
    let n := if n.toNat > s.buf.length then BitVec.ofNat 32 s.buf.length else n
    (pruneSACK { s with buf := s.buf.drop n.toNat, una := ack, acked := s.acked + (ack - s.una).toNat }, n)

/-- `MarkSACKed`: the scoreboard becomes the blocks that reach into the unacknowledged range. -/
def markSACKed (s : SendBuf) (blocks : List SACKBlock) : SendBuf :=
  if blocks = [] then s
  else { s with sacked := blocks.filter fun b => seqAfter b.right s.una && seqBefore b.left s.nxt }

/-- The membership test of `IsSACKed` and of the loop in `RetransmitData`. -/
def covers (b : SACKBlock) (seq : BitVec 32) : Bool := seqAfterEq seq b.left && seqBefore seq b.right

def isSACKed (s : SendBuf) (seq : BitVec 32) : Bool := s.sacked.any fun b => covers b seq

/-- One pass over the scoreboard in `RetransmitData`: `seq` skips every block that covers it when its turn comes. -/
def skipPass (blocks : List SACKBlock) (seq : BitVec 32) : BitVec 32 :=
  blocks.foldl (fun seq b => if covers b seq then b.right else seq) seq

/-- Whether some block is taken during a pass (`changed`). -/
def skipChanged : List SACKBlock → BitVec 32 → Bool
  | [], _ => false
  | b :: bs, seq => covers b seq || skipChanged bs seq

/-- The loop of `RetransmitData` that skips SACKed ranges. A pass that changes something ends at the right edge of a
block, so a loop with more such passes than blocks repeats a value and never ends: `none`. -/
def skipSACKed (blocks : List SACKBlock) : Nat → BitVec 32 → Option (BitVec 32)
  | 0, _ => none
  | fuel + 1, seq =>
    if skipChanged blocks seq then skipSACKed blocks fuel (skipPass blocks seq) else some seq

/-- `RetransmitData`: up to `n` bytes of sent data that are not SACKed; `none` when the loop does not end. -/
def retransmitData (s : SendBuf) (n : Nat) : Option (List Byte) :=
  let unacked := if s.unacked > s.buf.length then s.buf.length else s.unacked
  if s.sacked = [] then some ((s.buf.take unacked).take n)
  else
    match skipSACKed s.sacked (s.sacked.length + 2) s.una with
    | none => none
    | some seq =>
      if seqAfterEq seq s.nxt then some []
      else
        let offset := (seq - s.una).toNat
        if offset ≥ unacked then some []
        else some (((s.buf.take unacked).drop offset).take n)

theorem write_eq (s : SendBuf) (p : List Byte) : (s.write p).1 = { s with buf := s.buf ++ p.take (s.write p).2 } := by
  unfold write
  simp only
  split
  · simp
  · rfl

@[simp] theorem markSACKed_buf (s : SendBuf) (blocks : List SACKBlock) : (s.markSACKed blocks).buf = s.buf := by
  unfold markSACKed; split <;> rfl

@[simp] theorem markSACKed_una (s : SendBuf) (blocks : List SACKBlock) : (s.markSACKed blocks).una = s.una := by
  unfold markSACKed; split <;> rfl

@[simp] theorem markSACKed_nxt (s : SendBuf) (blocks : List SACKBlock) : (s.markSACKed blocks).nxt = s.nxt := by
  unfold markSACKed; split <;> rfl

/-! ### What is outstanding -/

theorem place_una_unacked (s : SendBuf) : Serial.place s.una s.unacked = s.nxt := Serial.place_toNat_sub s.una s.nxt

theorem unacked_advanceSent (s : SendBuf) (n : Nat) : (s.advanceSent n).unacked = (s.unacked + n) % 2 ^ 32 := by
  show (s.nxt + BitVec.ofNat 32 n - s.una).toNat = _
  have h : s.nxt + BitVec.ofNat 32 n - s.una = (s.nxt - s.una) + BitVec.ofNat 32 n := by bv_omega
  rw [h, BitVec.toNat_add, BitVec.toNat_ofNat, Nat.add_mod_mod]
  rfl

theorem length_peekUnsent_le (s : SendBuf) (n : Nat) :
    (s.peekUnsent n).length ≤ s.buf.length - s.unacked := by
  rw [peekUnsent, List.length_take, List.length_drop]
  exact Nat.min_le_right _ _

variable {s : SendBuf} {ack : BitVec 32} {data : List Byte}

theorem ack_between (hlo : seqAfter ack s.una = true) (hhi : seqAfter ack s.nxt = false) :
    0 < (ack - s.una).toNat ∧ (ack - s.una).toNat < 2 ^ 31 ∧ (ack - s.una).toNat + (s.nxt - ack).toNat = s.unacked := by
  simp only [seqAfter, decide_eq_true_eq, decide_eq_false_iff_not, not_lt, gt_iff_lt] at hlo hhi
  rw [BitVec.toInt_eq_toNat_cond] at hlo
  have hd : (ack - s.una).toNat < 2 ^ 31 := by
    split at hlo <;> omega
  have hg : (s.nxt - ack).toNat ≤ 2 ^ 31 := by
    rw [BitVec.toInt_eq_toNat_cond] at hhi
    bv_omega
  have hsum : (ack - s.una) + (s.nxt - ack) = s.nxt - s.una := by bv_omega
  have hnat := congrArg BitVec.toNat hsum
  rw [BitVec.toNat_add, Nat.mod_eq_of_lt (by omega)] at hnat
  refine ⟨?_, hd, hnat⟩
  split at hlo <;> omega

theorem acknowledge_eq (hlo : seqAfter ack s.una = true) (hhi : seqAfter ack s.nxt = false) :
    (s.acknowledge ack).1 = pruneSACK { s with buf := s.buf.drop (ack - s.una).toNat, una := ack
                                               acked := s.acked + (ack - s.una).toNat } := by
  unfold acknowledge
  simp only [hlo, hhi, Bool.not_true, Bool.false_eq_true, ite_false]
  split
  · -- more is acknowledged than the buffer holds: a SYN or FIN, and everything is dropped
    rename_i hlen
    have hlt : s.buf.length < 2 ^ 32 := lt_trans hlen (ack - s.una).isLt
    have hdrop : s.buf.drop (BitVec.ofNat 32 s.buf.length).toNat = s.buf.drop (ack - s.una).toNat := by
      rw [BitVec.toNat_ofNat, Nat.mod_eq_of_lt hlt, List.drop_length, List.drop_eq_nil_of_le (le_of_lt hlen)]
    rw [hdrop]
  · rfl

theorem acknowledge_buf_nil (h : s.buf = []) (ack : BitVec 32) : (s.acknowledge ack).1.buf = [] := by
  unfold acknowledge
  split
  · exact h
  · simp [pruneSACK, h]

def resendLength (s : SendBuf) (n : Nat) : Nat := min n (min s.unacked s.buf.length)

theorem length_retransmitData_le {n : Nat} (hd : s.retransmitData n = some data) :
    data.length ≤ s.resendLength n := by
  unfold retransmitData at hd
  simp only at hd
  unfold resendLength
  have hu : (if s.unacked > s.buf.length then s.buf.length else s.unacked) = min s.unacked s.buf.length := by
    split <;> omega
  rw [hu] at hd
  split at hd
  · rw [← Option.some.inj hd, List.length_take, List.length_take]
    omega
  · split at hd
    · cases hd
    · split at hd
      · simp [← Option.some.inj hd]
      · split at hd
        · simp [← Option.some.inj hd]
        · rw [← Option.some.inj hd, List.length_take, List.length_drop, List.length_take]
          omega

theorem retransmitData_length {n : Nat} (hd : s.retransmitData n = some data) :
    data.length ≤ s.unacked ∧ data.length ≤ s.buf.length := by
  have hle := length_retransmitData_le hd
  unfold resendLength at hle
  omega

/-! ### A buffer with nothing outstanding -/

theorem unacked_acknowledge_nxt (hack : ack = s.nxt)
    (hlo : seqAfter ack s.una = true) : (s.acknowledge ack).1.unacked = 0 := by
  subst hack
  have hself : seqAfter s.nxt s.nxt = false := by simp [seqAfter]
  unfold acknowledge
  simp [hlo, hself, unacked, pruneSACK]

theorem retransmitData_of_unacked_eq_zero {n : Nat} (hu : s.unacked = 0)
    (hd : s.retransmitData n = some data) : data = [] := by
  unfold retransmitData at hd
  simp only [hu, Nat.not_lt_zero, gt_iff_lt, ite_false, List.take_zero, List.take_nil, ge_iff_le, Nat.zero_le,
    ite_true] at hd
  split at hd
  · exact (Option.some.inj hd).symm
  · split at hd
    · cases hd
    · split at hd <;> exact (Option.some.inj hd).symm

end SendBuf

end Libp2px.Vtcp
