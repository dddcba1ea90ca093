import Libp2px.Vtcp.Advertise

/-!
# The right edge of the advertised window

An ACK-bearing segment promises room up to its right edge, the acknowledged number plus the window.  The edge stays
where it is when data is taken in order, and moves right when `Read` frees space.  It moves left in two ways: data that
arrives out of order takes free space without advancing the acknowledged number, and a free space that falls below the
threshold of the silly-window rule is advertised as none.  In every run in which neither happens while the window is
open, the edge never moves left by a unit of the scaling.
-/

namespace Libp2px.Vtcp

open Transition

/-! ### What data costs the receive buffer -/

def heldBytes (es : List OooEntry) : Nat := (es.map fun e => e.data.length).sum

namespace RecvBuf

variable {r : RecvBuf} {data : List Byte}

theorem toNat_window (hw : r.windowSize ≤ 2 ^ 30) :
    r.window.toNat =
      if r.windowSize = 0 then 65535 else r.windowSize - (r.buf.length + heldBytes r.ooo) := by
  unfold window heldBytes
  simp only
  split
  · rfl
  · split
    · rw [Nat.sub_eq_zero_of_le (by omega)]
      rfl
    · rw [BitVec.toNat_ofNat, Nat.mod_eq_of_lt (by omega)]

theorem mergeStep_held (a : MergeAcc) (e : OooEntry) :
    (mergeStep a e).buf.length + heldBytes (mergeStep a e).remaining ≤
      a.buf.length + heldBytes a.remaining + e.data.length := by
  unfold mergeStep heldBytes
  split
  · simp only [List.length_append, List.length_drop]
    omega
  · split
    · simp only [List.map_append, List.map_cons, List.map_nil, List.sum_append, List.sum_cons, List.sum_nil]
      omega
    · omega

theorem foldl_mergeStep_held (es : List OooEntry) (a : MergeAcc) :
    (es.foldl mergeStep a).buf.length + heldBytes (es.foldl mergeStep a).remaining ≤
      a.buf.length + heldBytes a.remaining + heldBytes es := by
  induction es generalizing a with
  | nil => exact le_rfl
  | cons e es ih =>
    have hstep := mergeStep_held a e
    have hrest := ih (mergeStep a e)
    have hcons : heldBytes (e :: es) = e.data.length + heldBytes es := by simp [heldBytes]
    rw [List.foldl_cons]
    omega

theorem mergeLoop_held (fuel : Nat) (r : RecvBuf) :
    (mergeLoop fuel r).buf.length + heldBytes (mergeLoop fuel r).ooo ≤ r.buf.length + heldBytes r.ooo := by
  induction fuel generalizing r with
  | zero => exact le_rfl
  | succ fuel ih =>
    have hpass : (mergePass r).buf.length + heldBytes (mergePass r).remaining ≤ r.buf.length + heldBytes r.ooo :=
      foldl_mergeStep_held r.ooo { buf := r.buf, nxt := r.nxt }
    unfold mergeLoop
    simp only
    split
    · exact le_trans (ih _) hpass
    · exact hpass

def fitting (r : RecvBuf) (data : List Byte) : List Byte :=
  if 0 < r.windowSize ∧ r.windowSize < data.length then data.take r.windowSize else data

def append (r : RecvBuf) (data : List Byte) : RecvBuf :=
  mergeOOO { r with buf := r.buf ++ r.fitting data, nxt := Serial.place r.nxt (r.fitting data).length }

theorem trimRight_nxt (hw : r.windowSize ≤ 2 ^ 30) (hd : data.length ≤ 65535) :
    (trimRight r r.nxt data (Serial.place r.nxt data.length)).1 = r.append data := by
  have hafter : seqAfter (Serial.place r.nxt data.length) (r.nxt + BitVec.ofNat 32 r.windowSize) =
      decide (r.windowSize < data.length) := by
    have hint : (Serial.place r.nxt data.length - Serial.place r.nxt r.windowSize).toInt =
        (data.length : Int) - r.windowSize := Serial.toInt_place_sub (by omega) (by omega)
    show decide ((Serial.place r.nxt data.length - Serial.place r.nxt r.windowSize).toInt > 0) = _
    rw [hint]
    exact decide_eq_decide.2 (by omega)
  unfold trimRight append fitting
  simp only [hafter, decide_eq_true_eq, gt_iff_lt]
  split
  · rename_i h
    have htrim : Serial.place r.nxt data.length - (r.nxt + BitVec.ofNat 32 r.windowSize) =
        BitVec.ofNat 32 (data.length - r.windowSize) := by
      unfold Serial.place
      bv_omega
    have htake : (BitVec.ofNat 32 data.length - BitVec.ofNat 32 (data.length - r.windowSize)).toNat =
        r.windowSize := by
      bv_omega
    have hno : ¬BitVec.ofNat 32 data.length ≤ BitVec.ofNat 32 (data.length - r.windowSize) := by
      bv_omega
    have hlen : (data.take r.windowSize).length = r.windowSize := by
      rw [List.length_take]
      omega
    rw [htrim, if_neg hno, htake]
    unfold place
    rw [if_pos rfl, hlen]
    rfl
  · unfold place
    rw [if_pos rfl]

theorem insert_of_not_after {seq : BitVec 32} (hseq : seqAfter seq r.nxt = false)
    (hw : r.windowSize ≤ 2 ^ 30) (hd : data.length ≤ 65535) :
    (r.insert seq data).1 =
      if data.length ≤ (r.nxt - seq).toNat then r else r.append (data.drop (r.nxt - seq).toNat) := by
  have hle : BitVec.ofNat 32 data.length ≤ r.nxt - seq ↔ data.length ≤ (r.nxt - seq).toNat := by
    rw [BitVec.le_def, BitVec.toNat_ofNat, Nat.mod_eq_of_lt (by omega)]
  unfold insert
  by_cases hnil : data = []
  · rw [if_pos hnil, if_pos (by rw [hnil]; exact Nat.zero_le _)]
  · rw [if_neg hnil]
    simp only
    by_cases hbefore : seqBefore seq r.nxt = true
    · rw [if_pos hbefore]
      by_cases hdup : data.length ≤ (r.nxt - seq).toNat
      · rw [if_pos (hle.2 hdup), if_pos hdup]
      · rw [if_neg (fun h => hdup (hle.1 h)), if_neg hdup]
        have hend : seq + BitVec.ofNat 32 data.length =
            Serial.place r.nxt (data.drop (r.nxt - seq).toNat).length := by
          have hnxt : Serial.place seq (r.nxt - seq).toNat = r.nxt := Serial.place_toNat_sub seq r.nxt
          calc seq + BitVec.ofNat 32 data.length
              = Serial.place (Serial.place seq (r.nxt - seq).toNat) (data.length - (r.nxt - seq).toNat) := by
                rw [Serial.place_place, Nat.add_sub_of_le (by omega)]
                rfl
            _ = Serial.place r.nxt (data.drop (r.nxt - seq).toNat).length := by rw [hnxt, List.length_drop]
        rw [hend]
        exact trimRight_nxt hw (by rw [List.length_drop]; omega)
    · have heq : seq = r.nxt := by
        simp only [seqAfter, seqBefore, decide_eq_true_eq, decide_eq_false_iff_not] at hseq hbefore
        have hzero : (seq - r.nxt).toInt = 0 := by omega
        have hsub : seq - r.nxt = 0#32 := BitVec.eq_of_toInt_eq (by rw [hzero]; rfl)
        rw [← BitVec.sub_add_cancel seq r.nxt, hsub, BitVec.zero_add]
      subst heq
      rw [if_neg hbefore, BitVec.sub_self, if_neg]
      · exact trimRight_nxt hw hd
      · show ¬data.length ≤ 0
        rw [Nat.le_zero, List.length_eq_zero_iff]
        exact hnil

theorem insert_of_after {seq : BitVec 32} (data : List Byte) (hseq : seqAfter seq r.nxt = true) :
    (r.insert seq data).1.nxt = r.nxt ∧ (r.insert seq data).1.windowSize = r.windowSize := by
  have hne : seq ≠ r.nxt := by
    rintro rfl
    simp [seqAfter] at hseq
  have hplace : ∀ d x, (place r seq d x).1.nxt = r.nxt ∧ (place r seq d x).1.windowSize = r.windowSize := by
    intro d x
    unfold place
    rw [if_neg hne]
    split <;> exact ⟨rfl, rfl⟩
  have hbefore : ¬seqBefore seq r.nxt = true := by
    simp only [seqAfter, seqBefore, decide_eq_true_eq] at hseq ⊢
    omega
  unfold insert
  split
  · exact ⟨rfl, rfl⟩
  · unfold trimRight
    simp only
    split
    · split
      · exact ⟨rfl, rfl⟩
      · exact hplace _ _
    · exact hplace _ _

theorem append_frame (r : RecvBuf) (data : List Byte) :
    ∃ j, j ≤ heldBytes r.ooo ∧ (r.append data).nxt = Serial.place r.nxt ((r.fitting data).length + j) ∧
      (r.append data).windowSize = r.windowSize ∧
      (r.append data).buf.length = r.buf.length + (r.fitting data).length + j ∧
      (r.append data).buf.length + heldBytes (r.append data).ooo ≤
        r.buf.length + (r.fitting data).length + heldBytes r.ooo := by
  let m : RecvBuf :=
    { r with buf := r.buf ++ r.fitting data, nxt := Serial.place r.nxt (r.fitting data).length }
  have hext : Extends m (r.append data) := mergeLoop_extends _ m
  have hheld : (r.append data).buf.length + heldBytes (r.append data).ooo ≤ m.buf.length + heldBytes m.ooo :=
    mergeLoop_held _ m
  obtain ⟨b, hb, hn⟩ := hext.nxt
  have hm : m.buf.length = r.buf.length + (r.fitting data).length := List.length_append
  have hlen : (r.append data).buf.length = m.buf.length + b.length := by rw [hb, List.length_append]
  have hooo : heldBytes m.ooo = heldBytes r.ooo := rfl
  refine ⟨b.length, by omega, ?_, hext.windowSize, by omega, by omega⟩
  rw [hn]
  exact Serial.place_place _ _ _

theorem insert_frame (seq : BitVec 32) (hw : r.windowSize ≤ 2 ^ 30) (hd : data.length ≤ 65535) :
    ∃ a, (r.insert seq data).1.nxt = Serial.place r.nxt a ∧ (r.insert seq data).1.windowSize = r.windowSize ∧
      a ≤ 65535 + heldBytes r.ooo ∧ a ≤ (r.insert seq data).1.buf.length ∧
      (seqAfter seq r.nxt = false →
        (data.length - (r.nxt - seq).toNat ≤ a ∨ (0 < r.windowSize ∧ r.windowSize ≤ a)) ∧
        (r.insert seq data).1.buf.length + heldBytes (r.insert seq data).1.ooo ≤
          r.buf.length + heldBytes r.ooo + (data.length - (r.nxt - seq).toNat)) := by
  by_cases hseq : seqAfter seq r.nxt = true
  · obtain ⟨hnxt, hsize⟩ := insert_of_after data hseq
    refine ⟨0, by rw [hnxt, Serial.place_zero], hsize, Nat.zero_le _, Nat.zero_le _, fun h => ?_⟩
    cases h.symm.trans hseq
  · have hseq' : seqAfter seq r.nxt = false := by simpa using hseq
    rw [insert_of_not_after hseq' hw hd]
    split
    · rename_i hdup
      exact ⟨0, (Serial.place_zero _).symm, rfl, Nat.zero_le _, Nat.zero_le _, fun _ => ⟨by omega, by omega⟩⟩
    · obtain ⟨j, hj, hnxt, hsize, hlen, hheld⟩ := append_frame r (data.drop (r.nxt - seq).toNat)
      have hfit : (r.fitting (data.drop (r.nxt - seq).toNat)).length ≤ data.length - (r.nxt - seq).toNat ∧
          ((r.fitting (data.drop (r.nxt - seq).toNat)).length = data.length - (r.nxt - seq).toNat ∨
            (0 < r.windowSize ∧ (r.fitting (data.drop (r.nxt - seq).toNat)).length = r.windowSize)) := by
        unfold fitting
        split
        · rename_i h
          rw [List.length_drop] at h
          rw [List.length_take, List.length_drop]
          omega
        · rw [List.length_drop]
          omega
      exact ⟨_, hnxt, hsize, by omega, by omega, fun _ => ⟨by omega, by omega⟩⟩

end RecvBuf

/-! ### Right edges -/

/-- The right edge that a segment advertises, for windows in units of `2^k`. -/
def Segment.rightEdge (k : Nat) (seg : Segment) : BitVec 32 := seg.ack + (seg.window.zeroExtend 32) <<< k

/-- The right edge of `q` is not to the left of the one of `p` by a whole unit. -/
def Packet.KeepsEdge (k : Nat) (p q : Packet) : Prop :=
  -(2 ^ k : Int) < (q.seg.rightEdge k - p.seg.rightEdge k).toInt

instance (k : Nat) (p q : Packet) : Decidable (p.KeepsEdge k q) := Int.decLt _ _

/-- The right edges of `ps` keep to the rule, and the last of them is at most `b` beyond `nxt`. -/
structure Trail (k : Nat) (ps : List Packet) (nxt : BitVec 32) (b : Nat) : Prop where
  chain : ps.IsChain (Packet.KeepsEdge k)
  last : ∀ p ∈ ps.getLast?, ∃ w, w ≤ b ∧ p.seg.rightEdge k = Serial.place nxt w

theorem Trail.nil (k : Nat) (nxt : BitVec 32) (b : Nat) : Trail k [] nxt b := ⟨List.IsChain.nil, by simp⟩

theorem Trail.mono {k : Nat} {ps : List Packet} {nxt : BitVec 32} {b b' : Nat} (h : Trail k ps nxt b) (hb : b ≤ b') :
    Trail k ps nxt b' := by
  refine ⟨h.chain, fun p hp => ?_⟩
  obtain ⟨w, hw, he⟩ := h.last p hp
  exact ⟨w, le_trans hw hb, he⟩

theorem Trail.snoc {k : Nat} {ps : List Packet} {nxt : BitVec 32} {b adv w : Nat} {q : Packet} (h : Trail k ps nxt b)
    (hq : q.seg.rightEdge k = Serial.place nxt (adv + w)) (hb : b < adv + w + 2 ^ k) (hb' : b ≤ 2 ^ 30)
    (hw : adv + w < 2 ^ 31) : Trail k (ps ++ [q]) (Serial.place nxt adv) w := by
  refine ⟨List.isChain_append.2 ⟨h.chain, List.IsChain.singleton q, ?_⟩, ?_⟩
  · intro p hp x hx
    have hxq : x = q := by simpa using hx.symm
    obtain ⟨w₀, hw₀, hp⟩ := h.last p hp
    have hint : (Serial.place nxt (adv + w) - Serial.place nxt w₀).toInt = ((adv + w : Nat) : Int) - w₀ :=
      Serial.toInt_place_sub (by omega) (by omega)
    show -(2 ^ k : Int) < (x.seg.rightEdge k - p.seg.rightEdge k).toInt
    rw [hxq, hq, hp, hint]
    have hcast : (b : Int) < (adv + w : Nat) + 2 ^ k := by exact_mod_cast hb
    omega
  · intro p hp
    have hpq : p = q := by simpa using hp.symm
    exact ⟨w, le_rfl, by rw [hpq, hq, Serial.place_place]⟩

namespace Core

/-- How far beyond the next expected number the window may reach. -/
def windowReach (s : Core) : Nat := min s.openSpace (65535 * 2 ^ s.windowShift)

/-- How far it reaches after rounding. -/
def promised (s : Core) : Nat := s.rcvWindow.toNat * 2 ^ s.windowShift

theorem promised_le (s : Core) : s.promised ≤ s.windowReach := by
  unfold promised windowReach
  rw [toNat_rcvWindow]
  refine le_min ?_ (Nat.mul_le_mul_right _ (Nat.min_le_left _ _))
  exact le_trans (Nat.mul_le_mul_right _ (Nat.min_le_right _ _)) (Nat.div_mul_le_self _ _)

theorem windowReach_lt (s : Core) : s.windowReach < s.promised + 2 ^ s.windowShift := by
  have hpos : 0 < 2 ^ s.windowShift := Nat.two_pow_pos _
  unfold promised windowReach
  rw [toNat_rcvWindow]
  by_cases hcap : 65535 ≤ s.openSpace / 2 ^ s.windowShift
  · rw [Nat.min_eq_left hcap]
    omega
  · rw [Nat.min_eq_right (by omega : s.openSpace / 2 ^ s.windowShift ≤ 65535)]
    have hdiv := Nat.div_add_mod s.openSpace (2 ^ s.windowShift)
    have hmod := Nat.mod_lt s.openSpace hpos
    rw [Nat.mul_comm] at hdiv
    omega

variable {s : Core} {k n : Nat}

theorem windowReach_le (hk : s.windowShift ≤ 14) : s.windowReach ≤ 2 ^ 30 := by
  have hpow : 2 ^ s.windowShift ≤ 2 ^ 14 := Nat.pow_le_pow_right (by decide) hk
  calc s.windowReach ≤ 65535 * 2 ^ s.windowShift := Nat.min_le_right _ _
    _ ≤ 65535 * 2 ^ 14 := Nat.mul_le_mul_left _ hpow
    _ ≤ 2 ^ 30 := by decide

theorem rightEdge_eq {seg : Segment} (hk : s.windowShift ≤ 14) (hack : seg.ack = s.recvBuf.nxt)
    (hwin : seg.window = s.rcvWindow) : seg.rightEdge s.windowShift = Serial.place s.recvBuf.nxt s.promised := by
  have hshift := toNat_window_shiftLeft s.rcvWindow hk
  unfold Segment.rightEdge Serial.place
  rw [hack, hwin]
  congr 1
  apply BitVec.eq_of_toNat_eq
  have hlt : s.promised < 2 ^ 32 := by
    have h1 := s.promised_le
    have h2 := windowReach_le hk
    omega
  rw [hshift, BitVec.toNat_ofNat, Nat.mod_eq_of_lt hlt]
  rfl

def settled (st : State) : Bool := !(st == .listen || st == .synSent || st == .synReceived)

theorem settled_afterFIN (acked : Bool) {st : State} (h : settled st = true) : settled (afterFIN acked st) = true := by
  revert h
  cases st <;> cases acked <;> decide

/-- What the window depends on besides the receive buffer. -/
structure SameWindowing (s t : Core) : Prop where
  opened : t.opened = s.opened
  recvBufCap : t.recvBufCap = s.recvBufCap
  mss : t.mss = s.mss
  wscaleOK : t.wscaleOK = s.wscaleOK
  rcvWndShift : t.rcvWndShift = s.rcvWndShift

theorem SameWindowing.swsThresh {s t : Core} (h : SameWindowing s t) : t.swsThresh = s.swsThresh := by
  unfold Core.swsThresh
  rw [h.recvBufCap, h.mss]

theorem SameWindowing.windowShift {s t : Core} (h : SameWindowing s t) : t.windowShift = s.windowShift := by
  unfold Core.windowShift
  rw [h.wscaleOK, h.rcvWndShift]

/-- After the handshake: the ACK-bearing segments since the first `n` keep to the rule, and the last one promised no
more than is free now. -/
structure EdgeInv (k n : Nat) (s : Core) : Prop where
  opened : s.opened = true
  shift : s.windowShift = k
  settled : settled s.state = true
  size : s.recvBuf.windowSize ≤ 2 ^ 30
  length : n ≤ s.emitted.length
  trail : Trail k ((s.emitted.drop n).filter fun p => p.seg.hasFlag flagACK) s.recvBuf.nxt s.windowReach

theorem EdgeInv.congr {s t : Core} (h : EdgeInv k n s) (hw : SameWindowing s t)
    (hr : t.recvBuf = s.recvBuf) (he : t.emitted = s.emitted) (hs : Core.settled t.state = true) : EdgeInv k n t := by
  have hreach : t.windowReach = s.windowReach := by
    unfold windowReach openSpace freeSpace
    rw [hw.swsThresh, hw.windowShift, hw.opened, hw.recvBufCap, hr]
  refine ⟨hw.opened.trans h.opened, hw.windowShift.trans h.shift, hs, by rw [hr]; exact h.size,
    by rw [he]; exact h.length, ?_⟩
  rw [he, hr, hreach]
  exact h.trail

theorem EdgeInv.push (h : EdgeInv k n s) (hk : k ≤ 14) {p : Packet}
    (hack : p.seg.hasFlag flagACK = true → p.seg.ack = s.recvBuf.nxt ∧ p.seg.window = s.rcvWindow) :
    EdgeInv k n { s with emitted := s.emitted ++ [p] } := by
  have hdrop : (s.emitted ++ [p]).drop n = s.emitted.drop n ++ [p] := List.drop_append_of_le_length h.length
  refine { h with length := ?_, trail := ?_ }
  · rw [List.length_append]
    exact Nat.le_add_right_of_le h.length
  · show Trail k (((s.emitted ++ [p]).drop n).filter fun p => p.seg.hasFlag flagACK) s.recvBuf.nxt s.windowReach
    rw [hdrop, List.filter_append]
    by_cases hf : p.seg.hasFlag flagACK = true
    · have hfilter : [p].filter (fun p => p.seg.hasFlag flagACK) = [p] := by simp [hf]
      obtain ⟨h1, h2⟩ := hack hf
      have hks : s.windowShift ≤ 14 := h.shift ▸ hk
      have hedge := rightEdge_eq hks h1 h2
      have hreach := windowReach_le hks
      have hpl := s.promised_le
      have hlt := s.windowReach_lt
      rw [h.shift] at hedge hlt
      rw [hfilter]
      have hedge' : p.seg.rightEdge k = Serial.place s.recvBuf.nxt (0 + s.promised) := by
        rw [Nat.zero_add]
        exact hedge
      have hsnoc := h.trail.snoc hedge' (by omega) hreach (by omega)
      rw [Serial.place_zero] at hsnoc
      exact hsnoc.mono hpl
    · have hfilter : [p].filter (fun p => p.seg.hasFlag flagACK) = [] := by simp [hf]
      rw [hfilter, List.append_nil]
      exact h.trail

theorem EdgeInv.emit (h : EdgeInv k n s) (hk : k ≤ 14) {seg : Segment} (hrep : s.Reports seg)
    (hrst : seg.hasFlag flagACK = true → seg.hasFlag flagRST = false) : EdgeInv k n (s.emit seg) :=
  h.push hk fun hack => ⟨hrep.ack (hrst hack) hack, hrep.window (hrst hack)⟩

theorem windowReach_read (ho : s.opened = true) (hw : s.recvBuf.windowSize ≤ 2 ^ 30) (n : Nat) (bytes : List Byte) :
    s.windowReach ≤ windowReach { s with recvBuf := (s.recvBuf.read n).1, returned := bytes } := by
  have hfree : s.freeSpace ≤ freeSpace { s with recvBuf := (s.recvBuf.read n).1, returned := bytes } := by
    unfold freeSpace
    rw [if_pos ho, if_pos ho, RecvBuf.toNat_window hw, RecvBuf.toNat_window (r := (s.recvBuf.read n).1) hw]
    show _ ≤ if s.recvBuf.windowSize = 0 then 65535
      else s.recvBuf.windowSize - ((s.recvBuf.buf.drop n).length + heldBytes s.recvBuf.ooo)
    rw [List.length_drop]
    split <;> omega
  unfold windowReach
  refine min_le_min_right _ ?_
  unfold openSpace
  have hthresh : swsThresh { s with recvBuf := (s.recvBuf.read n).1, returned := bytes } = s.swsThresh := rfl
  rw [hthresh]
  split <;> split <;> omega

theorem EdgeInv.step {e : Event} {o : Occasion} {s t : Core} (h : EdgeInv k n s) (hk : k ≤ 14)
    (hopen : e.opens = false) (hseg : ∀ now seg, e ≠ .segment now seg) (hst : CoreStep e o s t) : EdgeInv k n t := by
  have hnot : ∀ {st}, s.state = st → Core.settled st = false → False := by
    intro st hs hno
    have := h.settled
    rw [hs, hno] at this
    cases this
  cases hst with
  | connect _ he | acceptSYN _ he | acceptCookie _ _ he | setup _ he => rw [he] at hopen; cases hopen
  | synAckIn he | synIn he | synRcvdAck he | ack he | insert he | finIn he | finDefer he | finDeferred he
  | finAcked he | closingAcked he => exact absurd he (hseg _ _)
  | establish | sack | write => exact { h with }
  | syn hs =>
    rcases hs with hs | hs <;> exact (hnot hs rfl).elim
  | control hc hrep hs =>
    refine h.emit hk hrep fun hack => ?_
    rcases hs with ⟨hrst, hans⟩ | ⟨hrst, -⟩
    · obtain ⟨now, sg, he⟩ := hans hack
      exact absurd he (hseg now sg)
    · exact hrst
  | chunk hs hp hd hrep =>
    have hemit := h.emit hk hrep fun _ => hd.rst
    exact { hemit with }
  | rexmit hs _ _ hd hrep => exact h.emit hk hrep fun _ => hd.rst
  | @fin now seg st he hc hs ho hd hrep =>
    have hemit := h.emit hk hrep fun _ => hd.rst
    refine { hemit with settled := ?_ }
    rcases hs with ⟨-, rfl⟩ | ⟨-, rfl⟩ | ⟨-, rfl⟩ <;> rfl
  | refin he hc hs ho hd hrep =>
    have hemit := h.emit hk hrep fun _ => hd.rst
    exact { hemit with }
  | @read now m he ho =>
    exact { h with trail := h.trail.mono (windowReach_read ho h.size m _) }
  | shut => exact { h with settled := rfl }

end Core

set_option linter.unusedSectionVars false

variable {σ : Type} [CongestionController σ]

open CongestionController

/-! ### What a segment makes a connection announce -/

namespace Conn

/-- What the windows of a connection depend on besides its receive buffer. -/
structure SameWindowing (c d : Conn σ) : Prop where
  opened : d.opened = c.opened
  recvBufCap : d.recvBufCap = c.recvBufCap
  mss : d.mss = c.mss
  wscaleOK : d.wscaleOK = c.wscaleOK
  rcvWndShift : d.rcvWndShift = c.rcvWndShift

/-- Between `c` and `d` the receive buffer stays as it is, and the ACK-bearing segments queued report it. -/
structure Announces (c d : Conn σ) : Prop where
  windowing : SameWindowing c d
  recvBuf : d.recvBuf = c.recvBuf
  queued : ∃ out, d.outgoing = c.outgoing ++ out ∧
    ∀ p ∈ out, p.seg.hasFlag flagACK = true → p.seg.ack = c.recvBuf.nxt ∧ p.seg.window = c.rcvWindow

variable (now : Int) (seg : Segment) (c : Conn σ)

theorem SameWindowing.refl : SameWindowing c c := ⟨rfl, rfl, rfl, rfl, rfl⟩

theorem SameWindowing.trans {c d f : Conn σ} (h₁ : SameWindowing c d) (h₂ : SameWindowing d f) : SameWindowing c f :=
  ⟨h₂.opened.trans h₁.opened, h₂.recvBufCap.trans h₁.recvBufCap, h₂.mss.trans h₁.mss,
    h₂.wscaleOK.trans h₁.wscaleOK, h₂.rcvWndShift.trans h₁.rcvWndShift⟩

theorem rcvWindow_congr {c d : Conn σ} (h : SameWindowing c d) (hr : d.recvBuf = c.recvBuf) :
    d.rcvWindow = c.rcvWindow := by
  unfold rcvWindow recvBufSize
  rw [h.opened, h.recvBufCap, h.mss, h.wscaleOK, h.rcvWndShift, hr]

theorem Announces.of_eq {c d : Conn σ} (hw : SameWindowing c d) (hr : d.recvBuf = c.recvBuf)
    (ho : d.outgoing = c.outgoing) : Announces c d :=
  ⟨hw, hr, [], by rw [ho, List.append_nil], by simp⟩

theorem Announces.trans {c d f : Conn σ} (h₁ : Announces c d) (h₂ : Announces d f) : Announces c f := by
  obtain ⟨o₁, ho₁, hq₁⟩ := h₁.queued
  obtain ⟨o₂, ho₂, hq₂⟩ := h₂.queued
  refine ⟨h₁.windowing.trans h₂.windowing, h₂.recvBuf.trans h₁.recvBuf, o₁ ++ o₂, ?_, ?_⟩
  · rw [ho₂, ho₁, List.append_assoc]
  · intro p hp
    rcases List.mem_append.1 hp with hp | hp
    · exact hq₁ p hp
    · rw [← h₁.recvBuf, ← rcvWindow_congr h₁.windowing h₁.recvBuf]
      exact hq₂ p hp

theorem Announces.source {b c d : Conn σ} (h : Announces c d) (hw : SameWindowing b c) (hr : c.recvBuf = b.recvBuf)
    (ho : c.outgoing = b.outgoing) : Announces b d :=
  (Announces.of_eq hw hr ho).trans h

theorem Announces.broadcastSend {c d : Conn σ} (h : Announces c d) : Announces c d.broadcastSend :=
  h.trans (.of_eq ⟨rfl, rfl, rfl, rfl, rfl⟩ rfl rfl)

theorem announces_queueSeg (now : Int) (seq : BitVec 32) (flags : BitVec 8) (data : List Byte) :
    Announces c (c.queueSeg (c.ackSegment now seq flags data)) := by
  refine ⟨⟨rfl, rfl, rfl, rfl, rfl⟩, rfl, [_], rfl, ?_⟩
  intro p hp _
  rw [List.mem_singleton] at hp
  rw [hp]
  exact ⟨rfl, rfl⟩

theorem announces_flushLoop (fuel : Nat) (c : Conn σ) : Announces c (flushLoop now fuel c) := by
  induction fuel generalizing c with
  | zero => exact .of_eq (.refl c) rfl rfl
  | succ fuel ih =>
    unfold flushLoop
    split
    · exact .of_eq (.refl c) rfl rfl
    · rename_i n hn
      have hq := announces_queueSeg c now c.sendBuf.nxt (flagACK ||| flagPSH) (c.sendBuf.peekUnsent n)
      refine (hq.trans ?_).trans (ih _)
      unfold sendChunk
      simp only
      split <;> exact .of_eq ⟨rfl, rfl, rfl, rfl, rfl⟩ rfl rfl

theorem announces_flushSendQueue : Announces c (flushSendQueue now c) := by
  refine (announces_flushLoop now c.sendBuf.pending.toNat c).trans ?_
  unfold flushSendQueue armPersist
  split
  · exact .of_eq ⟨rfl, rfl, rfl, rfl, rfl⟩ rfl rfl
  · exact .of_eq (.refl _) rfl rfl

theorem announces_retransmit : Announces c (retransmit now c) := by
  unfold retransmit
  split
  · exact .of_eq ⟨rfl, rfl, rfl, rfl, rfl⟩ rfl rfl
  · split
    · exact .of_eq (.refl c) rfl rfl
    · exact (announces_queueSeg c now _ _ _).trans (.of_eq ⟨rfl, rfl, rfl, rfl, rfl⟩ rfl rfl)

theorem announces_updateSACK (opts : List TcpOption) (c : Conn σ) : Announces c (updateSACK opts c) := by
  rw [updateSACK_frame]
  exact .of_eq ⟨rfl, rfl, rfl, rfl, rfl⟩ rfl rfl

theorem announces_processSegACK : Announces c (processSegACK now seg c) := by
  have hcore : Announces c (processACK now seg.ack seg.options c) := by
    unfold processACK
    split
    · unfold processDupACK
      simp only
      refine Announces.trans ?_ (announces_updateSACK _ _)
      split
      · exact (announces_retransmit now _).source ⟨rfl, rfl, rfl, rfl, rfl⟩ rfl rfl
      · exact .of_eq ⟨rfl, rfl, rfl, rfl, rfl⟩ rfl rfl
    · split
      · exact announces_queueSeg c now _ _ _
      · have hrearm : Announces c (rearm now seg.ack (updateSACK seg.options (c.applyACK seg.ack))) := by
          rw [newACK_frame]
          exact .of_eq ⟨rfl, rfl, rfl, rfl, rfl⟩ rfl rfl
        unfold processNewACK
        exact (hrearm.trans (announces_flushSendQueue now _)).broadcastSend
  unfold processSegACK
  split
  · generalize processACK now seg.ack seg.options c = d at hcore
    exact hcore.trans (.of_eq ⟨rfl, rfl, rfl, rfl, rfl⟩ rfl rfl)
  · exact .of_eq (.refl c) rfl rfl

theorem announces_queueACK : Announces c (queueACK now c) := announces_queueSeg c now _ _ _

def FinsConsumed (r r' : RecvBuf) : Prop :=
  ∃ f, f ≤ 2 ∧ r'.nxt = Serial.place r.nxt f ∧ r'.buf = r.buf ∧ r'.ooo = r.ooo ∧ r'.windowSize = r.windowSize

def bufAfter (seg : Segment) (c : Conn σ) : RecvBuf :=
  if seg.payload ≠ [] then (c.recvBuf.insert seg.seq seg.payload).1 else c.recvBuf

theorem recvBuf_processData :
    ∃ f, f ≤ 1 ∧ (processData seg c).recvBuf.nxt = Serial.place (c.recvBuf.insert seg.seq seg.payload).1.nxt f ∧
      (processData seg c).recvBuf.buf = (c.recvBuf.insert seg.seq seg.payload).1.buf ∧
      (processData seg c).recvBuf.ooo = (c.recvBuf.insert seg.seq seg.payload).1.ooo ∧
      (processData seg c).recvBuf.windowSize = (c.recvBuf.insert seg.seq seg.payload).1.windowSize := by
  unfold processData
  simp only
  generalize (c.recvBuf.insert seg.seq seg.payload).1 = r
  by_cases hf : (c.finPending && decide (c.pendingFinSeq = r.nxt)) = true
  · rw [if_pos hf, if_pos hf, recvBuf_processFINStateTransition]
    refine ⟨1, le_rfl, ?_⟩
    split <;> exact ⟨rfl, rfl, rfl, rfl⟩
  · rw [if_neg hf, if_neg hf]
    refine ⟨0, Nat.zero_le _, ?_⟩
    split <;> exact ⟨(Serial.place_zero _).symm, rfl, rfl, rfl⟩

theorem finsConsumed_dataAndFIN : FinsConsumed (c.bufAfter seg) (dataAndFIN seg c).recvBuf := by
  have hdata : ∀ d, d = (if seg.payload ≠ [] then processData seg c else c) →
      ∃ f, f ≤ 1 ∧ d.recvBuf.nxt = Serial.place (c.bufAfter seg).nxt f ∧ d.recvBuf.buf = (c.bufAfter seg).buf ∧
        d.recvBuf.ooo = (c.bufAfter seg).ooo ∧ d.recvBuf.windowSize = (c.bufAfter seg).windowSize := by
    intro d hd
    unfold bufAfter
    split at hd
    · rename_i hp
      rw [hd, if_pos hp]
      exact recvBuf_processData seg c
    · rename_i hp
      rw [hd, if_neg hp]
      exact ⟨0, Nat.zero_le _, (Serial.place_zero _).symm, rfl, rfl, rfl⟩
  unfold dataAndFIN
  simp only
  generalize hd : (if seg.payload ≠ [] then processData seg c else c) = d
  obtain ⟨f, hf, hnxt, hbuf, hooo, hsize⟩ := hdata d hd.symm
  have hsame : FinsConsumed (c.bufAfter seg) d.recvBuf := ⟨f, by omega, hnxt, hbuf, hooo, hsize⟩
  split
  · unfold processFIN
    simp only
    split
    · rw [recvBuf_processFINStateTransition]
      refine ⟨f + 1, by omega, ?_, hbuf, hooo, hsize⟩
      rw [← Serial.place_place, ← hnxt]
      rfl
    · exact hsame
  · split <;> exact hsame

theorem handleDataState_announces {c : Conn σ} (hp : c.pawsOK seg.options = true) :
    Announces c (handleDataState now seg c) ∨
      ∃ d, Announces c d ∧ handleDataState now seg c = queueACK now (dataAndFIN seg d) := by
  obtain ⟨ts, hts⟩ := recordTimestamp_eq seg.options c
  have hd : Announces c (processSegACK now seg (c.recordTimestamp seg.options)) := by
    rw [hts]
    exact (announces_processSegACK now seg _).source ⟨rfl, rfl, rfl, rfl, rfl⟩ rfl rfl
  rw [handleDataState_eq now hp]
  generalize processSegACK now seg (c.recordTimestamp seg.options) = d at hd
  split
  · exact .inr ⟨d, hd, rfl⟩
  · rename_i hno
    left
    have hpay : seg.payload = [] := by
      by_contra h
      exact hno (.inl h)
    have hfin : ¬seg.hasFlag flagFIN = true := fun h => hno (.inr h)
    unfold dataAndFIN
    simp only [hpay, ne_eq, not_true_eq_false, if_false]
    rw [if_neg hfin]
    split
    · exact hd.trans (.of_eq ⟨rfl, rfl, rfl, rfl, rfl⟩ rfl rfl)
    · exact hd

theorem Handled.announces {now : Int} {seg : Segment} {c d : Conn σ} (h : Handled now seg c d)
    (hset : Core.settled c.state = true) (hne : c.state ≠ .closed) :
    Announces c d ∨ (Core.awaitsFIN c.state = true ∧ c.takesACK seg = true ∧
      ∃ d', Announces c d' ∧ d = queueACK now (dataAndFIN seg d')) := by
  have hearly : ¬(c.state = .synSent ∨ c.state = .synReceived) := by
    rintro (hst | hst) <;> rw [hst] at hset <;> cases hset
  cases h with
  | ignored => exact .inl (.of_eq (.refl c) rfl rfl)
  | answered => exact .inl (announces_queueACK now c)
  | refused _ hst => exact absurd (hst.resolve_left hne) hearly
  | closing | timeWait =>
    refine .inl (Announces.trans ?_ (announces_queueACK now _))
    exact .of_eq ⟨rfl, rfl, rfl, rfl, rfl⟩ rfl rfl
  | lastAck => exact .inl (.of_eq ⟨rfl, rfl, rfl, rfl, rfl⟩ rfl rfl)
  | reset =>
    rw [resetTeardown_frame]
    exact .inl (.of_eq ⟨rfl, rfl, rfl, rfl, rfl⟩ rfl rfl)
  | refusedOpen _ hst | synAck hst | syn hst => exact absurd (.inl hst) hearly
  | passive hst => exact absurd (.inr hst) hearly
  | data hst _ ht hpaws =>
    refine (handleDataState_announces now seg hpaws).imp_right fun hd => ⟨?_, ht, hd⟩
    rcases hst with hst | hst | hst <;> rw [hst] <;> rfl
  | closeWait => exact .inl (announces_processSegACK now seg c)

theorem handleSegment_announces {c : Conn σ} (hset : Core.settled c.state = true)
    (hne : c.state ≠ .closed) :
    Announces c (c.handleSegment now seg) ∨
      (Core.awaitsFIN c.state = true ∧ c.takesACK seg = true ∧
        ∃ d, Announces c d ∧ c.handleSegment now seg = queueACK now (dataAndFIN seg d)) := by
  have htouch : Announces c (c.touch now) := .of_eq ⟨rfl, rfl, rfl, rfl, rfl⟩ rfl rfl
  refine ((handled now seg c).announces hset hne).imp htouch.trans ?_
  rintro ⟨haw, ht, d, hd, heq⟩
  exact ⟨haw, ht, d, htouch.trans hd, heq⟩

end Conn

namespace Core

/-- The payload can be taken in without a step of the right edge to the left: the window is closed, or the payload is
in order and leaves space for the rest of the window, or takes all of it. -/
def RoomFor (seg : Segment) (s : Core) : Prop :=
  let n := seg.payload.length - (s.recvBuf.nxt - seg.seq).toNat
  seg.payload.length ≤ 65535 ∧ heldBytes s.recvBuf.ooo ≤ 2 ^ 30 ∧
    (s.freeSpace < s.swsThresh ∨
      seqAfter seg.seq s.recvBuf.nxt = false ∧
        (s.swsThresh + n ≤ s.freeSpace ∨ s.freeSpace < n + 2 ^ s.windowShift))

instance (seg : Segment) (s : Core) : Decidable (s.RoomFor seg) := by
  unfold RoomFor
  infer_instance

theorem freeSpace_eq {s : Core} (ho : s.opened = true) (hw : s.recvBuf.windowSize ≤ 2 ^ 30) :
    s.freeSpace =
      if s.recvBuf.windowSize = 0 then 65535
      else s.recvBuf.windowSize - (s.recvBuf.buf.length + heldBytes s.recvBuf.ooo) := by
  rw [freeSpace, if_pos ho, RecvBuf.toNat_window hw]

theorem edge_advances {s t : Core} {seg : Segment} (ho : s.opened = true) (ho' : t.opened = true)
    (hthresh : t.swsThresh = s.swsThresh) (hshift : t.windowShift = s.windowShift) (hk : s.windowShift ≤ 14)
    (hw : s.recvBuf.windowSize ≤ 2 ^ 30) (hroom : seg.payload ≠ [] → s.RoomFor seg)
    (hbuf : Conn.FinsConsumed
      (if seg.payload ≠ [] then (s.recvBuf.insert seg.seq seg.payload).1 else s.recvBuf) t.recvBuf) :
    ∃ adv, t.recvBuf.nxt = Serial.place s.recvBuf.nxt adv ∧ s.windowReach < adv + t.promised + 2 ^ s.windowShift ∧
      adv + t.promised < 2 ^ 31 := by
  obtain ⟨f, hf, hnxt, hb, hooo, hsize⟩ := hbuf
  have hle := t.promised_le
  have hlt := t.windowReach_lt
  have hreach := windowReach_le (s := t) (by rw [hshift]; exact hk)
  rw [hshift] at hlt
  by_cases hp : seg.payload = []
  · rw [if_neg (by simpa using hp)] at hnxt hb hooo hsize
    have hfree : t.freeSpace = s.freeSpace := by
      rw [freeSpace_eq ho hw, freeSpace_eq ho' (by rw [hsize]; exact hw), hb, hooo, hsize]
    have hsame : t.windowReach = s.windowReach := by
      unfold windowReach openSpace
      rw [hfree, hthresh, hshift]
    exact ⟨f, hnxt, by omega, by omega⟩
  · obtain ⟨hlen, hheld, hcases⟩ := hroom hp
    rw [if_pos hp] at hnxt hb hooo hsize
    obtain ⟨a, hins, hsize', hmax, hfill, horder⟩ := RecvBuf.insert_frame (r := s.recvBuf) seg.seq hw hlen
    rw [hins, Serial.place_place] at hnxt
    rw [hsize'] at hsize
    rw [← hb] at hfill horder
    rw [← hooo] at horder
    have hfree := freeSpace_eq ho hw
    have hfree' := freeSpace_eq ho' (by rw [hsize]; exact hw)
    rw [hsize] at hfree'
    have hopen' := t.openSpace_le
    have hreach' : t.windowReach ≤ t.openSpace := Nat.min_le_left _ _
    have htotal : a + t.promised ≤ 2 ^ 30 + 65535 + 65535 := by
      split at hfree' <;> omega
    refine ⟨a + f, hnxt, ?_, by omega⟩
    rcases hcases with hclosed | ⟨horder', hcases⟩
    · -- the window was closed
      have hzero : s.windowReach = 0 := by
        unfold windowReach openSpace
        rw [if_pos hclosed, Nat.zero_min]
      have := Nat.two_pow_pos s.windowShift
      omega
    · obtain ⟨hcount, hused⟩ := horder horder'
      have hsreach : s.windowReach ≤ s.freeSpace := le_trans (Nat.min_le_left _ _) s.openSpace_le
      rcases hcases with hopen | hfull
      · -- the window stays open
        have hmore : s.freeSpace - (seg.payload.length - (s.recvBuf.nxt - seg.seq).toNat) ≤ t.freeSpace := by
          split at hfree <;> split at hfree' <;> omega
        have hstay : t.openSpace = t.freeSpace := if_neg (by rw [hthresh]; omega)
        have hmin : s.windowReach ≤ (seg.payload.length - (s.recvBuf.nxt - seg.seq).toNat) + t.windowReach := by
          have hs : s.windowReach ≤ 65535 * 2 ^ s.windowShift := Nat.min_le_right _ _
          unfold windowReach at hs hsreach ⊢
          rw [hstay, hshift]
          omega
        have hadv : seg.payload.length - (s.recvBuf.nxt - seg.seq).toNat ≤ a := by
          split at hfree <;> omega
        omega
      · -- the window is filled
        have hadv : s.freeSpace < a + 2 ^ s.windowShift := by
          split at hfree <;> omega
        omega

end Core

/-! ### Runs -/

theorem CoreStep.rcvWndShift {e : Event} {o : Occasion} {s t : Core} (h : CoreStep e o s t) :
    t.rcvWndShift = s.rcvWndShift := by
  cases h with
  | finIn | finDeferred =>
    unfold Core.consumeFIN
    simp only
    split <;> rfl
  | _ => rfl

theorem CoreStep.settled {e : Event} {o : Occasion} {s t : Core} (h : CoreStep e o s t) (hopen : e.opens = false)
    (hs : Core.settled s.state = true) : Core.settled t.state = true := by
  have hnot : ∀ {st}, s.state = st → Core.settled st = false → False := by
    intro st hst hno
    rw [hst, hno] at hs
    cases hs
  cases h with
  | connect _ he | acceptSYN _ he | acceptCookie _ _ he | setup _ he => rw [he] at hopen; cases hopen
  | synAckIn _ hst | synIn _ hst | synRcvdAck _ hst => exact (hnot hst rfl).elim
  | fin _ _ hst => rcases hst with ⟨-, rfl⟩ | ⟨-, rfl⟩ | ⟨-, rfl⟩ <;> rfl
  | finIn | finDeferred =>
    unfold Core.consumeFIN
    simp only
    split
    · exact Core.settled_afterFIN _ hs
    · exact hs
  | finAcked | closingAcked | shut => rfl
  | _ => exact hs

namespace Host

/-- The right edge does not move to the left: no opening call, no segment in CLOSED, and room for every payload that
is taken in. -/
def KeepsWindow (h : Host σ) (e : Event) : Prop :=
  e.opens = false ∧
    match e with
    | .segment _ seg =>
      h.conn.state ≠ .closed ∧
        (Core.awaitsFIN h.conn.state = true → h.conn.takesACK seg = true → seg.payload ≠ [] → h.core.RoomFor seg)
    | _ => True

instance (h : Host σ) (e : Event) : Decidable (h.KeepsWindow e) :=
  match e with
  | .segment _ _ => inferInstanceAs (Decidable (_ ∧ _ ∧ (_ → _ → _ → _)))
  | .connect _ _ | .acceptSYN _ _ _ | .acceptCookie _ _ _ _ | .setupForHandshake _ | .rto _ | .persist _
  | .keepalive _ | .timeWait | .write _ _ | .resume _ _ | .read _ _ | .close _ | .abort | .setDeadline _
  | .setReadDeadline _ | .setWriteDeadline _ | .broadcastSend =>
    inferInstanceAs (Decidable (_ ∧ True))

theorem edgeInv_push_all {k n : Nat} (hk : k ≤ 14) (out : List Packet) {s : Core} (h : s.EdgeInv k n)
    (hout : ∀ p ∈ out, p.seg.hasFlag flagACK = true → p.seg.ack = s.recvBuf.nxt ∧ p.seg.window = s.rcvWindow) :
    Core.EdgeInv k n { s with emitted := s.emitted ++ out } := by
  induction out generalizing s with
  | nil =>
    rw [List.append_nil]
    exact h
  | cons p out ih =>
    have hpush := h.push hk (hout p (List.mem_cons_self ..))
    have hrest := ih hpush fun q hq => hout q (List.mem_cons_of_mem p hq)
    rw [List.append_cons]
    exact hrest

theorem edge_segment {k n : Nat} (hk : k ≤ 14) {h h' : Host σ} {now : Int} {seg : Segment}
    (hout : h.conn.outgoing = []) (hinv : h.core.EdgeInv k n) (hP : h.KeepsWindow (.segment now seg))
    (hn : h.next (.segment now seg) = some h') : h'.core.EdgeInv k n := by
  obtain ⟨hopen, hne, hroom⟩ := hP
  have hset : Core.settled h'.core.state = true := by
    refine (next_core hn).induction (I := fun s => Core.settled s.state = true) hinv.settled ?_
    intro s t hs hst
    exact hst.settled hopen hs
  have hconn := conn_segment hn
  have hsent : h'.sent = h.sent ++ (h.conn.handleSegment now seg).outgoing := by
    rw [← Option.some.inj (apply_of_next hn).1]
    rfl
  have hemitted : h'.core.emitted = h.core.emitted ++ (h.conn.handleSegment now seg).outgoing := by
    show h'.sent ++ h'.conn.outgoing = (h.sent ++ h.conn.outgoing) ++ _
    rw [hsent, hconn, hout, List.append_nil, List.append_nil]
  have hcore : ∀ c : Conn σ, c = h.conn.handleSegment now seg → Conn.SameWindowing h.conn c →
      h.core.SameWindowing h'.core ∧ h'.core.recvBuf = c.recvBuf := by
    rintro c rfl hw
    have h1 : h'.core = h'.coreWith { h.conn.handleSegment now seg with outgoing := [] } := by rw [core, hconn]
    rw [h1]
    exact ⟨{ hw with }, rfl⟩
  rcases Conn.handleSegment_announces now seg hinv.settled hne with hann | ⟨haw, htake, d, hd, heq⟩
  · obtain ⟨out, hq, hrep⟩ := hann.queued
    rw [hout, List.nil_append] at hq
    rw [hq] at hemitted
    obtain ⟨hw, hbuf⟩ := hcore _ rfl hann.windowing
    exact (edgeInv_push_all hk out hinv hrep).congr { hw with }
      (hbuf.trans hann.recvBuf) hemitted hset
  · obtain ⟨out, hq, hrep⟩ := hd.queued
    rw [hout, List.nil_append] at hq
    have hfins := Conn.finsConsumed_dataAndFIN seg d
    have hwx : Conn.SameWindowing d (Conn.dataAndFIN seg d) := by
      rw [(Conn.taken_dataAndFIN seg d).frame]
      exact ⟨rfl, rfl, rfl, rfl, rfl⟩
    have hsame := (Conn.sameSending_dataAndFIN seg d).outgoing
    generalize Conn.dataAndFIN seg d = x at heq hwx hfins hsame
    obtain ⟨hw, hbuf⟩ := hcore (Conn.queueACK now x) heq.symm
      ((hd.windowing.trans hwx).trans (Conn.announces_queueACK now x).windowing)
    have hbuf' : h'.core.recvBuf = x.recvBuf := hbuf
    -- the ACK at the end
    obtain ⟨q, hqdef⟩ : ∃ q : Packet, q = ⟨x.ackSegment now x.sendBuf.nxt flagACK [], x.sendBuf.pos x.sendBuf.nxt,
      x.freeSpace⟩ := ⟨_, rfl⟩
    have hqack : q.seg.hasFlag flagACK = true := by
      rw [hqdef]
      show (flagACK &&& flagACK != 0) = true
      decide
    have hq' : h'.core.emitted = (h.core.emitted ++ out) ++ [q] := by
      rw [hemitted, heq, List.append_assoc, hqdef]
      show h.core.emitted ++ (x.outgoing ++ [_]) = _
      rw [hsame, hq]
      rfl
    have hks : h'.core.windowShift ≤ 14 := by rw [hw.windowShift, hinv.shift]; exact hk
    have hwin : q.seg.window = h'.core.rcvWindow := by
      rw [core, hconn, heq, hqdef]
      rfl
    have hack : q.seg.ack = h'.core.recvBuf.nxt := by
      rw [hbuf', hqdef]
      rfl
    have hbufAfter : Conn.FinsConsumed (if seg.payload ≠ [] then (h.core.recvBuf.insert seg.seq seg.payload).1
        else h.core.recvBuf) h'.core.recvBuf := by
      rw [hbuf']
      have hrecv : d.recvBuf = h.core.recvBuf := hd.recvBuf
      rw [← hrecv]
      exact hfins
    obtain ⟨adv, hnxt, hreach, hbound⟩ := Core.edge_advances hinv.opened (hw.opened.trans hinv.opened) hw.swsThresh
      hw.windowShift (hinv.shift ▸ hk) hinv.size (hroom haw htake) hbufAfter
    have hedge := Core.rightEdge_eq hks hack hwin
    rw [hw.windowShift, hinv.shift, hnxt, Serial.place_place] at hedge
    have hpush := edgeInv_push_all hk out hinv hrep
    have hsnoc := hpush.trail.snoc hedge (by rw [← hinv.shift]; exact hreach)
      (Core.windowReach_le (hinv.shift ▸ hk)) hbound
    have hsize : h'.core.recvBuf.windowSize ≤ 2 ^ 30 := by
      obtain ⟨-, -, -, -, -, hsame⟩ := hbufAfter
      rw [hsame]
      split
      · rw [(RecvBuf.insert_extends _ _ _).windowSize]
        exact hinv.size
      · exact hinv.size
    refine ⟨hw.opened.trans hinv.opened, hw.windowShift.trans hinv.shift, hset, hsize, ?_, ?_⟩
    · rw [hq', List.length_append]
      exact Nat.le_add_right_of_le hpush.length
    · have hfilter : [q].filter (fun p => p.seg.hasFlag flagACK) = [q] := by simp [hqack]
      rw [hq', List.drop_append_of_le_length hpush.length, List.filter_append, hfilter, hnxt]
      exact hsnoc.mono (Core.promised_le _)

theorem edge_next {k n : Nat} (hk : k ≤ 14) {h h' : Host σ} {e : Event} (hout : h.conn.outgoing = [])
    (hinv : h.core.EdgeInv k n) (hP : h.KeepsWindow e) (hn : h.next e = some h') : h'.core.EdgeInv k n := by
  by_cases hseg : ∃ now seg, e = .segment now seg
  · obtain ⟨now, seg, rfl⟩ := hseg
    exact edge_segment hk hout hinv hP hn
  · have hno : ∀ now seg, e ≠ .segment now seg := fun now seg he => hseg ⟨now, seg, he⟩
    refine (next_core hn).induction (I := fun s => s.EdgeInv k n) ?_ ?_
    · cases e <;> exact { hinv with }
    · intro s t hs hst
      exact hs.step hk hP.1 hno hst

theorem rcvWndShift_le {P : Host σ → Event → Prop} {h : Host σ} (hr : (system σ).Reach P h) :
    h.core.rcvWndShift ≤ 14 := by
  refine hr.invariant (I := fun h => h.core.rcvWndShift ≤ 14) ?_ ?_
  · rintro _ ⟨cfg, now, rfl⟩
    exact cfg.wndShift_le
  · intro h e h' _ ih _ hn
    refine (next_core hn).induction (I := fun s => s.rcvWndShift ≤ 14) ?_ ?_
    · cases e <;> exact ih
    · intro s t hs hst
      rw [hst.rcvWndShift]
      exact hs

/-- In every run after the handshake in which the window is kept, the right edge of the ACK-bearing segments never moves
to the left by a unit of the scaling. -/
theorem right_edge_kept {P : Host σ → Event → Prop} {h₀ h : Host σ} (hr : (system σ).Reach P h₀)
    (hest : h₀.conn.state = .established) (hsize : h₀.conn.recvBuf.windowSize ≤ 2 ^ 30)
    (hrun : (system σ).Steps KeepsWindow h₀ h) :
    ((h.sent.drop h₀.sent.length).filter fun p => p.seg.hasFlag flagACK).IsChain
      (Packet.KeepsEdge h₀.core.windowShift) := by
  have hk : h₀.core.windowShift ≤ 14 := by
    unfold Core.windowShift
    split
    · exact rcvWndShift_le hr
    · exact Nat.zero_le _
  have hstart : h₀.core.EdgeInv h₀.core.windowShift h₀.sent.length := by
    have hemitted := emitted_core hr
    refine ⟨?_, rfl, ?_, hsize, ?_, ?_⟩
    · exact opened_of_synchronized hr (by rw [hest]; rfl)
    · show Core.settled h₀.conn.state = true
      rw [hest]
      rfl
    · rw [hemitted]
    · rw [hemitted, List.drop_length]
      exact .nil _ _ _
  have key := hrun.induction
    (I := fun h => h.conn.outgoing = [] ∧ h.core.EdgeInv h₀.core.windowShift h₀.sent.length)
    ⟨outgoing_eq_nil hr, hstart⟩ ?_
  · have hemitted : h.core.emitted = h.sent := by
      show h.sent ++ h.conn.outgoing = h.sent
      rw [key.1, List.append_nil]
    rw [← hemitted]
    exact key.2.trail.chain
  · rintro g e g' ⟨hout, hinv⟩ hP hn
    exact ⟨outgoing_next hn hout, edge_next hk hout hinv hP hn⟩

def smallReceiver : Host SmallController := (fresh { recvBufSize := 10000 } 0).run opening

/-- Data for `smallReceiver`: `n` bytes from number `seq` on. -/
def dataFrom (seq : BitVec 32) (n : Nat) : Event :=
  .segment 1 { srcPort := 0, dstPort := 0, seq := seq, ack := 101, flags := flagACK, window := 1000
               payload := List.replicate n 7 }

theorem right_edge_kept_inOrder :
    let h := smallReceiver.run [dataFrom 701 100, .read 2 50, dataFrom 751 100]
    ((h.sent.drop smallReceiver.sent.length).filter fun p => p.seg.hasFlag flagACK).length = 2 ∧
      ((h.sent.drop smallReceiver.sent.length).filter fun p => p.seg.hasFlag flagACK).IsChain
        (Packet.KeepsEdge smallReceiver.core.windowShift) := by
  have hr : (system SmallController).Reach anyStep smallReceiver :=
    run_reach (by decide +kernel) (execMeets_anyStep _ _ _)
  have hrun : (system SmallController).Steps KeepsWindow smallReceiver
      (smallReceiver.run [dataFrom 701 100, .read 2 50, dataFrom 751 100]) :=
    run_steps (by decide +kernel) (by decide +kernel)
  exact ⟨by decide +kernel, right_edge_kept hr (by decide +kernel) (by decide +kernel) hrun⟩

/-- Data that arrives out of order makes the right edge move left. -/
theorem right_edge_moves_left :
    let h := smallReceiver.run [dataFrom 701 100, dataFrom 901 100]
    smallReceiver.conn.state = .established ∧
      ¬((h.sent.drop smallReceiver.sent.length).filter fun p => p.seg.hasFlag flagACK).IsChain
        (Packet.KeepsEdge smallReceiver.core.windowShift) := by
  decide +kernel

end Host

end Libp2px.Vtcp
