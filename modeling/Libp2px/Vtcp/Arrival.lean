import Libp2px.Vtcp.Lifecycle
import Libp2px.Vtcp.Placement
import Libp2px.Vtcp.Reassembly

/-!
# A stream and its FIN in any order of arrival

The peer of an ESTABLISHED connection has a stream and a FIN after it, and its segments arrive cut, repeated and ordered
in any way.  The receive buffer tracks the positions that have arrived, a FIN that comes early waits for its turn, and the
connection leaves ESTABLISHED for CLOSE-WAIT when the whole stream and the FIN have arrived, whichever of the three paths
of the code consumes the FIN: in order, released by the segment that fills the last gap, or repeated after it was
deferred.
-/

namespace Libp2px.Vtcp

open Transition Intervals

/-- What a segment of the stream carries: an interval of positions, and the FIN or not. -/
structure Piece where
  span : Span Nat
  fin : Bool

/-- The position after the piece; the FIN has the one after the last byte. -/
def Piece.stop (x : Piece) : Nat := x.span.hi + if x.fin then 1 else 0

/-- A correct segment of the stream `f` that begins at the number `base`: it carries the piece `x` and an ACK, and no
SYN, RST or timestamps. -/
structure Segment.Carries (base : BitVec 32) (f : List Byte) (x : Piece) (seg : Segment) : Prop where
  seq : seg.seq = Serial.place base x.span.lo
  le : x.span.lo ≤ x.span.hi
  stream : x.span.hi ≤ f.length
  payload : seg.payload = stretch f x.span
  fin : seg.hasFlag flagFIN = x.fin
  last : x.fin = true → x.span.hi = f.length
  ack : seg.hasFlag flagACK = true
  syn : seg.hasFlag flagSYN = false
  rst : seg.hasFlag flagRST = false
  timestamp : getTimestamp seg.options = none

def Complete (f : List Byte) (xs : List Piece) : Prop :=
  (∀ i < f.length, ∃ x ∈ xs, x.span.Contains i) ∧ ∃ x ∈ xs, x.fin = true

namespace Segment.Carries

variable {base : BitVec 32} {f : List Byte} {x : Piece} {seg : Segment}

theorem length_payload (h : seg.Carries base f x) : seg.payload.length = x.span.hi - x.span.lo := by
  rw [h.payload, length_stretch h.stream]

theorem payload_eq_nil (h : seg.Carries base f x) : seg.payload = [] ↔ x.span.hi ≤ x.span.lo := by
  rw [← List.length_eq_zero_iff, h.length_payload]
  omega

theorem dataEnd (h : seg.Carries base f x) : seg.seq + seg.dataLen = Serial.place base x.span.hi := by
  have hle := h.le
  unfold dataLen
  rw [h.seq, h.length_payload, ← Serial.place_add, Nat.add_sub_of_le hle]

theorem segLen_eq (h : seg.Carries base f x) : seg.segLen = BitVec.ofNat 32 (x.stop - x.span.lo) := by
  have hle := h.le
  unfold segLen Piece.stop
  rw [h.length_payload, h.syn, h.fin]
  cases x.fin
  · simp
  · have hsum : x.span.hi + 1 - x.span.lo = (x.span.hi - x.span.lo) + 1 := by omega
    simp [hsum, BitVec.ofNat_add]

theorem lastSeq (h : seg.Carries base f x) (hne : x.span.lo < x.stop) :
    seg.seq + seg.segLen - 1 = Serial.place base (x.stop - 1) := by
  have hstop : x.stop = (x.stop - 1) + 1 := by omega
  have hend : seg.seq + seg.segLen = Serial.place base x.stop := by
    rw [h.seq, h.segLen_eq, ← Serial.place_add, Nat.add_sub_of_le hne.le]
  rw [hend, hstop, Serial.place_add]
  simp

end Segment.Carries

/-! ### One piece -/

/-- The intake tracks the stream, and a FIN that waits is the one after it. -/
structure Intake.Tracks (base : BitVec 32) (f : List Byte) (t : Tracker Nat) (x : Intake) : Prop where
  buf : x.recvBuf.Tracks base f t
  pending : x.finPending = true →
    x.pendingFinSeq = Serial.place base f.length ∧ t.next < f.length ∧ f.length < t.next + 2 ^ 31

/-- The intake when `t` has arrived and, with `fin`, the FIN too: at the end of the stream the FIN has been consumed,
before it waits; `n` FINs were consumed before. -/
def Intake.At (base : BitVec 32) (f : List Byte) (t : Tracker Nat) (fin : Bool) (n : Nat) (x : Intake) : Prop :=
  if fin = true ∧ t.next = f.length then x.recvBuf.nxt = Serial.place base (f.length + 1) ∧ x.recvBuf.fins = n + 1
  else x.Tracks base f t ∧ x.recvBuf.fins = n ∧ x.finPending = fin

namespace Intake.Tracks

variable {base : BitVec 32} {f : List Byte} {t : Tracker Nat} {x : Intake} {y : Piece} {seg : Segment}

theorem fin_next (h : x.Tracks base f t) (hnear : f.length < t.next + 2 ^ 31) :
    Serial.place base f.length = x.recvBuf.nxt ↔ t.next = f.length := by
  have hle := h.buf.stream.1
  rw [h.buf.nxt, Serial.place_inj (by omega) (by omega)]
  exact eq_comm

theorem add_pending (h : x.Tracks base f t) (p : Span Nat) (hp : p.hi ≤ f.length)
    (hmiss : x.finPending = true → (t.add p).next ≠ f.length) :
    x.finPending = true →
      x.pendingFinSeq = Serial.place base f.length ∧ (t.add p).next < f.length ∧ f.length < (t.add p).next + 2 ^ 31 := by
  intro hpend
  obtain ⟨hseq, -, hnear⟩ := h.pending hpend
  have hmono := Tracker.next_le_add p t
  have hle := (h.buf.stream.add hp).1
  have hne := hmiss hpend
  exact ⟨hseq, by omega, by omega⟩

theorem data (h : x.Tracks base f t) (hy : seg.Carries base f y) (hw : x.recvBuf.windowSize ≤ 2 ^ 31)
    (hold : t.next < y.span.lo + 2 ^ 31) (hnew : y.span.hi ≤ t.next + x.recvBuf.windowSize)
    (hfull : x.recvBuf.ooo.length < maxOOOEntries) :
    (x.data seg.seq seg.payload).recvBuf.buf = x.recvBuf.buf ++ stretch f ⟨t.next, (t.add y.span).next⟩ ∧
      (x.data seg.seq seg.payload).At base f (t.add y.span) x.finPending x.recvBuf.fins := by
  have hmono := Tracker.next_le_add y.span t
  unfold Intake.data Intake.At
  by_cases hempty : seg.payload = []
  · have hsame : t.add y.span = t := Tracker.add_eq_self (.inl (hy.payload_eq_nil.1 hempty))
    have hno : ¬(x.finPending = true ∧ t.next = f.length) := by
      rintro ⟨hpend, hnext⟩
      have hlt := (h.pending hpend).2.1
      omega
    rw [if_pos hempty, hsame, if_neg hno, stretch_nil le_rfl, List.append_nil]
    exact ⟨rfl, h, rfl, rfl⟩
  obtain ⟨htracks, hbuf⟩ := h.buf.insert hy.le hy.stream hw hold hnew hfull
  have hfins := (RecvBuf.insert_extends x.recvBuf (Serial.place base y.span.lo) (stretch f y.span)).fins
  rw [if_neg hempty, hy.seq, hy.payload]
  -- the deferred FIN is looked for after the payload has been put into the buffer
  have hready : (x.finPending && decide (x.pendingFinSeq =
      (x.recvBuf.insert (Serial.place base y.span.lo) (stretch f y.span)).1.nxt)) = true ↔
      x.finPending = true ∧ (t.add y.span).next = f.length := by
    rw [Bool.and_eq_true, decide_eq_true_eq]
    refine and_congr_right fun hpend => ?_
    obtain ⟨hseq, -, hnear⟩ := h.pending hpend
    have hle := htracks.stream.1
    rw [hseq, htracks.nxt, Serial.place_inj (by omega) (by omega)]
    exact eq_comm
  by_cases hend : x.finPending = true ∧ (t.add y.span).next = f.length
  · simp only [hready.2 hend, if_true]
    rw [if_pos hend]
    refine ⟨hbuf, ?_, congrArg (· + 1) hfins⟩
    show (x.recvBuf.insert (Serial.place base y.span.lo) (stretch f y.span)).1.nxt + 1 = _
    rw [htracks.nxt, hend.2, Serial.place_add]
    rfl
  · have hready' := mt hready.1 hend
    simp only [hready', Bool.false_eq_true, if_false]
    rw [if_neg hend]
    exact ⟨hbuf, ⟨htracks, h.add_pending y.span hy.stream fun hpend hnext => hend ⟨hpend, hnext⟩⟩, hfins, trivial⟩

end Intake.Tracks

namespace Intake.At

variable {base : BitVec 32} {f : List Byte} {t : Tracker Nat} {b : Bool} {n : Nat} {x : Intake}

theorem of_end (hb : b = true) (hend : t.next = f.length) :
    x.At base f t b n ↔ x.recvBuf.nxt = Serial.place base (f.length + 1) ∧ x.recvBuf.fins = n + 1 := by
  unfold Intake.At
  rw [if_pos ⟨hb, hend⟩]

theorem of_open (hopen : ¬(b = true ∧ t.next = f.length)) :
    x.At base f t b n ↔ x.Tracks base f t ∧ x.recvBuf.fins = n ∧ x.finPending = b := by
  unfold Intake.At
  rw [if_neg hopen]

theorem congr {y : Intake} (h : x.At base f t b n) (hbuf : y.recvBuf = { x.recvBuf with buf := y.recvBuf.buf })
    (hpend : y.finPending = x.finPending) (hseq : y.pendingFinSeq = x.pendingFinSeq) : y.At base f t b n := by
  have hnxt : y.recvBuf.nxt = x.recvBuf.nxt := by rw [hbuf]
  have hooo : y.recvBuf.ooo = x.recvBuf.ooo := by rw [hbuf]
  have hfins : y.recvBuf.fins = x.recvBuf.fins := by rw [hbuf]
  by_cases hend : b = true ∧ t.next = f.length
  · rw [of_end hend.1 hend.2, hnxt, hfins, ← of_end hend.1 hend.2]
    exact h
  · obtain ⟨htracks, hn, hb⟩ := (of_open hend).1 h
    rw [of_open hend]
    refine ⟨⟨⟨hnxt.trans htracks.buf.nxt, hooo.trans htracks.buf.ooo, htracks.buf.stream, htracks.buf.near⟩, ?_⟩,
      hfins.trans hn, hpend.trans hb⟩
    rw [hpend, hseq]
    exact htracks.pending

theorem fin (h : x.At base f t b n) (hnear : f.length < t.next + 2 ^ 31) (hle : t.next ≤ f.length) :
    (x.fin (Serial.place base f.length)).recvBuf.buf = x.recvBuf.buf ∧
      (x.fin (Serial.place base f.length)).At base f t true n := by
  have hconsume : Serial.place base f.length = x.recvBuf.nxt →
      x.fin (Serial.place base f.length) = { x with recvBuf := x.recvBuf.consumeFIN } := fun h => if_pos h
  have hdefer : Serial.place base f.length ≠ x.recvBuf.nxt →
      x.fin (Serial.place base f.length) =
        { x with finPending := true, pendingFinSeq := Serial.place base f.length } := fun h => if_neg h
  by_cases hend : t.next = f.length
  · by_cases hb : b = true
    · -- the FIN was consumed before: its number is the one before the next expected
      obtain ⟨hnxt, hfins⟩ := (of_end hb hend).1 h
      have hne : Serial.place base f.length ≠ x.recvBuf.nxt := by
        rw [hnxt, Ne, Serial.place_inj (by omega) (by omega)]
        omega
      rw [hdefer hne, of_end rfl hend]
      exact ⟨rfl, hnxt, hfins⟩
    · obtain ⟨htracks, hfins, -⟩ := (of_open fun hc => hb hc.1).1 h
      have hnum := (htracks.fin_next hnear).2 hend
      rw [hconsume hnum, of_end rfl hend]
      refine ⟨rfl, ?_, congrArg (· + 1) hfins⟩
      show x.recvBuf.nxt + 1 = _
      rw [← hnum, Serial.place_add]
      rfl
  · obtain ⟨htracks, hfins, -⟩ := (of_open fun hc => hend hc.2).1 h
    rw [hdefer (mt (htracks.fin_next hnear).1 hend), of_open fun hc => hend hc.2]
    exact ⟨rfl, ⟨htracks.buf, fun _ => ⟨rfl, by omega, hnear⟩⟩, hfins, rfl⟩

end Intake.At

theorem Intake.Tracks.take {base : BitVec 32} {f : List Byte} {t : Tracker Nat} {x : Intake} {y : Piece} {seg : Segment}
    (h : x.Tracks base f t) (hy : seg.Carries base f y) (size : Nat) (hw : x.recvBuf.windowSize ≤ 2 ^ 31)
    (hold : t.next < y.span.lo + 2 ^ 31) (hnew : y.stop ≤ t.next + x.recvBuf.windowSize)
    (hfull : x.recvBuf.ooo.length < maxOOOEntries) :
    let z := Placement.take ⟨false, seg.seq, if seg.hasFlag flagFIN then some (seg.seq + seg.dataLen) else none⟩ size seg x
    z.recvBuf.buf = x.recvBuf.buf ++ stretch f ⟨t.next, (t.add y.span).next⟩ ∧
      z.At base f (t.add y.span) (x.finPending || y.fin) x.recvBuf.fins := by
  have hmono := Tracker.next_le_add y.span t
  have hle := (h.buf.stream.add hy.stream).1
  have hhi : y.span.hi ≤ y.stop := Nat.le_add_right _ _
  obtain ⟨hbuf, hat⟩ := h.data hy hw hold (by omega) hfull
  unfold Placement.take
  simp only [Bool.false_eq_true, if_false]
  by_cases hfin : y.fin = true
  · have hstop : y.stop = f.length + 1 := by
      unfold Piece.stop
      rw [if_pos hfin, hy.last hfin]
    obtain ⟨hbuf', hat'⟩ := hat.fin (by omega) hle
    rw [hy.fin, if_pos hfin, hy.dataEnd, hy.last hfin, hfin, Bool.or_true]
    exact ⟨hbuf'.trans hbuf, hat'⟩
  · rw [hy.fin, if_neg hfin, Bool.eq_false_of_not_eq_true hfin, Bool.or_false]
    exact ⟨hbuf, hat⟩

/-! ### One segment -/

namespace Conn

variable {σ : Type} [CongestionController σ] {base : BitVec 32} {f : List Byte} {y : Piece} {seg : Segment} {c : Conn σ}

omit [CongestionController σ] in
theorem segmentAcceptable_of_new {n : Nat} (hy : seg.Carries base f y) (hnxt : c.recvBuf.nxt = Serial.place base n)
    (hcap : c.recvBufCap ≤ 2 ^ 31) (hold : n < y.span.lo + 2 ^ 31) (hnew : y.stop ≤ n + c.recvBufCap)
    (hne : y.span.lo < y.stop) (hn : n < y.stop) : c.segmentAcceptable seg = true := by
  have hlen : seg.segLen ≠ 0 := by
    rw [hy.segLen_eq]
    intro hzero
    have hnat := congrArg BitVec.toNat hzero
    rw [BitVec.toNat_ofNat, Nat.mod_eq_of_lt (by omega)] at hnat
    have hz : (0 : BitVec 32).toNat = 0 := rfl
    omega
  have hwnd : c.acceptWnd = BitVec.ofNat 32 c.recvBufCap := by
    unfold acceptWnd
    rw [if_neg]
    intro hzero
    have hnat := congrArg BitVec.toNat hzero
    rw [BitVec.toNat_ofNat, Nat.mod_eq_of_lt (by omega)] at hnat
    have hz : (0 : BitVec 32).toNat = 0 := rfl
    omega
  have hrange : seqInRange (seg.seq + seg.segLen - 1) c.recvBuf.nxt (c.recvBuf.nxt + c.acceptWnd) = true := by
    unfold seqInRange
    rw [hy.lastSeq hne, hwnd, hnxt, ← Serial.place_add, seqAfterEq_place (by omega) (by omega),
      seqBefore_place (by omega) (by omega), Bool.and_eq_true, decide_eq_true_eq, decide_eq_true_eq]
    omega
  unfold segmentAcceptable
  split
  · rfl
  · rw [hrange, Bool.or_true]

omit [CongestionController σ] in
theorem pawsOK_of_none {opts : List TcpOption} (h : getTimestamp opts = none) : c.pawsOK opts = true := by
  unfold pawsOK
  rw [h]
  cases c.tsOK <;> rfl

theorem intake_of_not_acceptable (now : Int) (hst : c.state = .established)
    (hacc : c.segmentAcceptable seg = false) : (c.handleSegment now seg).intake = c.intake := by
  refine intake_handleSegment_of_none now ?_
  unfold placement
  rw [hst]
  simp only [takesACK_established hst, hacc]
  rfl

theorem intake_established (now : Int) (hy : seg.Carries base f y) (hst : c.state = .established)
    (hacc : c.segmentAcceptable seg = true) :
    (c.handleSegment now seg).intake =
      Placement.take ⟨false, seg.seq, if seg.hasFlag flagFIN then some (seg.seq + seg.dataLen) else none⟩ c.recvBufCap seg
        c.intake := by
  have ht : c.takesACK seg = true := by
    rw [takesACK_established hst, hacc, hy.rst, hy.syn, hy.ack, pawsOK_of_none hy.timestamp]
    rfl
  refine intake_handleSegment now ?_
  unfold placement
  rw [hst]
  exact if_pos ht

theorem intake_closeWait (now : Int) (seg : Segment) (hst : c.state = .closeWait) :
    (c.handleSegment now seg).intake = c.intake := by
  refine intake_handleSegment_of_none now ?_
  unfold placement
  rw [hst]

end Conn

/-! ### What runs without closing and timers leave alone -/

/-- Not `Close`, not `Abort`, not a timer, and not a reset. -/
def Event.calm : Event → Bool
  | .rto _ | .persist _ | .keepalive _ | .timeWait | .close _ | .abort => false
  | .segment _ seg => !seg.hasFlag flagRST
  | _ => true

/-- A call that delivers no segment, and is not `Close`, `Abort` or a timer. -/
def Event.quiet : Event → Bool
  | .segment _ _ => false
  | e => e.calm

namespace Core

/-- The receive buffer has the size the connection was configured with. -/
def Sized (s : Core) : Prop := s.opened = true → s.recvBuf.windowSize = s.recvBufCap

theorem windowSize_insert (s : Core) (seq : BitVec 32) (data : List Byte) :
    (s.insert seq data).recvBuf.windowSize = s.recvBuf.windowSize :=
  (RecvBuf.insert_extends s.recvBuf seq data).windowSize

variable {e : Event} {o : Occasion}

theorem Sized.step {s t : Core} (h : s.Sized) (hst : CoreStep e o s t) : t.Sized := by
  cases hst with
  | connect | setup => exact fun _ => rfl
  | acceptSYN | acceptCookie | synAckIn | synIn => exact fun _ => windowSize_insert _ _ _
  | insert => exact fun ho => (windowSize_insert _ _ _).trans (h ho)
  | finIn | finDeferred =>
    unfold consumeFIN
    simp only
    split <;> exact h
  | _ => exact h

def late (st : State) : Bool := st == .closeWait || st == .closing || st == .lastAck || st == .timeWait

/-- Until the connection is closed, the channel for the peer's FIN is closed in states after a FIN only. -/
structure FinRecvdLate (s : Core) : Prop where
  unopened : s.opened = false → s.state = .closed
  late : s.closed = false → s.finRecvd = true → Core.late s.state = true

theorem late_afterFIN {st : State} (acked : Bool) (h : awaitsFIN st = true) : late (afterFIN acked st) = true := by
  cases acked <;> cases st <;> first | rfl | cases h

theorem FinRecvdLate.consumeFIN {s : Core} (h : s.FinRecvdLate) :
    s.consumeFIN.closed = false → s.consumeFIN.finRecvd = true → Core.late s.consumeFIN.state = true := by
  unfold Core.consumeFIN
  simp only
  split
  · rename_i ha
    exact fun _ _ => late_afterFIN _ ha
  · exact h.late

theorem FinRecvdLate.step {s t : Core} (h : s.FinRecvdLate) (hst : CoreStep e o s t) :
    t.FinRecvdLate := by
  refine ⟨hst.unopened h.unopened, ?_⟩
  -- the other changes of state start where the channel is open
  have hno : ∀ st, s.state = st → Core.late st = false → s.closed = false → s.finRecvd = true → False := by
    rintro st rfl hl hc hf
    cases hl.symm.trans (h.late hc hf)
  cases hst with
  | connect _ _ hs | synAckIn _ hs | synIn _ hs | synRcvdAck _ hs | finAcked _ hs =>
    exact fun hc hf => (hno _ hs rfl hc hf).elim
  | setup _ _ ho => exact fun hc hf => (hno _ (h.unopened ho) rfl hc hf).elim
  | acceptSYN _ _ hs | acceptCookie _ _ _ hs =>
    intro hc hf
    rcases hs with hs | hs <;> exact (hno _ hs rfl hc hf).elim
  | fin _ _ hs =>
    intro hc hf
    rcases hs with ⟨hs, -⟩ | ⟨-, rfl⟩ | ⟨hs, -⟩
    · exact (hno _ hs rfl hc hf).elim
    · rfl
    · exact (hno _ hs rfl hc hf).elim
  | closingAcked => exact fun _ _ => rfl
  | finIn => exact h.consumeFIN
  | finDeferred => exact h.consumeFIN
  | shut => exact fun hc => nomatch hc
  | _ => exact h.late

structure Up (g s : Core) : Prop where
  opened : s.opened = true
  closed : s.closed = false
  cap : s.recvBufCap = g.recvBufCap
  size : s.recvBuf.windowSize = g.recvBuf.windowSize
  ends : (s.state = .established ∧ g.state = .established ∧ s.recvBuf.fins = g.recvBuf.fins ∧ s.finRecvd = g.finRecvd) ∨
    (s.state = .closeWait ∧ s.finRecvd = true ∧ (g.state = .established → g.recvBuf.fins < s.recvBuf.fins))

theorem Up.congr {g s t : Core} (h : Up g s) (ho : t.opened = s.opened) (hc : t.closed = s.closed)
    (hcap : t.recvBufCap = s.recvBufCap) (hsize : t.recvBuf.windowSize = s.recvBuf.windowSize)
    (hst : t.state = s.state) (hfins : t.recvBuf.fins = s.recvBuf.fins) (hf : t.finRecvd = s.finRecvd) : Up g t := by
  refine ⟨ho.trans h.opened, hc.trans h.closed, hcap.trans h.cap, hsize.trans h.size, ?_⟩
  rw [hst, hfins, hf]
  exact h.ends

theorem Up.consumeFIN {g s : Core} (h : Up g s) : Up g s.consumeFIN := by
  unfold Core.consumeFIN
  simp only
  rcases h.ends with ⟨hst, -, hfins, -⟩ | ⟨hst, hf, hfins⟩
  · rw [hst]
    refine { h with ends := .inr ⟨rfl, rfl, fun _ => ?_⟩ }
    show g.recvBuf.fins < s.recvBuf.fins + 1
    omega
  · rw [hst]
    refine { h with ends := .inr ⟨rfl, hf, fun hg => ?_⟩ }
    exact (hfins hg).trans (Nat.lt_succ_self _)

theorem Up.step {g s t : Core} (h : Up g s) (he : e.calm = true) (hst : CoreStep e o s t) :
    Up g t := by
  have hstate : s.state = .established ∨ s.state = .closeWait := h.ends.imp And.left And.left
  have hno : ∀ st, s.state = st → st ≠ .established → st ≠ .closeWait → Up g t := by
    rintro st rfl h1 h2
    exact (hstate.elim h1 h2).elim
  cases hst with
  | connect _ _ hs | synAckIn _ hs | synIn _ hs | synRcvdAck _ hs | finAcked _ hs | closingAcked _ hs =>
    exact hno _ hs (by decide) (by decide)
  | acceptSYN _ _ hs | acceptCookie _ _ _ hs =>
    rcases hs with hs | hs <;> exact hno _ hs (by decide) (by decide)
  | setup _ _ ho => cases ho.symm.trans h.opened
  | fin he' | refin he' => rw [he'] at he; cases he
  | insert =>
    have hext := RecvBuf.insert_extends s.recvBuf
    exact h.congr rfl rfl rfl (hext _ _).windowSize rfl (hext _ _).fins rfl
  | finIn => exact h.consumeFIN
  | finDeferred =>
    have h' := h.consumeFIN
    exact { h' with }
  | shut hc =>
    cases hc with
    | reset he' _ hr => rw [he'] at he; simp [Event.calm, hr] at he
    | lastAck _ hs => exact hno _ hs (by decide) (by decide)
    | giveUp he' | timeWait he' | keepalive he' | close he' | abort he' => rw [he'] at he; cases he
  | _ => exact h.congr rfl rfl rfl rfl rfl rfl rfl

structure Idle (g s : Core) : Prop extends Up g s where
  recvBuf : s.recvBuf = { g.recvBuf with buf := s.recvBuf.buf }
  finPending : s.finPending = g.finPending
  pendingFinSeq : s.pendingFinSeq = g.pendingFinSeq
  bytes : s.returned ++ s.recvBuf.buf = g.returned ++ g.recvBuf.buf

theorem Idle.step {g s t : Core} (h : Idle g s) (he : e.quiet = true) (hst : CoreStep e o s t) : Idle g t := by
  have hcalm : e.calm = true := by
    cases e <;> first | exact he | cases he
  have hup := h.toUp.step hcalm hst
  have hstate : s.state = .established ∨ s.state = .closeWait := h.ends.imp And.left And.left
  have hno : ∀ st, s.state = st → st ≠ .established → st ≠ .closeWait → Idle g t := by
    rintro st rfl h1 h2
    exact (hstate.elim h1 h2).elim
  cases hst with
  | connect _ _ hs => exact hno _ hs (by decide) (by decide)
  | acceptSYN _ _ hs | acceptCookie _ _ _ hs =>
    rcases hs with hs | hs <;> exact hno _ hs (by decide) (by decide)
  | setup _ _ ho => cases ho.symm.trans h.opened
  | synAckIn he' | synIn he' | synRcvdAck he' | ack he' | insert he' | finIn he' | finDefer he' | finDeferred he'
  | finAcked he' | closingAcked he' => rw [he'] at he; cases he
  | @read now n =>
    refine ⟨hup, ?_, h.finPending, h.pendingFinSeq, ?_⟩
    · rw [h.recvBuf]
      rfl
    · show (s.returned ++ s.recvBuf.buf.take n) ++ s.recvBuf.buf.drop n = _
      rw [List.append_assoc, List.take_append_drop]
      exact h.bytes
  | shut hc =>
    cases hup.closed
  | _ => exact ⟨hup, h.recvBuf, h.finPending, h.pendingFinSeq, h.bytes⟩

end Core

/-! ### Runs -/

namespace Host

variable {σ : Type}

/-- How many numbers of the peer have been consumed: bytes and FINs. -/
def consumed (h : Host σ) : Nat := h.returned.length + h.conn.recvBuf.buf.length + h.conn.recvBuf.fins

/-- What a delivery of the pieces `xs` has come to: `t` has arrived. -/
structure Arrived (f : List Byte) (h₀ : Host σ) (xs : List Piece) (t : Tracker Nat) (h : Host σ) : Prop where
  opened : h.conn.opened = true
  closed : h.conn.closed = false
  cap : h.conn.recvBufCap = h₀.conn.recvBufCap
  size : h.conn.recvBuf.windowSize = h₀.conn.recvBufCap
  covers : ∀ i, t.Covers i ↔ ∃ x ∈ xs, x.span.Contains i
  below : t.Below f.length
  bytes : h.returned ++ h.conn.recvBuf.buf = h₀.returned ++ h₀.conn.recvBuf.buf ++ stretch f ⟨0, t.next⟩
  intake : h.conn.intake.At h₀.conn.recvBuf.nxt f t (xs.any Piece.fin) h₀.conn.recvBuf.fins
  state : if xs.any Piece.fin = true ∧ t.next = f.length then
      h.conn.state = .closeWait ∧ h.conn.finRecvdClosed = true
    else h.conn.state = .established ∧ h.conn.finRecvdClosed = false

section Arrived

variable {f : List Byte} {h₀ h h' : Host σ} {xs : List Piece} {t : Tracker Nat}

theorem Arrived.complete_iff (ha : Arrived f h₀ xs t h) :
    Complete f xs ↔ xs.any Piece.fin = true ∧ t.next = f.length := by
  have hle := ha.below.1
  have hall : (∀ i < f.length, ∃ x ∈ xs, x.span.Contains i) ↔ t.next = f.length := by
    simp only [← ha.covers, ← Tracker.le_next_iff]
    omega
  unfold Complete
  rw [hall, List.any_eq_true, and_comm]

theorem Arrived.consumed_eq (ha : Arrived f h₀ xs t h) (hopen : ¬(xs.any Piece.fin = true ∧ t.next = f.length)) :
    h.consumed - h₀.consumed = t.next := by
  have hlen := congrArg List.length ha.bytes
  have hstretch : (stretch f ⟨0, t.next⟩).length = t.next := length_stretch ha.below.1
  have hfins : h.conn.recvBuf.fins = h₀.conn.recvBuf.fins := ((Intake.At.of_open hopen).1 ha.intake).2.1
  simp only [List.length_append, hstretch] at hlen
  unfold consumed
  omega

theorem Arrived.up (ha : Arrived f h₀ xs t h) : Core.Up h.core h.core := by
  refine ⟨ha.opened, ha.closed, rfl, rfl, ?_⟩
  have hst := ha.state
  split at hst
  · refine .inr ⟨hst.1, hst.2, fun hest => ?_⟩
    cases hst.1.symm.trans hest
  · exact .inl ⟨hst.1, hst.1, rfl, rfl⟩

theorem Arrived.state_of_up {b : Bool} {t' : Tracker Nat} (ha : Arrived f h₀ xs t h) (hup : Core.Up h.core h'.core)
    (hin : h'.conn.intake.At h₀.conn.recvBuf.nxt f t' b h₀.conn.recvBuf.fins)
    (hmono : xs.any Piece.fin = true ∧ t.next = f.length → b = true ∧ t'.next = f.length) :
    if b = true ∧ t'.next = f.length then h'.conn.state = .closeWait ∧ h'.conn.finRecvdClosed = true
    else h'.conn.state = .established ∧ h'.conn.finRecvdClosed = false := by
  have hst := ha.state
  by_cases hend : xs.any Piece.fin = true ∧ t.next = f.length
  · rw [if_pos (hmono hend)]
    rw [if_pos hend] at hst
    rcases hup.ends with ⟨-, hg, -⟩ | ⟨hcw, hf, -⟩
    · cases hst.1.symm.trans hg
    · exact ⟨hcw, hf⟩
  · rw [if_neg hend] at hst
    have hfins : h.conn.recvBuf.fins = h₀.conn.recvBuf.fins := ((Intake.At.of_open hend).1 ha.intake).2.1
    -- a FIN has been consumed exactly if the state has been left
    by_cases hend' : b = true ∧ t'.next = f.length
    · rw [if_pos hend']
      have hfins' : h'.conn.recvBuf.fins = h₀.conn.recvBuf.fins + 1 := ((Intake.At.of_end hend'.1 hend'.2).1 hin).2
      rcases hup.ends with ⟨-, -, hsame, -⟩ | ⟨hcw, hf, -⟩
      · have hsame' : h'.conn.recvBuf.fins = h.conn.recvBuf.fins := hsame
        omega
      · exact ⟨hcw, hf⟩
    · rw [if_neg hend']
      have hfins' : h'.conn.recvBuf.fins = h₀.conn.recvBuf.fins := ((Intake.At.of_open hend').1 hin).2.1
      rcases hup.ends with ⟨hest, -, -, hf⟩ | ⟨-, -, hlt⟩
      · exact ⟨hest, hf.trans hst.2⟩
      · have hlt' : h.conn.recvBuf.fins < h'.conn.recvBuf.fins := hlt hst.1
        omega

variable [CongestionController σ]

theorem Arrived.call {e : Event} (ha : Arrived f h₀ xs t h) (he : e.quiet = true) (hn : h.next e = some h') :
    Arrived f h₀ xs t h' := by
  have hstart : Core.Idle h.core (h.core.receive e) := by
    have hup := ha.up
    cases e <;> exact ⟨{ hup with cap := rfl, size := rfl }, rfl, rfl, rfl, rfl⟩
  have hidle : Core.Idle h.core h'.core :=
    (next_core hn).induction (I := fun s => Core.Idle h.core s) hstart fun _ _ hs hst => hs.step he hst
  have hin := ha.intake.congr (y := h'.conn.intake) hidle.recvBuf hidle.finPending hidle.pendingFinSeq
  exact ⟨hidle.opened, hidle.closed, hidle.cap.trans ha.cap, hidle.size.trans ha.size, ha.covers, ha.below,
    hidle.bytes.trans ha.bytes, hin, ha.state_of_up hidle.toUp hin id⟩

/-- What a correct segment does to the receiving side: its interval is added to what has arrived, its bytes in order are
appended, and its FIN counts from then on. -/
theorem Arrived.intake_segment {seg : Segment} {x : Piece} (ha : Arrived f h₀ xs t h) (now : Int)
    (hcap : h₀.conn.recvBufCap ≤ 2 ^ 31) (hx : seg.Carries h₀.conn.recvBuf.nxt f x)
    (hnew : x.stop ≤ h.consumed - h₀.consumed + h.conn.recvBufCap)
    (hold : h.consumed - h₀.consumed < x.span.lo + 2 ^ 31) (hroom : h.conn.recvBuf.ooo.length < maxOOOEntries) :
    (h.conn.handleSegment now seg).recvBuf.buf =
        h.conn.recvBuf.buf ++ stretch f ⟨t.next, (t.add x.span).next⟩ ∧
      (h.conn.handleSegment now seg).intake.At h₀.conn.recvBuf.nxt f (t.add x.span) (xs.any Piece.fin || x.fin)
        h₀.conn.recvBuf.fins := by
  have hmono := Tracker.next_le_add x.span t
  have hle := (ha.below.add hx.stream).1
  have hst := ha.state
  have hkeep : ∀ {y z : Intake}, y = z → y.recvBuf.buf = z.recvBuf.buf := fun h => congrArg (fun z => z.recvBuf.buf) h
  by_cases hend : xs.any Piece.fin = true ∧ t.next = f.length
  · rw [if_pos hend] at hst
    have hsame := Conn.intake_closeWait now seg hst.1
    have hnext : (t.add x.span).next = t.next := by
      have hend' := hend.2
      omega
    rw [hsame, hnext, stretch_nil le_rfl, List.append_nil, hend.1, Bool.true_or,
      Intake.At.of_end rfl (hnext.trans hend.2), ← Intake.At.of_end hend.1 hend.2]
    exact ⟨hkeep hsame, ha.intake⟩
  · rw [if_neg hend] at hst
    rw [ha.consumed_eq hend] at hnew hold
    obtain ⟨htracks, hfins, hpend⟩ := (Intake.At.of_open hend).1 ha.intake
    have hfins' : h.conn.recvBuf.fins = h₀.conn.recvBuf.fins := hfins
    have hcap' : h.conn.recvBufCap ≤ 2 ^ 31 := ha.cap.trans_le hcap
    by_cases hacc : h.conn.segmentAcceptable seg = true
    · have hsize : h.conn.intake.recvBuf.windowSize = h.conn.recvBufCap := ha.size.trans ha.cap.symm
      have htake := htracks.take hx h.conn.recvBufCap (by rw [hsize]; exact hcap') hold (by rw [hsize]; exact hnew) hroom
      have heq := Conn.intake_established now hx hst.1 hacc
      rw [← heq, hpend, hfins] at htake
      exact htake
    · -- it brings nothing new
      have hold' : ¬(x.span.lo < x.stop ∧ t.next < x.stop) := fun hc =>
        hacc (Conn.segmentAcceptable_of_new hx htracks.buf.nxt hcap' hold hnew hc.1 hc.2)
      have hx1 := hx.le
      have hx2 := hx.stream
      have hfin : x.fin = false := by
        by_contra hfin
        have hfin' := Bool.eq_true_of_not_eq_false hfin
        have hlast := hx.last hfin'
        refine hold' ?_
        unfold Piece.stop
        rw [if_pos hfin']
        omega
      have hstop : x.stop = x.span.hi := by
        unfold Piece.stop
        rw [hfin]
        rfl
      have hadd : t.add x.span = t := Tracker.add_eq_self (by omega)
      have hsame := Conn.intake_of_not_acceptable now hst.1 (Bool.eq_false_of_not_eq_true hacc)
      rw [hsame, hadd, stretch_nil le_rfl, List.append_nil, hfin, Bool.or_false]
      exact ⟨hkeep hsame, ha.intake⟩

theorem Arrived.segment {now : Int} {seg : Segment} {x : Piece} (ha : Arrived f h₀ xs t h)
    (hcap : h₀.conn.recvBufCap ≤ 2 ^ 31) (hx : seg.Carries h₀.conn.recvBuf.nxt f x)
    (hnew : x.stop ≤ h.consumed - h₀.consumed + h.conn.recvBufCap)
    (hold : h.consumed - h₀.consumed < x.span.lo + 2 ^ 31) (hroom : h.conn.recvBuf.ooo.length < maxOOOEntries)
    (hn : h.next (.segment now seg) = some h') : Arrived f h₀ (xs ++ [x]) (t.add x.span) h' := by
  have hconn := conn_segment hn
  have hreturned : h'.returned = h.returned := by
    rw [← Option.some.inj (apply_of_next hn).1]
    rfl
  have hup : Core.Up h.core h'.core := by
    have hup := ha.up
    refine (next_core hn).induction (I := fun s => Core.Up h.core s)
      { hup with cap := rfl, size := rfl } fun _ _ hs hst => hs.step ?_ hst
    show (!seg.hasFlag flagRST) = true
    rw [hx.rst]
    rfl
  obtain ⟨hbuf, hin⟩ := ha.intake_segment now hcap hx hnew hold hroom
  have hany : (xs ++ [x]).any Piece.fin = (xs.any Piece.fin || x.fin) := by simp
  have hbuf' : h'.conn.recvBuf.buf = h.conn.recvBuf.buf ++ stretch f ⟨t.next, (t.add x.span).next⟩ := by
    rw [hconn]
    exact hbuf
  have hin' : h'.conn.intake.At h₀.conn.recvBuf.nxt f (t.add x.span) ((xs ++ [x]).any Piece.fin)
      h₀.conn.recvBuf.fins := by
    rw [hconn, hany]
    exact hin
  have hbelow := ha.below.add hx.stream
  have hmono := Tracker.next_le_add x.span t
  refine ⟨hup.opened, hup.closed, hup.cap.trans ha.cap, hup.size.trans ha.size, ?_, hbelow, ?_, hin',
    ha.state_of_up hup hin' ?_⟩
  · intro i
    rw [Tracker.covers_add, ha.covers]
    simp only [List.mem_append, List.mem_singleton]
    constructor
    · rintro (hi | ⟨y, hy, hi⟩)
      · exact ⟨x, .inr rfl, hi⟩
      · exact ⟨y, .inl hy, hi⟩
    · rintro ⟨y, hy | rfl, hi⟩
      · exact .inr ⟨y, hy, hi⟩
      · exact .inl hi
  · rw [hreturned, hbuf', ← List.append_assoc, ha.bytes, List.append_assoc, stretch_append (Nat.zero_le _) hmono]
  · rintro ⟨hfin, hnext⟩
    have hle := hbelow.1
    exact ⟨by rw [hany, hfin]; rfl, by omega⟩

end Arrived

variable [CongestionController σ]

/-- A run from `h₀` on in which the pieces `xs` of the stream `f` are delivered, each near the next expected number,
within the buffer size and with room in the out-of-order list. In between there are calls, but not `Close` or `Abort`,
and no timer fires. -/
inductive Delivery (f : List Byte) (h₀ : Host σ) : List Piece → Host σ → Prop
  | start : Delivery f h₀ [] h₀
  | segment {xs h h' now seg x} (hd : Delivery f h₀ xs h) (hx : Segment.Carries h₀.conn.recvBuf.nxt f x seg)
      (hnew : x.stop ≤ h.consumed - h₀.consumed + h.conn.recvBufCap)
      (hold : h.consumed - h₀.consumed < x.span.lo + 2 ^ 31) (hroom : h.conn.recvBuf.ooo.length < maxOOOEntries)
      (hn : h.next (.segment now seg) = some h') : Delivery f h₀ (xs ++ [x]) h'
  | call {xs h h' e} (hd : Delivery f h₀ xs h) (he : e.quiet = true) (hn : h.next e = some h') : Delivery f h₀ xs h'

variable {P : Host σ → Event → Prop} {h₀ h : Host σ} {f : List Byte} {xs : List Piece}

theorem Arrived.start {h₀ : Host σ} (f : List Byte) (hr : (system σ).Reach P h₀)
    (hest : h₀.conn.state = .established) (hc : h₀.conn.closed = false) (hooo : h₀.conn.recvBuf.ooo = [])
    (hfin : h₀.conn.finPending = false) : Arrived f h₀ [] (Tracker.start 0) h₀ := by
  have hopened : h₀.conn.opened = true := opened_of_synchronized hr (by rw [hest]; rfl)
  have hsized : h₀.core.Sized := by
    refine reach_core hr (I := Core.Sized) (fun cfg now ho => nomatch ho) fun g e t hg _ hst => ?_
    refine hst.induction (I := Core.Sized) ?_ fun _ _ hs hstep => hs.step hstep
    cases e <;> exact hg
  have hlate : h₀.core.FinRecvdLate := by
    refine reach_core hr (I := Core.FinRecvdLate) (fun cfg now => ⟨fun _ => rfl, fun _ hf => nomatch hf⟩)
      fun g e t hg _ hst => ?_
    refine hst.induction (I := Core.FinRecvdLate) ?_ fun _ _ hs hstep => hs.step hstep
    cases e <;> exact ⟨hg.unopened, hg.late⟩
  have hrecvd : h₀.conn.finRecvdClosed = false := by
    by_contra hf
    have hstate : Core.late h₀.conn.state = true := hlate.late hc (Bool.eq_true_of_not_eq_false hf)
    rw [hest] at hstate
    cases hstate
  have hbelow : ∀ m, (Tracker.start 0).Below m := fun m => ⟨Nat.zero_le m, fun p hp => nomatch hp⟩
  refine ⟨hopened, hc, rfl, hsized hopened, ?_, hbelow _, ?_, ?_, ⟨hest, hrecvd⟩⟩
  · rintro i
    constructor
    · rintro (hi | ⟨p, hp, -⟩)
      · cases hi
      · cases hp
    · rintro ⟨x, hx, -⟩
      cases hx
  · rw [show stretch f ⟨0, (Tracker.start 0).next⟩ = [] from stretch_nil le_rfl, List.append_nil]
  · have hnone : ¬(([] : List Piece).any Piece.fin = true ∧ (Tracker.start 0).next = f.length) := fun h => nomatch h.1
    rw [Intake.At.of_open hnone]
    refine ⟨⟨⟨?_, hooo, hbelow _, hbelow _⟩, fun hpend => ?_⟩, rfl, hfin⟩
    · exact (Serial.place_zero _).symm
    · cases hfin.symm.trans hpend

theorem Delivery.arrived (hr : (system σ).Reach P h₀) (hest : h₀.conn.state = .established)
    (hc : h₀.conn.closed = false) (hooo : h₀.conn.recvBuf.ooo = []) (hfin : h₀.conn.finPending = false)
    (hcap : h₀.conn.recvBufCap ≤ 2 ^ 31) (hd : Delivery f h₀ xs h) : ∃ t, Arrived f h₀ xs t h := by
  induction hd with
  | start => exact ⟨_, Arrived.start f hr hest hc hooo hfin⟩
  | segment _ hx hnew hold hroom hn ih =>
    obtain ⟨t, ha⟩ := ih
    exact ⟨_, ha.segment hcap hx hnew hold hroom hn⟩
  | call _ he hn ih =>
    obtain ⟨t, ha⟩ := ih
    exact ⟨t, ha.call he hn⟩

/-- The stream of the peer and its FIN, delivered in any order: the connection goes to CLOSE-WAIT when both are
complete, and `Read` returns the stream to its end and then `io.EOF`. -/
theorem fin_honoured_in_any_order (hr : (system σ).Reach P h₀) (hest : h₀.conn.state = .established)
    (hc : h₀.conn.closed = false) (hooo : h₀.conn.recvBuf.ooo = []) (hfin : h₀.conn.finPending = false)
    (hcap : h₀.conn.recvBufCap ≤ 2 ^ 31) (hd : Delivery f h₀ xs h) :
    (h.conn.state = .established ∧ ¬Complete f xs ∧ ∀ now n, (h.conn.read now n).2 ≠ .eof) ∨
      (h.conn.state = .closeWait ∧ Complete f xs ∧
        h.conn.recvBuf.nxt = Serial.place h₀.conn.recvBuf.nxt (f.length + 1) ∧
        h.conn.recvBuf.fins = h₀.conn.recvBuf.fins + 1 ∧
        h.returned ++ h.conn.recvBuf.buf = h₀.returned ++ h₀.conn.recvBuf.buf ++ f ∧
        ∀ now n, (h.conn.read now n).2 =
          if h.conn.recvBuf.buf = [] then .eof else .data (h.conn.recvBuf.buf.take n)) := by
  obtain ⟨t, ha⟩ := hd.arrived hr hest hc hooo hfin hcap
  have hst := ha.state
  by_cases hend : xs.any Piece.fin = true ∧ t.next = f.length
  · rw [if_pos hend] at hst
    obtain ⟨hnxt, hfins⟩ := (Intake.At.of_end hend.1 hend.2).1 ha.intake
    have hwhole : stretch f ⟨0, t.next⟩ = f := by
      rw [stretch, hend.2]
      exact List.take_length
    refine .inr ⟨hst.1, ha.complete_iff.2 hend, hnxt, hfins, by rw [ha.bytes, hwhole], fun now n => ?_⟩
    unfold Conn.read
    rw [ha.opened, ha.closed, hst.2]
    by_cases hbuf : h.conn.recvBuf.buf = []
    · have hread : h.conn.recvBuf.readable = 0 := List.length_eq_zero_iff.2 hbuf
      rw [if_pos (.inr hread), if_pos hbuf]
      rfl
    · have hread : ¬((!true) = true ∨ h.conn.recvBuf.readable = 0) := by
        rintro (h1 | h1)
        · cases h1
        · exact hbuf (List.length_eq_zero_iff.1 h1)
      rw [if_neg hread, if_neg hbuf]
      rfl
  · rw [if_neg hend] at hst
    refine .inl ⟨hst.1, mt ha.complete_iff.1 hend, fun now n heof => ?_⟩
    rcases (Conn.read_eof heof).2 with h1 | h1
    · cases ha.closed.symm.trans h1
    · cases hst.2.symm.trans h1

/-- A correct segment of the stream `f` for a connection that expects the number 701. -/
def segmentOf (f : List Byte) (x : Piece) : Segment where
  srcPort := 0
  dstPort := 0
  seq := Serial.place 701 x.span.lo
  ack := 101
  flags := if x.fin then flagFIN ||| flagACK else flagACK
  window := 1000
  payload := stretch f x.span

theorem carries_segmentOf {x : Piece} (hle : x.span.lo ≤ x.span.hi) (hf : x.span.hi ≤ f.length)
    (hlast : x.fin = true → x.span.hi = f.length) : (segmentOf f x).Carries 701 f x := by
  obtain ⟨p, fin⟩ := x
  have hflags : ∀ g, (segmentOf f ⟨p, fin⟩).hasFlag g = ((if fin then flagFIN ||| flagACK else flagACK) &&& g != 0) :=
    fun _ => rfl
  refine ⟨rfl, hle, hf, rfl, ?_, hlast, ?_, ?_, ?_, rfl⟩ <;> rw [hflags] <;> cases fin <;> rfl

theorem Delivery.next_segmentOf (x : Piece) (hd : Delivery f h₀ xs h) (hbase : h₀.conn.recvBuf.nxt = 701)
    (hle : x.span.lo ≤ x.span.hi) (hf : x.span.hi ≤ f.length) (hlast : x.fin = true → x.span.hi = f.length)
    (hnew : x.stop ≤ h.consumed - h₀.consumed + h.conn.recvBufCap)
    (hold : h.consumed - h₀.consumed < x.span.lo + 2 ^ 31) (hroom : h.conn.recvBuf.ooo.length < maxOOOEntries)
    (hs : (h.next (.segment 1 (segmentOf f x))).isSome = true) :
    Delivery f h₀ (xs ++ [x]) (h.run [.segment 1 (segmentOf f x)]) :=
  .segment hd (by rw [hbase]; exact carries_segmentOf hle hf hlast) hnew hold hroom (next_run hs)

def receiver (size : Nat) : Host SmallController := (fresh { recvBufSize := size } 0).run opening

/-- The FIN comes first, then the end of the stream, then its beginning. -/
theorem fin_honoured_in_any_order_reversed :
    ∃ h, Delivery [7, 8, 9] (receiver 1000) [⟨⟨3, 3⟩, true⟩, ⟨⟨1, 3⟩, false⟩, ⟨⟨0, 2⟩, false⟩] h ∧
      h.conn.state = .closeWait ∧ h.conn.recvBuf.nxt = 705 := by
  have hr : (system SmallController).Reach anyStep (receiver 1000) :=
    run_reach (by decide +kernel) (execMeets_anyStep _ _ _)
  have hbase : (receiver 1000).conn.recvBuf.nxt = 701 := by decide +kernel
  have h1 := Delivery.next_segmentOf ⟨⟨3, 3⟩, true⟩ (Delivery.start (f := [7, 8, 9])) hbase (by decide) (by decide)
    (by decide) (by decide +kernel) (by decide +kernel) (by decide +kernel) (by decide +kernel)
  have h2 := Delivery.next_segmentOf ⟨⟨1, 3⟩, false⟩ h1 hbase (by decide) (by decide) (by decide) (by decide +kernel)
    (by decide +kernel) (by decide +kernel) (by decide +kernel)
  have h3 := Delivery.next_segmentOf ⟨⟨0, 2⟩, false⟩ h2 hbase (by decide) (by decide) (by decide) (by decide +kernel)
    (by decide +kernel) (by decide +kernel) (by decide +kernel)
  have hcomplete : Complete [7, 8, 9] [⟨⟨3, 3⟩, true⟩, ⟨⟨1, 3⟩, false⟩, ⟨⟨0, 2⟩, false⟩] := by
    refine ⟨fun i hi => ?_, ⟨⟨3, 3⟩, true⟩, by simp, rfl⟩
    rcases Nat.lt_or_ge i 2 with hlo | hhi
    · exact ⟨⟨⟨0, 2⟩, false⟩, by simp, Nat.zero_le _, hlo⟩
    · exact ⟨⟨⟨1, 3⟩, false⟩, by simp, (by omega : 1 ≤ i), hi⟩
  rcases fin_honoured_in_any_order hr (by decide +kernel) (by decide +kernel) (by decide +kernel) (by decide +kernel)
    (by decide +kernel) h3 with ⟨-, hno, -⟩ | ⟨hst, -, hnxt, -⟩
  · exact absurd hcomplete hno
  · refine ⟨_, h3, hst, ?_⟩
    rw [hnxt, hbase]
    rfl

/-- With a receive buffer of one byte more than 2^31, a byte of the stream is not acceptable: the stream and the FIN have
been delivered, and the connection stays in ESTABLISHED. -/
theorem fin_not_honoured_large_buffer :
    ∃ h, Delivery [7] (receiver 2147483649) [⟨⟨0, 1⟩, false⟩, ⟨⟨1, 1⟩, true⟩] h ∧
      Complete [7] [⟨⟨0, 1⟩, false⟩, ⟨⟨1, 1⟩, true⟩] ∧ (receiver 2147483649).conn.state = .established ∧
      h.conn.state = .established ∧ h.conn.recvBuf.nxt = 701 := by
  have hbase : (receiver 2147483649).conn.recvBuf.nxt = 701 := by decide +kernel
  have h1 := Delivery.next_segmentOf ⟨⟨0, 1⟩, false⟩ (Delivery.start (f := [7])) hbase (by decide) (by decide)
    (by decide) (by decide +kernel) (by decide +kernel) (by decide +kernel) (by decide +kernel)
  have h2 := Delivery.next_segmentOf ⟨⟨1, 1⟩, true⟩ h1 hbase (by decide) (by decide) (by decide) (by decide +kernel)
    (by decide +kernel) (by decide +kernel) (by decide +kernel)
  refine ⟨_, h2, ⟨fun i hi => ?_, ⟨⟨1, 1⟩, true⟩, by simp, rfl⟩, by decide +kernel, by decide +kernel, by decide +kernel⟩
  exact ⟨⟨⟨0, 1⟩, false⟩, by simp, Nat.zero_le _, hi⟩

end Host

end Libp2px.Vtcp
