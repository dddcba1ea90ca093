import Libp2px.Lib.Intervals
import Libp2px.Vtcp.RecvBuf

/-!
# Reassembly

The receive buffer of a connection whose peer sends one stream.  As long as the pieces that arrive lie within the window
and less than half the number space before the next expected number, the buffer is a tracker of the positions that have
arrived: `nxt` stands for the first missing position, the out-of-order entries hold the bytes of the stream between the
ends of the held intervals, and `Insert` adds the interval of the piece (`Tracks.insert`).
-/

namespace Libp2px.Vtcp

open Intervals

def stretch (f : List Byte) (p : Span Nat) : List Byte := (f.drop p.lo).take (p.hi - p.lo)

section stretch

variable {f : List Byte} {a b c : Nat}

theorem length_stretch {p : Span Nat} (hf : p.hi ≤ f.length) : (stretch f p).length = p.hi - p.lo := by
  rw [stretch, List.length_take, List.length_drop]
  omega

theorem take_stretch (hbc : b ≤ c) : (stretch f ⟨a, c⟩).take (b - a) = stretch f ⟨a, b⟩ := by
  rw [stretch, stretch, List.take_take, Nat.min_eq_left (by simp only; omega)]

theorem drop_stretch (hab : a ≤ b) : (stretch f ⟨a, c⟩).drop (b - a) = stretch f ⟨b, c⟩ := by
  simp only [stretch]
  rw [List.drop_take, List.drop_drop]
  congr 1
  · omega
  · congr 1
    omega

theorem stretch_append (hab : a ≤ b) (hbc : b ≤ c) : stretch f ⟨a, b⟩ ++ stretch f ⟨b, c⟩ = stretch f ⟨a, c⟩ := by
  rw [← take_stretch hbc, ← drop_stretch hab, List.take_append_drop]

theorem stretch_nil (hba : b ≤ a) : stretch f ⟨a, b⟩ = [] := by
  simp [stretch, Nat.sub_eq_zero_of_le hba]

theorem stretch_of_agree {f' : List Byte} {p : Span Nat} (h : f <+: f') (hf : p.hi ≤ f.length) :
    stretch f' p = stretch f p := by
  obtain ⟨g, rfl⟩ := h
  rcases Nat.le_total p.lo p.hi with hp | hp
  · rw [stretch, stretch, List.drop_append_of_le_length (hp.trans hf), List.take_append_of_le_length]
    rw [List.length_drop]
    omega
  · rw [stretch_nil hp, stretch_nil hp]

end stretch

namespace RecvBuf

/-- The out-of-order entry that holds the bytes of an interval. -/
def entry (base : BitVec 32) (f : List Byte) (p : Span Nat) : OooEntry := ⟨Serial.place base p.lo, stretch f p⟩

variable {base : BitVec 32} {f : List Byte} {p q : Span Nat} {ps : List (Span Nat)} {m n : Nat}

theorem endSeq_entry (base : BitVec 32) (hp : p.lo ≤ p.hi) (hf : p.hi ≤ f.length) :
    (entry base f p).endSeq = Serial.place base p.hi := by
  show Serial.place (Serial.place base p.lo) (stretch f p).length = _
  rw [length_stretch hf, Serial.place_place, Nat.add_sub_of_le hp]

/-- The interval is not empty, and its bytes are bytes of the stream that lie within the window after `n`. -/
structure Inside (f : List Byte) (n : Nat) (p : Span Nat) : Prop where
  lo : n < p.lo
  lt : p.lo < p.hi
  hi : p.hi ≤ n + 2 ^ 31
  stream : p.hi ≤ f.length

theorem Inside.hull (hp : Inside f n p) (hq : Inside f n q) : Inside f n (q.hull p) := by
  have h1 := hp.lo
  have h2 := hq.lo
  have h3 := hp.lt
  have h4 := hp.hi
  have h5 := hq.hi
  have h6 := hp.stream
  have h7 := hq.stream
  refine ⟨?_, ?_, ?_, ?_⟩ <;> simp only [Span.hull] <;> omega

/-! ### Out-of-order pieces -/

/-- What the loop of `insertOOO` carries when its segment stands for the interval `p`. -/
def oooAcc (base : BitVec 32) (f : List Byte) (p : Span Nat) (merged : List OooEntry) (inserted : Bool) : OooAcc where
  seq := Serial.place base p.lo
  data := stretch f p
  endSeq := Serial.place base p.hi
  merged := merged
  inserted := inserted

variable {merged : List OooEntry} {r : RecvBuf} {t : Tracker Nat}

theorem insertOOOStep_before (hp : Inside f n p) (hq : Inside f n q) (h : p.hi ≤ q.lo) (inserted : Bool) :
    insertOOOStep (oooAcc base f p merged inserted) (entry base f q) =
      oooAcc base f p (if inserted then merged ++ [entry base f q] else merged ++ [entry base f p, entry base f q])
        true := by
  have h1 := hp.lo
  have h2 := hp.lt
  have h3 := hq.lt
  have h4 := hq.hi
  have hafter : seqAfterEq (entry base f q).seq (oooAcc base f p merged inserted).endSeq = true := by
    show seqAfterEq (Serial.place base q.lo) (Serial.place base p.hi) = true
    rw [seqAfterEq_place (by omega) (by omega)]
    exact decide_eq_true h
  unfold insertOOOStep
  rw [if_pos hafter]
  cases inserted <;> rfl

theorem insertOOOStep_after (hp : Inside f n p) (hq : Inside f n q) (h : q.hi ≤ p.lo) :
    insertOOOStep (oooAcc base f p merged false) (entry base f q) =
      oooAcc base f p (merged ++ [entry base f q]) false := by
  have h1 := hq.lo
  have h2 := hq.lt
  have h3 := hp.lt
  have h4 := hp.hi
  have hno : ¬seqAfterEq (entry base f q).seq (oooAcc base f p merged false).endSeq = true := by
    show ¬seqAfterEq (Serial.place base q.lo) (Serial.place base p.hi) = true
    rw [seqAfterEq_place (by omega) (by omega), decide_eq_true_eq]
    omega
  have hyes : seqAfterEq (oooAcc base f p merged false).seq (entry base f q).endSeq = true := by
    rw [endSeq_entry base hq.lt.le hq.stream]
    show seqAfterEq (Serial.place base p.lo) (Serial.place base q.hi) = true
    rw [seqAfterEq_place (by omega) (by omega)]
    exact decide_eq_true h
  unfold insertOOOStep
  rw [if_neg hno, if_pos hyes]
  rfl

theorem insertOOOStep_overlap (hp : Inside f n p) (hq : Inside f n q) (h₁ : q.lo < p.hi) (h₂ : p.lo < q.hi) :
    insertOOOStep (oooAcc base f p merged false) (entry base f q) = oooAcc base f (q.hull p) merged false := by
  have h3 := hp.lo
  have h4 := hq.lo
  have h5 := hp.hi
  have h6 := hq.hi
  have hend := endSeq_entry base hq.lt.le hq.stream
  have hno : ¬seqAfterEq (entry base f q).seq (oooAcc base f p merged false).endSeq = true := by
    show ¬seqAfterEq (Serial.place base q.lo) (Serial.place base p.hi) = true
    rw [seqAfterEq_place (by omega) (by omega), decide_eq_true_eq]
    omega
  have hno' : ¬seqAfterEq (oooAcc base f p merged false).seq (entry base f q).endSeq = true := by
    rw [hend]
    show ¬seqAfterEq (Serial.place base p.lo) (Serial.place base q.hi) = true
    rw [seqAfterEq_place (by omega) (by omega), decide_eq_true_eq]
    omega
  -- the bytes before the segment are taken over first
  have hleft : (if seqBefore (entry base f q).seq (oooAcc base f p merged false).seq then
      { oooAcc base f p merged false with
        data := (entry base f q).data.take ((oooAcc base f p merged false).seq - (entry base f q).seq).toNat ++
          (oooAcc base f p merged false).data
        seq := (entry base f q).seq }
      else oooAcc base f p merged false) = oooAcc base f ⟨min q.lo p.lo, p.hi⟩ merged false := by
    have hbefore : seqBefore (entry base f q).seq (oooAcc base f p merged false).seq = decide (q.lo < p.lo) :=
      seqBefore_place (by omega) (by omega)
    rw [hbefore]
    by_cases hlo : q.lo < p.lo
    · have hsub : (Serial.place base p.lo - Serial.place base q.lo).toNat = p.lo - q.lo :=
        Serial.toNat_place_sub hlo.le (by omega)
      have hdata : (stretch f q).take (p.lo - q.lo) ++ stretch f p = stretch f ⟨q.lo, p.hi⟩ :=
        (congrArg (· ++ stretch f p) (take_stretch h₂.le)).trans (stretch_append hlo.le hp.lt.le)
      rw [if_pos (decide_eq_true hlo)]
      simp only [oooAcc, entry, hsub, hdata, Nat.min_eq_left hlo.le]
    · rw [if_neg (by simpa using hlo), Nat.min_eq_right (not_lt.1 hlo)]
  unfold insertOOOStep
  rw [if_neg hno, if_neg hno']
  simp only [hleft, hend]
  have hafter : seqAfter (Serial.place base q.hi) (oooAcc base f ⟨min q.lo p.lo, p.hi⟩ merged false).endSeq =
      decide (p.hi < q.hi) := seqAfter_place (by simp only; omega) (by simp only; omega)
  rw [hafter]
  by_cases hhi : p.hi < q.hi
  · have hsub : (Serial.place base p.hi - Serial.place base q.lo).toNat = p.hi - q.lo :=
      Serial.toNat_place_sub h₁.le (by omega)
    have hdata : stretch f ⟨min q.lo p.lo, p.hi⟩ ++ (stretch f q).drop (p.hi - q.lo) =
        stretch f ⟨min q.lo p.lo, q.hi⟩ :=
      (congrArg (stretch f ⟨min q.lo p.lo, p.hi⟩ ++ ·) (drop_stretch h₁.le)).trans
        (stretch_append (by omega) hhi.le)
    rw [if_pos (decide_eq_true hhi)]
    simp only [oooAcc, entry, Span.hull, hsub, hdata, Nat.max_eq_left hhi.le]
  · rw [if_neg (by simpa using hhi), Span.hull, Nat.max_eq_right (not_lt.1 hhi)]

theorem foldl_insertOOOStep_inserted (merged : List OooEntry) (hp : Inside f n p) (hps : ∀ q ∈ ps, Inside f n q)
    (hlo : ∀ q ∈ ps, p.hi ≤ q.lo) :
    (ps.map (entry base f)).foldl insertOOOStep (oooAcc base f p merged true) =
      oooAcc base f p (merged ++ ps.map (entry base f)) true := by
  induction ps generalizing merged with
  | nil => simp
  | cons q qs ih =>
    rw [List.map_cons, List.foldl_cons, insertOOOStep_before hp (hps q (by simp)) (hlo q (by simp)), if_pos rfl,
      ih _ (fun r hr => hps r (by simp [hr])) (fun r hr => hlo r (by simp [hr])), List.append_assoc, List.singleton_append]

theorem foldl_insertOOOStep (base : BitVec 32) (merged : List OooEntry) (hp : Inside f n p)
    (hps : ∀ q ∈ ps, Inside f n q) (hord : Ordered ps) :
    (let a := (ps.map (entry base f)).foldl insertOOOStep (oooAcc base f p merged false)
     if a.inserted then a.merged else a.merged ++ [⟨a.seq, a.data⟩]) =
      merged ++ (Intervals.insert p ps).map (entry base f) := by
  induction ps generalizing p merged with
  | nil => rfl
  | cons q qs ih =>
    obtain ⟨hlt, hqs, hrest⟩ := hord
    have hq := hps q (by simp)
    have hins : ∀ r ∈ qs, Inside f n r := fun r hr => hps r (by simp [hr])
    rw [List.map_cons, List.foldl_cons, Intervals.insert]
    by_cases hbefore : p.hi ≤ q.lo
    · rw [if_pos hbefore, insertOOOStep_before hp hq hbefore, if_neg Bool.false_ne_true,
        foldl_insertOOOStep_inserted _ hp hins fun r hr => (hbefore.trans hlt.le).trans (hqs r hr)]
      simp [oooAcc]
    · rw [if_neg hbefore]
      by_cases hafter : q.hi ≤ p.lo
      · rw [if_pos hafter, insertOOOStep_after hp hq hafter, ih _ hp hins hrest]
        simp
      · rw [if_neg hafter, insertOOOStep_overlap hp hq (not_le.1 hbefore) (not_le.1 hafter)]
        exact ih _ (hp.hull hq) hins hrest

/-! ### In-order pieces -/

theorem mergeStep_entry {a : MergeAcc} (ha : a.nxt = Serial.place base n) (hq : Inside f m q) (hm : m < n)
    (hn : n ≤ m + 2 ^ 31) :
    mergeStep a (entry base f q) =
      if n < q.lo then { a with remaining := a.remaining ++ [entry base f q] }
      else if n < q.hi then
        { a with buf := a.buf ++ stretch f ⟨n, q.hi⟩, nxt := Serial.place base q.hi, found := true }
      else a := by
  have h1 := hq.lo
  have h2 := hq.lt
  have h3 := hq.hi
  have hend := endSeq_entry base hq.lt.le hq.stream
  have hlo : seqBeforeEq (entry base f q).seq a.nxt = decide (q.lo ≤ n) := by
    rw [ha]
    exact seqBeforeEq_place (by omega) (by omega)
  have hlo' : seqAfter (entry base f q).seq a.nxt = decide (n < q.lo) := by
    rw [ha]
    exact seqAfter_place (by omega) (by omega)
  have hhi : seqAfter (entry base f q).endSeq a.nxt = decide (n < q.hi) := by
    rw [hend, ha]
    exact seqAfter_place (by omega) (by omega)
  unfold mergeStep
  rw [hlo, hlo', hhi]
  by_cases hbeyond : n < q.lo
  · rw [if_neg (by simp; omega), if_pos (decide_eq_true hbeyond), if_pos hbeyond]
  · rw [if_neg hbeyond]
    by_cases hin : n < q.hi
    · have hsub : (a.nxt - (entry base f q).seq).toNat = n - q.lo := by
        rw [ha]
        exact Serial.toNat_place_sub (not_lt.1 hbeyond) (by omega)
      have hdata : (entry base f q).data.drop (n - q.lo) = stretch f ⟨n, q.hi⟩ := drop_stretch (not_lt.1 hbeyond)
      rw [if_pos (by simp; omega), if_pos hin, hend, hsub, hdata]
    · rw [if_neg (by simp; omega), if_neg (by simpa using hbeyond), if_neg hin]

theorem foldl_mergeStep (base : BitVec 32) (a : MergeAcc) (ha : a.nxt = Serial.place base n)
    (hps : ∀ q ∈ ps, Inside f m q) (hm : m < n) (hn : n ≤ m + 2 ^ 31) (hord : Ordered ps) :
    (ps.map (entry base f)).foldl mergeStep a =
      { buf := a.buf ++ stretch f ⟨n, (drain n ps).1⟩
        nxt := Serial.place base (drain n ps).1
        remaining := a.remaining ++ (drain n ps).2.map (entry base f)
        found := a.found || decide (n < (drain n ps).1) } := by
  induction ps generalizing a n with
  | nil => simp [drain, stretch_nil, ← ha]
  | cons q qs ih =>
    obtain ⟨hlt, hqs, hrest⟩ := hord
    have hq := hps q (by simp)
    have hins : ∀ r ∈ qs, Inside f m r := fun r hr => hps r (by simp [hr])
    rw [List.map_cons, List.foldl_cons, mergeStep_entry ha hq hm hn, drain]
    by_cases hbeyond : n < q.lo
    · -- the rest of the list is beyond `n` as well
      have hkeep : drain n qs = (n, qs) := drain_of_lt fun r hr => (hbeyond.trans hlt).trans_le (hqs r hr)
      rw [if_pos hbeyond, if_pos hbeyond, ih _ (by exact ha) hins hm hn hrest, hkeep]
      simp
    · rw [if_neg hbeyond, if_neg hbeyond]
      by_cases hin : n < q.hi
      · have hle := le_drain q.hi qs
        have hhi := hq.hi
        rw [if_pos hin, if_pos hin, ih _ rfl hins (by omega) hhi hrest]
        simp only [List.append_assoc, stretch_append hin.le hle, Bool.true_or, decide_eq_true (hin.trans_le hle),
          Bool.or_true]
      · rw [if_neg hin, if_neg hin]
        exact ih a ha hins hm hn hrest

/-- The first pass of `mergeOOO` drains the entries; a second one finds nothing more. -/
theorem mergeOOO_eq (hnxt : r.nxt = Serial.place base n) (hooo : r.ooo = ps.map (entry base f))
    (hps : ∀ q ∈ ps, Inside f m q) (hm : m < n) (hn : n ≤ m + 2 ^ 31) (hord : Ordered ps) :
    r.mergeOOO =
      { r with buf := r.buf ++ stretch f ⟨n, (drain n ps).1⟩
               nxt := Serial.place base (drain n ps).1
               ooo := (drain n ps).2.map (entry base f) } := by
  have hpass := foldl_mergeStep base { buf := r.buf, nxt := r.nxt } hnxt hps hm hn hord
  rw [← hooo] at hpass
  have hpass' : r.mergePass = _ := hpass
  simp only [List.nil_append, Bool.false_or] at hpass'
  unfold mergeOOO
  rw [mergeLoop_succ, hpass']
  by_cases hfound : n < (drain n ps).1
  · have hpos : r.ooo.length = (r.ooo.length - 1) + 1 := by
      have : ps ≠ [] := by
        rintro rfl
        exact lt_irrefl _ hfound
      have := List.length_pos_iff.2 this
      rw [hooo, List.length_map]
      omega
    obtain ⟨hord', hbeyond⟩ := ordered_drain (n := n) hord
    have hsame : drain (drain n ps).1 (drain n ps).2 = drain n ps := drain_of_lt hbeyond
    have hsecond := foldl_mergeStep base
      { buf := r.buf ++ stretch f ⟨n, (drain n ps).1⟩, nxt := Serial.place base (drain n ps).1 } rfl
      (fun q hq => hps q (drain_subset n ps q hq)) (hm.trans_le (le_drain n ps))
      (drain_le hn fun q hq => (hps q hq).hi) hord'
    rw [hsame] at hsecond
    simp only [List.nil_append, Bool.false_or, lt_irrefl, decide_false, stretch_nil le_rfl, List.append_nil] at hsecond
    rw [if_pos (decide_eq_true hfound), hpos, mergeLoop_succ]
    unfold mergePass
    simp only [hsecond, Bool.false_eq_true, if_false]
  · rw [if_neg (by simpa using hfound)]

/-! ### Tracking -/

/-- The buffer is a tracker of the positions of the stream `f`: `nxt` stands for the first missing one, the entries hold
the bytes of the held intervals, and nothing is held beyond the largest window. -/
structure Tracks (base : BitVec 32) (f : List Byte) (t : Tracker Nat) (r : RecvBuf) : Prop where
  nxt : r.nxt = Serial.place base t.next
  ooo : r.ooo = t.held.map (entry base f)
  stream : t.Below f.length
  near : t.Below (t.next + 2 ^ 31)

theorem Tracks.inside (h : Tracks base f t r) : ∀ p ∈ t.held, Inside f t.next p := by
  intro p hp
  exact ⟨t.beyond p hp, t.ordered.lt hp, h.near.2 p hp, h.stream.2 p hp⟩

/-- The buffer once the tracker has moved from position `n` to `t`: the bytes up to there are appended. -/
def advance (base : BitVec 32) (f : List Byte) (n : Nat) (t : Tracker Nat) (r : RecvBuf) : RecvBuf :=
  { r with buf := r.buf ++ stretch f ⟨n, t.next⟩, nxt := Serial.place base t.next, ooo := t.held.map (entry base f) }

theorem Tracks.advance_self (h : Tracks base f t r) : r.advance base f t.next t = r := by
  unfold advance
  rw [stretch_nil le_rfl, List.append_nil, ← h.nxt, ← h.ooo]

theorem Tracks.place_next (h : Tracks base f t r) (hlo : p.lo ≤ t.next)
    (hhi : t.next < p.hi) (hnear : p.hi ≤ t.next + 2 ^ 31) :
    (place r r.nxt (stretch f ⟨t.next, p.hi⟩) (Serial.place base p.hi)).1 = r.advance base f t.next (t.add p) := by
  obtain ⟨hnext, hheld⟩ := Tracker.add_reaching hlo hhi
  have hmerge := mergeOOO_eq (r := { r with buf := r.buf ++ stretch f ⟨t.next, p.hi⟩, nxt := Serial.place base p.hi })
    rfl h.ooo h.inside hhi hnear t.ordered
  unfold place advance
  rw [if_pos rfl, hmerge, hnext, hheld, List.append_assoc, stretch_append hhi.le (le_drain _ _)]

theorem Tracks.insertOOO (h : Tracks base f t r) (hp : Inside f t.next p) (hlo : t.next < p.lo) :
    r.insertOOO (Serial.place base p.lo) (stretch f p) = r.advance base f t.next (t.add p) := by
  have hend : Serial.place base p.lo + BitVec.ofNat 32 (stretch f p).length = Serial.place base p.hi :=
    endSeq_entry base hp.lt.le hp.stream
  have hfold := foldl_insertOOOStep base [] hp h.inside t.ordered
  obtain ⟨hnext, hheld⟩ := Tracker.add_beyond hlo hp.lt
  simp only [List.nil_append] at hfold
  unfold RecvBuf.insertOOO advance
  rw [hnext, stretch_nil le_rfl, List.append_nil, ← h.nxt, h.ooo, hheld, ← hfold, hend]
  rfl

theorem Tracks.place (h : Tracks base f t r) (hp : p.lo < p.hi) (hf : p.hi ≤ f.length)
    (hlo : t.next ≤ p.lo) (hnear : p.hi ≤ t.next + 2 ^ 31) :
    (RecvBuf.place r (Serial.place base p.lo) (stretch f p) (Serial.place base p.hi)).1 =
      if t.next < p.lo ∧ maxOOOEntries ≤ r.ooo.length then r else r.advance base f t.next (t.add p) := by
  rcases Nat.lt_or_ge t.next p.lo with hbeyond | hat
  · have hneq : Serial.place base p.lo ≠ r.nxt := by
      rw [h.nxt, Ne, Serial.place_inj (by omega) (by omega)]
      omega
    unfold RecvBuf.place
    rw [if_neg hneq]
    by_cases hfull : r.ooo.length < maxOOOEntries
    · rw [if_pos hfull, if_neg (by omega)]
      exact h.insertOOO ⟨hbeyond, hp, hnear, hf⟩ hbeyond
    · rw [if_neg hfull, if_pos ⟨hbeyond, not_lt.1 hfull⟩]
  · have heq : p.lo = t.next := by omega
    have hseq : Serial.place base p.lo = r.nxt := by rw [heq, h.nxt]
    have hpiece : stretch f p = stretch f ⟨t.next, p.hi⟩ := by rw [← heq]
    rw [if_neg (by omega), hseq, hpiece]
    exact h.place_next heq.le (by omega) hnear

def keptEnd (r : RecvBuf) (n hi : Nat) : Nat := if r.windowSize = 0 then hi else min hi (n + r.windowSize)

theorem keptEnd_le (r : RecvBuf) (n hi : Nat) : r.keptEnd n hi ≤ hi := by
  unfold keptEnd
  split <;> omega

theorem keptEnd_of_le {hi : Nat} (h : hi ≤ n + r.windowSize) : r.keptEnd n hi = hi := by
  unfold keptEnd
  split <;> omega

theorem Tracks.trimRight (h : Tracks base f t r) (hp : p.lo < p.hi)
    (hf : p.hi ≤ f.length) (hw : r.windowSize ≤ 2 ^ 31) (hlo : t.next ≤ p.lo) (hnear : p.hi ≤ t.next + 2 ^ 31) :
    (RecvBuf.trimRight r (Serial.place base p.lo) (stretch f p) (Serial.place base p.hi)).1 =
      if t.next < p.lo ∧ maxOOOEntries ≤ r.ooo.length then r
      else r.advance base f t.next (t.add ⟨p.lo, r.keptEnd t.next p.hi⟩) := by
  have hedge : r.nxt + BitVec.ofNat 32 r.windowSize = Serial.place base (t.next + r.windowSize) := by
    rw [h.nxt, Serial.place_add]
  have hafter (hpos : 0 < r.windowSize) : seqAfter (Serial.place base p.hi) (Serial.place base (t.next + r.windowSize)) =
      decide (t.next + r.windowSize < p.hi) := seqAfter_place (by omega) (by omega)
  unfold RecvBuf.trimRight keptEnd
  simp only [hedge]
  by_cases hbeyond : 0 < r.windowSize ∧ t.next + r.windowSize < p.hi
  · obtain ⟨hpos, hpast⟩ := hbeyond
    have htrim : (Serial.place base p.hi - Serial.place base (t.next + r.windowSize)).toNat =
        p.hi - (t.next + r.windowSize) := Serial.toNat_place_sub hpast.le (by omega)
    have hlen : (BitVec.ofNat 32 (stretch f p).length).toNat = p.hi - p.lo := by
      rw [length_stretch hf, BitVec.toNat_ofNat, Nat.mod_eq_of_lt (by omega)]
    rw [if_pos ⟨hpos, (hafter hpos).trans (decide_eq_true hpast)⟩, if_neg hpos.ne', Nat.min_eq_right hpast.le]
    have hnone : BitVec.ofNat 32 (stretch f p).length ≤
        Serial.place base p.hi - Serial.place base (t.next + r.windowSize) ↔ t.next + r.windowSize ≤ p.lo := by
      rw [BitVec.le_def, htrim, hlen]
      omega
    by_cases hout : t.next + r.windowSize ≤ p.lo
    · -- nothing of the piece lies within the window
      rw [if_pos (hnone.2 hout), Tracker.add_eq_self (.inl (by exact hout)), h.advance_self, ite_self]
    · have hrest : (BitVec.ofNat 32 (stretch f p).length -
          (Serial.place base p.hi - Serial.place base (t.next + r.windowSize))).toNat = t.next + r.windowSize - p.lo := by
        rw [BitVec.toNat_sub_of_le (by rw [BitVec.le_def, htrim, hlen]; omega), htrim, hlen]
        omega
      have hcut : (stretch f p).take (t.next + r.windowSize - p.lo) = stretch f ⟨p.lo, t.next + r.windowSize⟩ :=
        take_stretch hpast.le
      rw [if_neg fun hle => hout (hnone.1 hle), hrest, hcut]
      exact h.place (p := ⟨p.lo, t.next + r.windowSize⟩) (not_le.1 hout) (hpast.le.trans hf) hlo (by simp only; omega)
  · have hkept : (if r.windowSize = 0 then p.hi else min p.hi (t.next + r.windowSize)) = p.hi := by
      split <;> omega
    have hwithin : ¬(0 < r.windowSize ∧
        seqAfter (Serial.place base p.hi) (Serial.place base (t.next + r.windowSize)) = true) := by
      rintro ⟨hpos, hpast⟩
      rw [hafter hpos] at hpast
      exact hbeyond ⟨hpos, of_decide_eq_true hpast⟩
    rw [if_neg hwithin, hkept]
    exact h.place hp hf hlo hnear

theorem Tracks.cutLeft (h : Tracks base f t r) (hp : p.lo ≤ p.hi) (hf : p.hi ≤ f.length)
    (hold : t.next ≤ p.lo + 2 ^ 31) (hnew : p.hi ≤ t.next + 2 ^ 31) :
    (r.insert (Serial.place base p.lo) (stretch f p)).1 = r ∧ (p.hi ≤ p.lo ∨ p.hi ≤ t.next ∨ p.hi = p.lo + 2 ^ 32) ∨
      max p.lo t.next < p.hi ∧ (r.insert (Serial.place base p.lo) (stretch f p)).1 =
        (RecvBuf.trimRight r (Serial.place base (max p.lo t.next)) (stretch f ⟨max p.lo t.next, p.hi⟩)
          (Serial.place base p.hi)).1 := by
  have hlen := length_stretch hf
  have hend : Serial.place base p.lo + BitVec.ofNat 32 (stretch f p).length = Serial.place base p.hi :=
    endSeq_entry base hp hf
  unfold RecvBuf.insert
  by_cases hnil : stretch f p = []
  · left
    rw [hnil, List.length_nil] at hlen
    rw [if_pos hnil]
    exact ⟨rfl, .inl (by omega)⟩
  have hpos := List.length_pos_iff.2 hnil
  rw [if_neg hnil, hend]
  by_cases hlo : p.lo < t.next
  · have hbefore : seqBefore (Serial.place base p.lo) r.nxt = true := by
      rw [h.nxt, seqBefore_place (by omega) (by omega)]
      exact decide_eq_true hlo
    have hsub : (r.nxt - Serial.place base p.lo).toNat = t.next - p.lo := by
      rw [h.nxt]
      exact Serial.toNat_place_sub hlo.le (by omega)
    rw [if_pos hbefore]
    simp only
    by_cases hdup : BitVec.ofNat 32 (stretch f p).length ≤ r.nxt - Serial.place base p.lo
    · left
      rw [if_pos hdup]
      rw [BitVec.le_def, hsub, hlen, BitVec.toNat_ofNat] at hdup
      refine ⟨rfl, .inr ?_⟩
      by_cases hall : p.hi - p.lo < 2 ^ 32
      · rw [Nat.mod_eq_of_lt hall] at hdup
        omega
      · omega
    · right
      rw [if_neg hdup, hsub]
      rw [BitVec.le_def, hsub, hlen, BitVec.toNat_ofNat] at hdup
      have hmod := Nat.mod_le (p.hi - p.lo) (2 ^ 32)
      have hdrop : (stretch f p).drop (t.next - p.lo) = stretch f ⟨t.next, p.hi⟩ := drop_stretch hlo.le
      rw [Nat.max_eq_right hlo.le, hdrop, ← h.nxt]
      exact ⟨by omega, rfl⟩
  · right
    have hbefore : ¬seqBefore (Serial.place base p.lo) r.nxt = true := by
      rw [h.nxt, seqBefore_place (by omega) (by omega), decide_eq_true_eq]
      exact hlo
    rw [if_neg hbefore, Nat.max_eq_left (not_lt.1 hlo)]
    exact ⟨by omega, rfl⟩

theorem Tracks.add (h : Tracks base f t r) (hf : p.hi ≤ f.length)
    (hnear : p.hi ≤ t.next + 2 ^ 31) : Tracks base f (t.add p) (r.advance base f t.next (t.add p)) := by
  have hmono := Tracker.next_le_add p t
  exact ⟨rfl, rfl, h.stream.add hf, (h.near.add hnear).mono (by omega)⟩

theorem Tracks.insert_eq (h : Tracks base f t r) (hp : p.lo ≤ p.hi)
    (hf : p.hi ≤ f.length) (hw : r.windowSize ≤ 2 ^ 31) (hold : t.next < p.lo + 2 ^ 31) (hnew : p.hi ≤ t.next + 2 ^ 31) :
    (r.insert (Serial.place base p.lo) (stretch f p)).1 =
      if t.next < p.lo ∧ maxOOOEntries ≤ r.ooo.length then r
      else r.advance base f t.next (t.add ⟨p.lo, r.keptEnd t.next p.hi⟩) := by
  have hkept := r.keptEnd_le t.next p.hi
  rcases h.cutLeft hp hf hold.le hnew with ⟨heq, hdup⟩ | ⟨hlt, heq⟩
  · have hsame : t.add ⟨p.lo, r.keptEnd t.next p.hi⟩ = t := Tracker.add_eq_self (by simp only; omega)
    rw [heq, hsame, h.advance_self, ite_self]
  · have hcut : t.add ⟨max p.lo t.next, r.keptEnd t.next p.hi⟩ = t.add ⟨p.lo, r.keptEnd t.next p.hi⟩ := by
      rcases Nat.lt_or_ge t.next p.lo with hbeyond | hat
      · rw [Nat.max_eq_left hbeyond.le]
      · rw [Nat.max_eq_right hat]
        exact Tracker.add_cut hat
    rw [heq, h.trimRight (p := ⟨max p.lo t.next, p.hi⟩) hlt hf hw (le_max_right _ _) hnew, hcut]
    simp only [lt_max_iff, lt_irrefl, or_false]

/-- The buffer takes a piece in: its interval is added to what has arrived, and the bytes up to the new first missing
position are appended. -/
theorem Tracks.insert (h : Tracks base f t r) (hp : p.lo ≤ p.hi) (hf : p.hi ≤ f.length) (hw : r.windowSize ≤ 2 ^ 31)
    (hold : t.next < p.lo + 2 ^ 31) (hnew : p.hi ≤ t.next + r.windowSize) (hfull : r.ooo.length < maxOOOEntries) :
    Tracks base f (t.add p) (r.insert (Serial.place base p.lo) (stretch f p)).1 ∧
      (r.insert (Serial.place base p.lo) (stretch f p)).1.buf = r.buf ++ stretch f ⟨t.next, (t.add p).next⟩ := by
  rw [h.insert_eq hp hf hw hold (by omega), if_neg (by omega), keptEnd_of_le hnew]
  exact ⟨h.add hf (by omega), rfl⟩

theorem Tracks.insert_near (h : Tracks base f t r) (hp : p.lo ≤ p.hi)
    (hf : p.hi ≤ f.length) (hw : r.windowSize ≤ 2 ^ 31) (hold : t.next ≤ p.lo + 2 ^ 31) (hnew : p.hi ≤ t.next + 2 ^ 31) :
    ∃ q : Span Nat, p.lo ≤ q.lo ∧ q.hi ≤ p.hi ∧
      (r.insert (Serial.place base p.lo) (stretch f p)).1 = r.advance base f t.next (t.add q) := by
  have hnone : r = r.advance base f t.next (t.add ⟨p.hi, p.hi⟩) := by
    rw [Tracker.add_eq_self (.inl le_rfl), h.advance_self]
  rcases h.cutLeft hp hf hold hnew with ⟨heq, -⟩ | ⟨hlt, heq⟩
  · exact ⟨⟨p.hi, p.hi⟩, hp, le_rfl, heq.trans hnone⟩
  · rw [heq, h.trimRight (p := ⟨max p.lo t.next, p.hi⟩) hlt hf hw (le_max_right _ _) hnew]
    split
    · exact ⟨⟨p.hi, p.hi⟩, hp, le_rfl, hnone⟩
    · exact ⟨⟨max p.lo t.next, r.keptEnd t.next p.hi⟩, le_max_left _ _, r.keptEnd_le t.next p.hi, rfl⟩

theorem Tracks.extend {f' : List Byte} (h : Tracks base f t r) (hf : f <+: f') :
    Tracks base f' t r := by
  refine ⟨h.nxt, ?_, h.stream.mono hf.length_le, h.near⟩
  rw [h.ooo]
  refine List.map_congr_left fun p hp => ?_
  rw [entry, entry, stretch_of_agree hf (h.stream.2 p hp)]

end RecvBuf

end Libp2px.Vtcp
