import Libp2px.Lib.Transition
import Libp2px.Vtcp.Reassembly

/-!
# Runs of a receive buffer

A receive buffer on its own, under any sequence of `Insert`s and `Read`s.  If the pieces that arrive are pieces of one
stream, what has been read and what is still buffered is the longest beginning of the stream that they cover
(`reassembly`).  Whatever the bytes are, the out-of-order entries stay in order within the window, and a block that
`SACKBlocks` has reported is neither dropped nor taken in part (`ooo_ordered_and_kept`); for the bytes play no part in the
bookkeeping (`RecvBuf.insert_map`), so a buffer of any bytes follows the same tracker as one of zeros.  Last, the number
that `Insert` returns leaves out the bytes that come into order behind the piece (`insert_reports_iff`).
-/

namespace Libp2px.Vtcp

open Intervals Transition

structure Feed where
  recv : RecvBuf
  returned : List Byte := []
  deriving DecidableEq

inductive FeedAction
  | insert (seq : BitVec 32) (data : List Byte)
  | read (n : Nat)

namespace Feed

/-- How many bytes have come into order; the position of `nxt` in the stream. -/
def position (s : Feed) : Nat := s.returned.length + s.recv.readable

def next (s : Feed) : FeedAction → Feed
  | .insert seq data => { s with recv := (s.recv.insert seq data).1 }
  | .read n => { recv := (s.recv.read n).1, returned := s.returned ++ (s.recv.read n).2 }

def system (initialNxt : BitVec 32) (windowSize : Nat) : System Feed FeedAction :=
  .ofNext (fun s => s = { recv := newRecvBuf initialNxt windowSize }) fun s a => some (s.next a)

theorem position_read (s : Feed) (n : Nat) : (s.next (.read n)).position = s.position := by
  simp only [position, next, RecvBuf.read, RecvBuf.readable, List.length_append, List.length_take, List.length_drop]
  omega

theorem returned_read (s : Feed) (n : Nat) :
    (s.next (.read n)).returned ++ (s.next (.read n)).recv.buf = s.returned ++ s.recv.buf := by
  simp [next, RecvBuf.read, List.append_assoc]

end Feed

/-! ### Pieces of one stream -/

/-- A receive buffer with the intervals of the stream that have been inserted. -/
structure Assembly extends Feed where
  pieces : List (Span Nat) := []
  deriving DecidableEq

inductive AssemblyAction
  | insert (p : Span Nat)
  | read (n : Nat)

namespace Assembly

/-- The bytes of the stream `S`, whose first one has the sequence number `base`, arrive in pieces. -/
def next (base : BitVec 32) (S : List Byte) (s : Assembly) : AssemblyAction → Assembly
  | .insert p => ⟨s.toFeed.next (.insert (Serial.place base p.lo) (stretch S p)), p :: s.pieces⟩
  | .read n => ⟨s.toFeed.next (.read n), s.pieces⟩

def system (base : BitVec 32) (windowSize : Nat) (S : List Byte) : System Assembly AssemblyAction :=
  .ofNext (fun s => s = { recv := newRecvBuf base windowSize }) fun s a => some (s.next base S a)

/-- The piece is one of the stream, ends within the window, starts near `nxt` and finds room among the entries. -/
def Fits (S : List Byte) (s : Assembly) : AssemblyAction → Prop
  | .insert p =>
    p.lo ≤ p.hi ∧ p.hi ≤ S.length ∧ p.hi ≤ s.position + s.recv.windowSize ∧ s.position ≤ p.lo + 2 ^ 30 ∧
      p.lo ≤ s.position + 2 ^ 30 ∧ s.recv.ooo.length < maxOOOEntries
  | .read _ => True

instance (S : List Byte) (s : Assembly) : (a : AssemblyAction) → Decidable (s.Fits S a)
  | .insert _ => inferInstanceAs (Decidable (_ ∧ _))
  | .read _ => inferInstanceAs (Decidable True)

variable {base : BitVec 32} {S : List Byte} {W : Nat}

structure Follows (base : BitVec 32) (S : List Byte) (W : Nat) (t : Tracker Nat) (s : Assembly) : Prop where
  tracks : s.recv.Tracks base S t
  bytes : s.returned ++ s.recv.buf = S.take t.next
  covers : ∀ i, t.Covers i ↔ Covers s.pieces i
  windowSize : s.recv.windowSize = W

theorem Follows.position {t : Tracker Nat} {s : Assembly} (h : Follows base S W t s) : s.position = t.next := by
  have hlen := congrArg List.length h.bytes
  have hle := h.tracks.stream.1
  rw [List.length_append, List.length_take, Nat.min_eq_left hle] at hlen
  exact hlen

theorem follows_start (base : BitVec 32) (S : List Byte) (W : Nat) :
    Follows base S W (Tracker.start 0) { recv := newRecvBuf base W } where
  tracks := ⟨by simp [newRecvBuf, Tracker.start], rfl, ⟨Nat.zero_le _, by simp [Tracker.start]⟩,
    ⟨Nat.zero_le _, by simp [Tracker.start]⟩⟩
  bytes := by simp [newRecvBuf, Tracker.start]
  covers := by simp [Tracker.Covers, Tracker.start]
  windowSize := rfl

theorem Follows.next {t : Tracker Nat} {s : Assembly} {a : AssemblyAction} (h : Follows base S W t s) (hW : W ≤ 2 ^ 30)
    (ha : s.Fits S a) : ∃ t', Follows base S W t' (s.next base S a) := by
  cases a with
  | read n => exact ⟨t, ⟨h.tracks.nxt, h.tracks.ooo, h.tracks.stream, h.tracks.near⟩,
      (s.toFeed.returned_read n).trans h.bytes, h.covers, h.windowSize⟩
  | insert p =>
    obtain ⟨hp, hf, hnew, hold, -, hfull⟩ := ha
    have hpos := h.position
    have hsize := h.windowSize
    obtain ⟨htracks, hbuf⟩ := h.tracks.insert hp hf (by omega) (by omega) (by omega) hfull
    have hmono := Tracker.next_le_add p t
    refine ⟨t.add p, htracks, ?_, ?_, (RecvBuf.insert_extends _ _ _).windowSize.trans hsize⟩
    · show s.returned ++ (s.recv.insert _ _).1.buf = _
      rw [hbuf, ← List.append_assoc, h.bytes]
      exact stretch_append (f := S) (a := 0) (Nat.zero_le _) hmono
    · intro i
      rw [Tracker.covers_add, h.covers]
      exact covers_cons.symm

/-- What has been read and what is buffered is the longest beginning of the stream that the pieces cover, and `nxt` is its
end. -/
theorem reassembly (hW : W ≤ 2 ^ 30) {s : Assembly} (hr : (system base W S).Reach (Fits S) s) :
    ∃ m, IsGreatest {m | m ≤ S.length ∧ ∀ i < m, Covers s.pieces i} m ∧ s.recv.nxt = Serial.place base m ∧
      s.returned ++ s.recv.buf = S.take m := by
  have hinv : ∃ t, Follows base S W t s := by
    refine hr.invariant (I := fun s => ∃ t, Follows base S W t s) ?_ ?_
    · rintro s rfl
      exact ⟨_, follows_start base S W⟩
    · rintro s a s' - ⟨t, ht⟩ ha hs
      cases hs
      exact ht.next hW ha
  obtain ⟨t, ht⟩ := hinv
  have hiff : ∀ m, m ≤ t.next ↔ ∀ i < m, Covers s.pieces i := by
    intro m
    rw [t.le_next_iff]
    exact forall₂_congr fun i _ => ht.covers i
  refine ⟨t.next, ⟨⟨ht.tracks.stream.1, (hiff _).1 le_rfl⟩, ?_⟩, ht.tracks.nxt, ht.bytes⟩
  rintro m ⟨-, hm⟩
  exact (hiff m).2 hm

/-- Six bytes in overlapping pieces and out of order, across the end of the number space. -/
theorem reassembly_sixBytes :
    ∃ s, (system 0xFFFFFFFE 4 [1, 2, 3, 4, 5, 6]).Reach (Fits [1, 2, 3, 4, 5, 6]) s ∧
      s.returned = [1, 2, 3] ∧ s.recv.buf = [4, 5, 6] ∧ s.recv.nxt = 4 ∧
      ∃ m, IsGreatest {m | m ≤ [1, 2, 3, 4, 5, 6].length ∧ ∀ i < m, Covers s.pieces i} m ∧
        s.recv.nxt = Serial.place 0xFFFFFFFE m ∧ s.returned ++ s.recv.buf = [1, 2, 3, 4, 5, 6].take m := by
  let acts : List AssemblyAction :=
    [.insert ⟨2, 4⟩, .insert ⟨1, 3⟩, .insert ⟨0, 2⟩, .read 3, .insert ⟨5, 6⟩, .insert ⟨3, 6⟩]
  let start : Assembly := { recv := newRecvBuf 0xFFFFFFFE 4 }
  have hr : (system 0xFFFFFFFE 4 [1, 2, 3, 4, 5, 6]).Reach (Fits [1, 2, 3, 4, 5, 6])
      ((exec (fun s a => some (next 0xFFFFFFFE [1, 2, 3, 4, 5, 6] s a)) start acts).getD start) :=
    (System.Reach.init rfl).steps (exec_steps_getD (by decide +kernel) (by decide +kernel))
  exact ⟨_, hr, by decide +kernel, by decide +kernel, by decide +kernel, reassembly (by decide) hr⟩

end Assembly

/-! ### The bytes play no part in the bookkeeping -/

def OooEntry.map (g : Byte → Byte) (e : OooEntry) : OooEntry := { e with data := e.data.map g }

namespace RecvBuf

def map (g : Byte → Byte) (r : RecvBuf) : RecvBuf := { r with buf := r.buf.map g, ooo := r.ooo.map (OooEntry.map g) }

def OooAcc.map (g : Byte → Byte) (a : OooAcc) : OooAcc :=
  { a with data := a.data.map g, merged := a.merged.map (OooEntry.map g) }

def MergeAcc.map (g : Byte → Byte) (a : MergeAcc) : MergeAcc :=
  { a with buf := a.buf.map g, remaining := a.remaining.map (OooEntry.map g) }

variable (g : Byte → Byte)

@[simp] theorem endSeq_map (e : OooEntry) : (e.map g).endSeq = e.endSeq := by
  simp [OooEntry.endSeq, OooEntry.map]

theorem insertOOOStep_map (a : OooAcc) (e : OooEntry) :
    insertOOOStep (a.map g) (e.map g) = (insertOOOStep a e).map g := by
  unfold insertOOOStep
  rw [endSeq_map]
  by_cases hafter : seqAfterEq e.seq a.endSeq = true
  · have hafter' : seqAfterEq (e.map g).seq (a.map g).endSeq = true := hafter
    rw [if_pos hafter, if_pos hafter']
    cases hins : a.inserted <;> simp [OooAcc.map, hins, OooEntry.map]
  · have hafter' : ¬seqAfterEq (e.map g).seq (a.map g).endSeq = true := hafter
    rw [if_neg hafter, if_neg hafter']
    by_cases hbefore : seqAfterEq a.seq e.endSeq = true
    · have hbefore' : seqAfterEq (a.map g).seq e.endSeq = true := hbefore
      rw [if_pos hbefore, if_pos hbefore']
      simp [OooAcc.map]
    · have hbefore' : ¬seqAfterEq (a.map g).seq e.endSeq = true := hbefore
      rw [if_neg hbefore, if_neg hbefore']
      by_cases hl : seqBefore e.seq a.seq = true <;> by_cases hr : seqAfter e.endSeq a.endSeq = true <;>
        simp [OooAcc.map, OooEntry.map, hl, hr, List.map_take, List.map_drop]

theorem foldl_insertOOOStep_map (es : List OooEntry) (a : OooAcc) :
    (es.map (OooEntry.map g)).foldl insertOOOStep (a.map g) = (es.foldl insertOOOStep a).map g := by
  induction es generalizing a with
  | nil => rfl
  | cons e es ih => rw [List.map_cons, List.foldl_cons, List.foldl_cons, insertOOOStep_map, ih]

variable (r : RecvBuf) (seq : BitVec 32) (data : List Byte)

theorem insertOOO_map :
    (r.map g).insertOOO seq (data.map g) = (r.insertOOO seq data).map g := by
  have hfold := foldl_insertOOOStep_map g r.ooo { seq := seq, data := data, endSeq := seq + BitVec.ofNat 32 data.length }
  have hlen : (data.map g).length = data.length := List.length_map g
  unfold insertOOO
  rw [hlen]
  simp only [OooAcc.map, List.map_nil] at hfold
  simp only [map, hfold]
  split
  · rfl
  · simp [OooEntry.map]

theorem mergeStep_map (a : MergeAcc) (e : OooEntry) : mergeStep (a.map g) (e.map g) = (mergeStep a e).map g := by
  unfold mergeStep
  rw [endSeq_map]
  by_cases htake : (seqBeforeEq e.seq a.nxt && seqAfter e.endSeq a.nxt) = true
  · have htake' : (seqBeforeEq (e.map g).seq (a.map g).nxt && seqAfter e.endSeq (a.map g).nxt) = true := htake
    rw [if_pos htake, if_pos htake']
    simp [MergeAcc.map, OooEntry.map, List.map_drop]
  · have htake' : ¬(seqBeforeEq (e.map g).seq (a.map g).nxt && seqAfter e.endSeq (a.map g).nxt) = true := htake
    rw [if_neg htake, if_neg htake']
    by_cases hkeep : seqAfter e.seq a.nxt = true
    · have hkeep' : seqAfter (e.map g).seq (a.map g).nxt = true := hkeep
      rw [if_pos hkeep, if_pos hkeep']
      simp [MergeAcc.map]
    · have hkeep' : ¬seqAfter (e.map g).seq (a.map g).nxt = true := hkeep
      rw [if_neg hkeep, if_neg hkeep']

theorem mergePass_map : (r.map g).mergePass = r.mergePass.map g := by
  have key : ∀ (es : List OooEntry) (a : MergeAcc),
      (es.map (OooEntry.map g)).foldl mergeStep (a.map g) = (es.foldl mergeStep a).map g := by
    intro es
    induction es with
    | nil => intro a; rfl
    | cons e es ih =>
      intro a
      rw [List.map_cons, List.foldl_cons, List.foldl_cons, mergeStep_map, ih]
  exact key r.ooo { buf := r.buf, nxt := r.nxt }

theorem mergeLoop_map (fuel : Nat) (r : RecvBuf) : mergeLoop fuel (r.map g) = (mergeLoop fuel r).map g := by
  induction fuel generalizing r with
  | zero => rfl
  | succ fuel ih =>
    rw [mergeLoop_succ, mergeLoop_succ, mergePass_map]
    have hfound : (r.mergePass.map g).found = r.mergePass.found := rfl
    rw [hfound]
    split
    · exact ih { r with buf := r.mergePass.buf, nxt := r.mergePass.nxt, ooo := r.mergePass.remaining }
    · rfl

theorem mergeOOO_map : (r.map g).mergeOOO = r.mergeOOO.map g := by
  unfold mergeOOO
  rw [show (r.map g).ooo.length = r.ooo.length from List.length_map _, mergeLoop_map]

theorem place_map (endSeq : BitVec 32) :
    (place (r.map g) seq (data.map g) endSeq).1 = (place r seq data endSeq).1.map g := by
  have hnxt : (r.map g).nxt = r.nxt := rfl
  have hooo : (r.map g).ooo.length = r.ooo.length := List.length_map _
  unfold place
  rw [hnxt, hooo]
  split
  · rw [← mergeOOO_map]
    simp [map]
  · split
    · exact insertOOO_map g r seq data
    · rfl

theorem trimRight_map (endSeq : BitVec 32) :
    (trimRight (r.map g) seq (data.map g) endSeq).1 = (trimRight r seq data endSeq).1.map g := by
  have hnxt : (r.map g).nxt = r.nxt := rfl
  have hsize : (r.map g).windowSize = r.windowSize := rfl
  unfold trimRight
  simp only [hnxt, hsize, List.length_map]
  split
  · split
    · rfl
    · rw [← List.map_take, place_map]
  · exact place_map g r seq data endSeq

theorem insert_map :
    ((r.map g).insert seq (data.map g)).1 = (r.insert seq data).1.map g := by
  have hnxt : (r.map g).nxt = r.nxt := rfl
  unfold insert
  simp only [hnxt, List.length_map, List.map_eq_nil_iff]
  split
  · rfl
  · split
    · split
      · rfl
      · rw [← List.map_drop, trimRight_map]
    · exact trimRight_map g r seq data _

end RecvBuf

/-! ### Arbitrary bytes -/

namespace RecvBuf

def ahead (r : RecvBuf) (seq : BitVec 32) : Nat := (seq - r.nxt).toNat

/-- The out-of-order entries are few, not empty, in order without overlaps, and lie within the window after `nxt`. -/
structure OooInOrder (r : RecvBuf) : Prop where
  nonempty : ∀ e ∈ r.ooo, e.data ≠ []
  after : ∀ e ∈ r.ooo, 0 < r.ahead e.seq
  window : ∀ e ∈ r.ooo, r.ahead e.seq + e.data.length ≤ r.windowSize
  ordered : r.ooo.Pairwise fun e e' => r.ahead e.seq + e.data.length ≤ r.ahead e'.seq
  few : r.ooo.length ≤ maxOOOEntries

end RecvBuf

namespace Feed

/-- The segment starts within 2^30 of `nxt` on either side and carries at most 65535 bytes. -/
def Near (s : Feed) : FeedAction → Prop
  | .insert seq data =>
    data.length ≤ 65535 ∧ ((seq - s.recv.nxt).toNat ≤ 2 ^ 30 ∨ (s.recv.nxt - seq).toNat ≤ 2 ^ 30)
  | .read _ => True

instance (s : Feed) : (a : FeedAction) → Decidable (s.Near a)
  | .insert _ _ => inferInstanceAs (Decidable (_ ∧ _))
  | .read _ => inferInstanceAs (Decidable True)

variable {base : BitVec 32} {n₀ W : Nat}

/-- The buffer with its bytes blanked follows a tracker. Its positions start at `n₀`, so that a segment before the
first expected number has one as well. -/
structure Follows (base : BitVec 32) (n₀ W : Nat) (t : Tracker Nat) (s : Feed) : Prop where
  tracks : ∃ N, (s.recv.map fun _ => 0).Tracks base (List.replicate N 0) t
  position : t.next = n₀ + s.position
  window : t.Below (t.next + W)
  few : t.held.length ≤ maxOOOEntries
  windowSize : s.recv.windowSize = W

theorem follows_start (base : BitVec 32) (n₀ W : Nat) :
    Follows base n₀ W (Tracker.start n₀) { recv := newRecvBuf (Serial.place base n₀) W } where
  tracks := ⟨n₀, rfl, rfl, ⟨by simp [Tracker.start], by simp [Tracker.start]⟩,
    ⟨by simp [Tracker.start], by simp [Tracker.start]⟩⟩
  position := rfl
  window := ⟨Nat.le_add_right _ _, by simp [Tracker.start]⟩
  few := Nat.zero_le _
  windowSize := rfl

theorem stretch_replicate {p : Span Nat} {N : Nat} (h : p.hi ≤ N) :
    stretch (List.replicate N (0 : Byte)) p = List.replicate (p.hi - p.lo) 0 := by
  rw [stretch, List.drop_replicate, List.take_replicate]
  congr 1
  omega

theorem exists_position {base seq nxt : BitVec 32} {n : Nat} (hnxt : nxt = Serial.place base n) (hn : 2 ^ 30 ≤ n)
    (h : (seq - nxt).toNat ≤ 2 ^ 30 ∨ (nxt - seq).toNat ≤ 2 ^ 30) :
    ∃ lo, seq = Serial.place base lo ∧ n ≤ lo + 2 ^ 30 ∧ lo ≤ n + 2 ^ 30 := by
  rcases h with h | h
  · refine ⟨n + (seq - nxt).toNat, ?_, by omega, by omega⟩
    rw [← Serial.place_place, ← hnxt, Serial.place_toNat_sub]
  · refine ⟨n - (nxt - seq).toNat, ?_, by omega, by omega⟩
    have hback : Serial.place (Serial.place base (n - (nxt - seq).toNat)) (nxt - seq).toNat =
        Serial.place seq (nxt - seq).toNat := by
      rw [Serial.place_place, Nat.sub_add_cancel (h.trans hn), ← hnxt, Serial.place_toNat_sub]
    exact (BitVec.add_left_inj _).1 hback.symm

variable {t : Tracker Nat} {s : Feed}

theorem Follows.next {a : FeedAction} (h : Follows base n₀ W t s) (hn₀ : 2 ^ 30 ≤ n₀)
    (hlo : 1 ≤ W) (hhi : W ≤ 2 ^ 30) (ha : s.Near a) :
    ∃ t', Follows base n₀ W t' (s.next a) ∧ ∀ i, t.Covers i → t'.Covers i := by
  obtain ⟨⟨N, ht⟩, hpos, hwin, hfew, hsize⟩ := h
  cases a with
  | read n =>
    refine ⟨t, ⟨⟨N, ht.nxt, ht.ooo, ht.stream, ht.near⟩, ?_, hwin, hfew, hsize⟩, fun i hi => hi⟩
    rw [position_read]
    exact hpos
  | insert seq data =>
    obtain ⟨hlen, hnear⟩ := ha
    obtain ⟨lo, rfl, hold, hnew⟩ := exists_position ht.nxt (by omega) hnear
    -- a stream of zeros that is long enough for the segment
    have hf : List.replicate N (0 : Byte) <+: List.replicate (N + (lo + data.length)) 0 := by
      rw [List.replicate_add]
      exact List.prefix_append _ _
    have ht' := ht.extend hf
    have hdata : data.map (fun _ => (0 : Byte)) =
        stretch (List.replicate (N + (lo + data.length)) 0) ⟨lo, lo + data.length⟩ := by
      rw [stretch_replicate (by simp only; omega), List.map_const']
      congr 1
      simp
    have hins := ht'.insert_eq (p := ⟨lo, lo + data.length⟩) (Nat.le_add_right _ _)
      (by simp only [List.length_replicate]; omega) (by show s.recv.windowSize ≤ 2 ^ 31; omega) (by simp only; omega)
      (by simp only; omega)
    rw [← hdata, RecvBuf.insert_map] at hins
    simp only at hins
    have hread : (s.next (.insert (Serial.place base lo) data)).recv.readable =
        ((s.recv.insert (Serial.place base lo) data).1.map fun _ => 0).buf.length := (List.length_map _).symm
    have hread₀ : s.recv.readable = (s.recv.map fun _ => 0).buf.length := (List.length_map _).symm
    have hsize' : (s.next (.insert (Serial.place base lo) data)).recv.windowSize = W :=
      (RecvBuf.insert_extends _ _ _).windowSize.trans hsize
    have hpos₀ : t.next = n₀ + (s.returned.length + s.recv.readable) := hpos
    split at hins
    · -- the buffer is full of entries
      refine ⟨t, ⟨⟨_, hins ▸ ht'⟩, ?_, hwin, hfew, hsize'⟩, fun i hi => hi⟩
      show t.next = n₀ + (s.returned.length + _)
      rw [hread, hins, ← hread₀]
      exact hpos₀
    · rename_i hroom
      have hooo : (s.recv.map fun _ => 0).ooo.length = t.held.length := by rw [ht.ooo, List.length_map]
      rw [hooo] at hroom
      have hkept : (s.recv.map fun _ => 0).keptEnd t.next (lo + data.length) ≤ t.next + W := by
        rw [RecvBuf.keptEnd, if_neg (by show s.recv.windowSize ≠ 0; omega)]
        exact (min_le_right _ _).trans_eq (congrArg (t.next + ·) hsize)
      have hend := (s.recv.map fun _ => 0).keptEnd_le t.next (lo + data.length)
      generalize (s.recv.map fun _ => 0).keptEnd t.next (lo + data.length) = hi at hins hkept hend
      have hmono := Tracker.next_le_add ⟨lo, hi⟩ t
      have htracks := ht'.add (p := ⟨lo, hi⟩) (by simp only [List.length_replicate]; omega) (by simp only; omega)
      refine ⟨t.add ⟨lo, hi⟩, ⟨⟨_, hins ▸ htracks⟩, ?_, (hwin.add hkept).mono (by omega), ?_, hsize'⟩,
        fun i hi => (Tracker.covers_add _ _ _).2 (.inr hi)⟩
      · have hlength : ((s.recv.insert (Serial.place base lo) data).1.map fun _ => 0).buf.length =
            (s.recv.map fun _ => 0).buf.length + ((t.add ⟨lo, hi⟩).next - t.next) := by
          rw [hins, RecvBuf.advance, List.length_append, length_stretch htracks.stream.1]
        show _ = n₀ + (s.returned.length + _)
        omega
      · rcases Tracker.length_held_add_le ⟨lo, hi⟩ t with hle | ⟨hgap, hle⟩
        · exact hle.trans hfew
        · have hroom' := not_and.1 hroom hgap
          omega

theorem Follows.entries (h : Follows base n₀ W t s) :
    s.recv.ooo.map (fun e => (e.seq, e.data.length)) = t.held.map fun p => (Serial.place base p.lo, p.hi - p.lo) := by
  obtain ⟨N, ht⟩ := h.tracks
  have hshape := congrArg (List.map fun e => (e.seq, e.data.length)) ht.ooo
  rw [RecvBuf.map, List.map_map, List.map_map] at hshape
  have hleft : (fun e : OooEntry => (e.seq, e.data.length)) ∘ OooEntry.map (fun _ => 0) =
      fun e => (e.seq, e.data.length) := by
    funext e
    simp [OooEntry.map]
  rw [hleft] at hshape
  refine hshape.trans (List.map_congr_left fun p hp => ?_)
  simp only [Function.comp_apply, RecvBuf.entry, length_stretch (ht.stream.2 p hp)]

theorem Follows.ahead (h : Follows base n₀ W t s) {x : Nat} (hx : t.next ≤ x)
    (hx' : x < t.next + 2 ^ 32) : s.recv.ahead (Serial.place base x) = x - t.next := by
  obtain ⟨N, ht⟩ := h.tracks
  have hnxt : s.recv.nxt = Serial.place base t.next := ht.nxt
  rw [RecvBuf.ahead, hnxt]
  exact Serial.toNat_place_sub hx (by omega)

theorem Follows.oooInOrder (h : Follows base n₀ W t s) (hhi : W ≤ 2 ^ 30) :
    s.recv.OooInOrder := by
  have hshape := h.entries
  have hlen : s.recv.ooo.length = t.held.length := by
    simpa using congrArg List.length hshape
  -- what an interval of the tracker says about its entry
  have hheld : ∀ p ∈ t.held, s.recv.ahead (Serial.place base p.lo) = p.lo - t.next ∧ t.next < p.lo ∧ p.lo < p.hi ∧
      p.hi ≤ t.next + W := by
    intro p hp
    have hbeyond := t.beyond p hp
    have hlt := t.ordered.lt hp
    have hwin := h.window.2 p hp
    exact ⟨h.ahead hbeyond.le (by omega), hbeyond, hlt, hwin⟩
  have hall : ∀ e ∈ s.recv.ooo, ∃ p ∈ t.held, e.seq = Serial.place base p.lo ∧ e.data.length = p.hi - p.lo := by
    intro e he
    have hmem : (e.seq, e.data.length) ∈ s.recv.ooo.map fun e => (e.seq, e.data.length) := List.mem_map_of_mem he
    rw [hshape] at hmem
    obtain ⟨p, hp, heq⟩ := List.mem_map.1 hmem
    obtain ⟨hseq, hdata⟩ := Prod.mk.inj heq
    exact ⟨p, hp, hseq.symm, hdata.symm⟩
  refine ⟨?_, ?_, ?_, ?_, hlen.trans_le h.few⟩
  · intro e he hnil
    obtain ⟨p, hp, -, hdata⟩ := hall e he
    have hlt := t.ordered.lt hp
    rw [hnil, List.length_nil] at hdata
    omega
  · intro e he
    obtain ⟨p, hp, hseq, -⟩ := hall e he
    obtain ⟨hahead, hbeyond, -, -⟩ := hheld p hp
    rw [hseq, hahead]
    omega
  · intro e he
    obtain ⟨p, hp, hseq, hdata⟩ := hall e he
    obtain ⟨hahead, hbeyond, hlt, hwin⟩ := hheld p hp
    rw [hseq, hahead, hdata, h.windowSize]
    omega
  · have hpair : (s.recv.ooo.map fun e => (e.seq, e.data.length)).Pairwise
        fun x y => s.recv.ahead x.1 + x.2 ≤ s.recv.ahead y.1 := by
      rw [hshape, List.pairwise_map]
      refine t.ordered.pairwise.imp_of_mem fun {p q} hp hq hle => ?_
      obtain ⟨hahead, hbeyond, hlt, -⟩ := hheld p hp
      obtain ⟨hahead', hbeyond', -, -⟩ := hheld q hq
      simp only [hahead, hahead']
      omega
    exact List.pairwise_map.1 hpair

theorem Follows.covers_sackBlocks (h : Follows base n₀ W t s) (hhi : W ≤ 2 ^ 30)
    {b : SACKBlock} (hb : b ∈ s.recv.sackBlocks) {x : Nat} (hlo : s.position + s.recv.ahead b.left ≤ x)
    (hx : x < s.position + s.recv.ahead b.right) : t.Covers (n₀ + x) := by
  obtain ⟨e, he, rfl⟩ := List.mem_map.1 hb
  have hmem : (e.seq, e.data.length) ∈ s.recv.ooo.map fun e => (e.seq, e.data.length) :=
    List.mem_map_of_mem (List.mem_of_mem_take he)
  rw [h.entries] at hmem
  obtain ⟨p, hp, heq⟩ := List.mem_map.1 hmem
  obtain ⟨hseq, hdata⟩ := Prod.mk.inj heq
  have hbeyond := t.beyond p hp
  have hlt := t.ordered.lt hp
  have hwin := h.window.2 p hp
  have hright : e.endSeq = Serial.place base p.hi := by
    rw [OooEntry.endSeq, ← hseq, ← hdata, ← Serial.place_add, Nat.add_sub_of_le hlt.le]
  have hpos := h.position
  simp only [hright, ← hseq] at hlo hx
  rw [h.ahead hbeyond.le (by omega)] at hlo
  rw [h.ahead (by omega) (by omega)] at hx
  exact .inr ⟨p, hp, by omega, by omega⟩

/-- The entries stay in order within the window; and once a block has been reported, `nxt`, which stands for the position
`position`, never comes to lie inside it. -/
theorem ooo_ordered_and_kept {initialNxt : BitVec 32} (hlo : 1 ≤ W) (hhi : W ≤ 2 ^ 30) {s : Feed}
    (hr : (system initialNxt W).Reach Near s) :
    s.recv.OooInOrder ∧ s.recv.nxt = Serial.place initialNxt s.position ∧
      ∀ b ∈ s.recv.sackBlocks, ∀ u, (system initialNxt W).Steps Near s u →
        ¬(s.position + s.recv.ahead b.left ≤ u.position ∧ u.position < s.position + s.recv.ahead b.right) := by
  obtain ⟨base, hbase⟩ : ∃ base : BitVec 32, Serial.place base (2 ^ 30) = initialNxt :=
    ⟨initialNxt - BitVec.ofNat 32 (2 ^ 30), BitVec.sub_add_cancel _ _⟩
  have hinv : ∃ t, Follows base (2 ^ 30) W t s := by
    refine hr.invariant (I := fun s => ∃ t, Follows base (2 ^ 30) W t s) ?_ ?_
    · rintro s rfl
      exact ⟨_, hbase ▸ follows_start base (2 ^ 30) W⟩
    · rintro s a s' - ⟨t, ht⟩ ha hs
      cases hs
      obtain ⟨t', ht', -⟩ := ht.next le_rfl hlo hhi ha
      exact ⟨t', ht'⟩
  obtain ⟨t, ht⟩ := hinv
  refine ⟨ht.oooInOrder hhi, ?_, ?_⟩
  · obtain ⟨N, htracks⟩ := ht.tracks
    have hnxt : s.recv.nxt = Serial.place base t.next := htracks.nxt
    rw [hnxt, ht.position, ← hbase, Serial.place_place]
  · rintro b hb u hu ⟨hin, hin'⟩
    -- whatever the tracker covers it goes on covering, and it does not cover its next position
    have hlater : ∃ t', Follows base (2 ^ 30) W t' u ∧ ∀ i, t.Covers i → t'.Covers i := by
      refine hu.induction (I := fun u => ∃ t', Follows base (2 ^ 30) W t' u ∧ ∀ i, t.Covers i → t'.Covers i)
        ⟨t, ht, fun i hi => hi⟩ ?_
      rintro u a u' ⟨t₁, ht₁, hcov⟩ ha hs
      cases hs
      obtain ⟨t₂, ht₂, hcov'⟩ := ht₁.next le_rfl hlo hhi ha
      exact ⟨t₂, ht₂, fun i hi => hcov' i (hcov i hi)⟩
    obtain ⟨t', ht', hcov⟩ := hlater
    have hcovered := hcov _ (ht.covers_sackBlocks hhi hb hin hin')
    rw [← ht'.position] at hcovered
    exact t'.not_covers_next hcovered

theorem ooo_ordered_and_kept_twoEntries :
    ∃ s : Feed, (system 0xFFFFFFFA 20).Reach Near s ∧ s.recv.sackBlocks = [⟨0xFFFFFFFC, 1⟩, ⟨4, 6⟩] ∧
      s.recv.OooInOrder ∧ s.recv.nxt = Serial.place 0xFFFFFFFA s.position ∧
      ∀ b ∈ s.recv.sackBlocks, ∀ u, (system 0xFFFFFFFA 20).Steps Near s u →
        ¬(s.position + s.recv.ahead b.left ≤ u.position ∧ u.position < s.position + s.recv.ahead b.right) := by
  let acts : List FeedAction :=
    [.insert 0xFFFFFFFE [1, 2, 3], .insert 4 [8, 9], .insert 0xFFFFFFFC [7, 7, 7], .insert 0xFFFFFFF0 [5]]
  let start : Feed := { recv := newRecvBuf 0xFFFFFFFA 20 }
  have hr : (system 0xFFFFFFFA 20).Reach Near ((exec (fun s a => some (next s a)) start acts).getD start) :=
    (System.Reach.init rfl).steps (exec_steps_getD (by decide +kernel) (by decide +kernel))
  exact ⟨_, hr, by decide +kernel, ooo_ordered_and_kept (by decide) (by decide) hr⟩

end Feed

/-! ### What `Insert` reports -/

namespace RecvBuf

def rightEdge (r : RecvBuf) : BitVec 32 := r.nxt + BitVec.ofNat 32 r.windowSize

def Overruns (r : RecvBuf) (seq : BitVec 32) (data : List Byte) : Prop :=
  r.windowSize > 0 ∧ seqAfter (seq + BitVec.ofNat 32 data.length) r.rightEdge = true

instance (r : RecvBuf) (seq : BitVec 32) (data : List Byte) : Decidable (r.Overruns seq data) :=
  inferInstanceAs (Decidable (_ ∧ _))

/-- The segment has new bytes that follow the in-order ones at once, and the window has room for some of them. -/
def Continues (r : RecvBuf) (seq : BitVec 32) (data : List Byte) : Prop :=
  (data ≠ [] ∧ seq = r.nxt ∨ seqBefore seq r.nxt = true ∧ r.nxt - seq < BitVec.ofNat 32 data.length) ∧
    (r.Overruns seq data → seq + BitVec.ofNat 32 data.length - r.rightEdge <
      BitVec.ofNat 32 (data.drop (r.nxt - seq).toNat).length)

def stop (r : RecvBuf) (seq : BitVec 32) (data : List Byte) : BitVec 32 :=
  if r.Overruns seq data then r.rightEdge else seq + BitVec.ofNat 32 data.length

/-- The entry starts at or before the number and ends after it; `mergeOOO` takes such an entry. -/
def Connects (nxt : BitVec 32) (e : OooEntry) : Prop := seqBeforeEq e.seq nxt = true ∧ seqAfter e.endSeq nxt = true

/-- The segment continues the in-order bytes, and an out-of-order entry continues the segment. -/
def Joins (r : RecvBuf) (seq : BitVec 32) (data : List Byte) : Prop :=
  r.Continues seq data ∧ ∃ e ∈ r.ooo, Connects (r.stop seq data) e

/-- `Insert` returns the number of the bytes that became readable and by which `nxt` moved on, and so tells whether
there is something new to read. -/
def Reports (r : RecvBuf) (seq : BitVec 32) (data : List Byte) : Prop :=
  (r.insert seq data).1.readable = r.readable + (r.insert seq data).2 ∧
    (r.insert seq data).1.nxt = Serial.place r.nxt (r.insert seq data).2 ∧
    ((r.insert seq data).2 > 0 ↔ r.readable < (r.insert seq data).1.readable)

variable {a : MergeAcc}

theorem mergeStep_of_not_connects {e : OooEntry} (h : ¬Connects a.nxt e) :
    (mergeStep a e).buf = a.buf ∧ (mergeStep a e).nxt = a.nxt ∧ (mergeStep a e).found = a.found := by
  unfold mergeStep
  rw [if_neg fun hb => h (Bool.and_eq_true_iff.1 hb)]
  split <;> exact ⟨rfl, rfl, rfl⟩

theorem mergeStep_of_connects {e : OooEntry} (h : Connects a.nxt e) :
    a.buf.length < (mergeStep a e).buf.length := by
  obtain ⟨hlo, hhi⟩ := h
  have hnew : (e.data.drop (a.nxt - e.seq).toNat).length ≠ 0 := by
    intro hzero
    have hend := (straddle hlo hhi).2
    rw [hzero, Serial.place_zero] at hend
    rw [hend, seqAfter] at hhi
    simp at hhi
  unfold mergeStep
  rw [if_pos (Bool.and_eq_true_iff.2 ⟨hlo, hhi⟩)]
  simp only [List.length_append]
  omega

theorem foldl_mergeStep_of_not_connects {es : List OooEntry} (h : ∀ e ∈ es, ¬Connects a.nxt e) :
    (es.foldl mergeStep a).buf = a.buf ∧ (es.foldl mergeStep a).nxt = a.nxt ∧
      (es.foldl mergeStep a).found = a.found := by
  induction es generalizing a with
  | nil => exact ⟨rfl, rfl, rfl⟩
  | cons e es ih =>
    obtain ⟨hbuf, hnxt, hfound⟩ := mergeStep_of_not_connects (h e (by simp))
    obtain ⟨hbuf', hnxt', hfound'⟩ := ih (a := mergeStep a e) fun e' he' => by
      rw [hnxt]
      exact h e' (by simp [he'])
    rw [List.foldl_cons]
    exact ⟨hbuf'.trans hbuf, hnxt'.trans hnxt, hfound'.trans hfound⟩

theorem foldl_mergeStep_of_connects {es : List OooEntry} (h : ∃ e ∈ es, Connects a.nxt e) :
    a.buf.length < (es.foldl mergeStep a).buf.length := by
  induction es generalizing a with
  | nil => simp at h
  | cons e es ih =>
    rw [List.foldl_cons]
    by_cases he : Connects a.nxt e
    · obtain ⟨b, hb, -⟩ := foldl_mergeStep_extends es (mergeStep a e)
      have := mergeStep_of_connects he
      rw [hb, List.length_append]
      omega
    · obtain ⟨hbuf, hnxt, -⟩ := mergeStep_of_not_connects he
      obtain ⟨e', he', hconn⟩ := h
      rcases List.mem_cons.1 he' with rfl | he'
      · exact absurd hconn he
      · rw [← hbuf]
        exact ih ⟨e', he', by rw [hnxt]; exact hconn⟩

variable (r : RecvBuf)

theorem readable_mergeOOO_iff : r.mergeOOO.readable = r.readable ↔ ∀ e ∈ r.ooo, ¬Connects r.nxt e := by
  unfold mergeOOO
  rw [mergeLoop_succ]
  constructor
  · intro heq e he hconn
    have hmore : r.readable < r.mergePass.buf.length :=
      foldl_mergeStep_of_connects (a := { buf := r.buf, nxt := r.nxt }) ⟨e, he, hconn⟩
    split at heq
    · obtain ⟨b, hb, -⟩ := (mergeLoop_extends r.ooo.length
        { r with buf := r.mergePass.buf, nxt := r.mergePass.nxt, ooo := r.mergePass.remaining }).nxt
      rw [readable, hb, List.length_append] at heq
      simp only at heq
      omega
    · exact absurd heq hmore.ne'
  · intro hnone
    obtain ⟨hbuf, -, hfound⟩ := foldl_mergeStep_of_not_connects (a := { buf := r.buf, nxt := r.nxt }) hnone
    have hfound' : r.mergePass.found = false := hfound
    rw [if_neg (by rw [hfound']; exact Bool.false_ne_true)]
    exact congrArg List.length hbuf

theorem place_gap {seq : BitVec 32} (data : List Byte) (endSeq : BitVec 32) (h : seq ≠ r.nxt) :
    (place r seq data endSeq).1.buf = r.buf ∧ (place r seq data endSeq).1.nxt = r.nxt ∧
      (place r seq data endSeq).2 = 0 := by
  unfold place
  rw [if_neg h]
  split <;> exact ⟨rfl, rfl, rfl⟩

theorem trimRight_gap {seq : BitVec 32} (data : List Byte) (endSeq : BitVec 32) (h : seq ≠ r.nxt) :
    (trimRight r seq data endSeq).1.buf = r.buf ∧ (trimRight r seq data endSeq).1.nxt = r.nxt ∧
      (trimRight r seq data endSeq).2 = 0 := by
  unfold trimRight
  simp only
  split
  · split
    · exact ⟨rfl, rfl, rfl⟩
    · exact place_gap r _ _ h
  · exact place_gap r _ _ h

theorem trimRight_next (seq : BitVec 32) (data : List Byte) {d : List Byte} (hd : d ≠ []) :
    ((r.Overruns seq data → seq + BitVec.ofNat 32 data.length - r.rightEdge < BitVec.ofNat 32 d.length) ∧
      ∃ d' ≠ [], trimRight r r.nxt d (seq + BitVec.ofNat 32 data.length) =
        (mergeOOO { r with buf := r.buf ++ d', nxt := r.stop seq data }, d'.length)) ∨
    (¬(r.Overruns seq data → seq + BitVec.ofNat 32 data.length - r.rightEdge < BitVec.ofNat 32 d.length) ∧
      trimRight r r.nxt d (seq + BitVec.ofNat 32 data.length) = (r, 0)) := by
  have hplace : ∀ d' endSeq, place r r.nxt d' endSeq = (mergeOOO { r with buf := r.buf ++ d', nxt := endSeq }, d'.length) :=
    fun _ _ => if_pos rfl
  unfold trimRight stop
  by_cases hover : r.Overruns seq data
  · have hover' : r.windowSize > 0 ∧
        seqAfter (seq + BitVec.ofNat 32 data.length) (r.nxt + BitVec.ofNat 32 r.windowSize) = true := hover
    simp only [if_pos hover', hover, forall_const, hplace]
    by_cases hbeyond : BitVec.ofNat 32 d.length ≤ seq + BitVec.ofNat 32 data.length - r.rightEdge
    · exact .inr ⟨BitVec.not_lt.2 hbeyond, if_pos hbeyond⟩
    · refine .inl ⟨BitVec.not_le.1 hbeyond, _, ?_, if_neg hbeyond⟩
      have hlt := BitVec.not_le.1 hbeyond
      rw [rightEdge] at hlt
      have hpos : (BitVec.ofNat 32 d.length -
          (seq + BitVec.ofNat 32 data.length - (r.nxt + BitVec.ofNat 32 r.windowSize))).toNat ≠ 0 := by
        rw [BitVec.toNat_sub_of_le (BitVec.le_of_lt hlt)]
        have := BitVec.lt_def.1 hlt
        omega
      simp only [ne_eq, List.take_eq_nil_iff, hpos, hd, or_self, not_false_eq_true]
  · have hover' : ¬(r.windowSize > 0 ∧
        seqAfter (seq + BitVec.ofNat 32 data.length) (r.nxt + BitVec.ofNat 32 r.windowSize) = true) := hover
    simp only [if_neg hover, if_neg hover', hplace]
    exact .inl ⟨fun h => absurd h hover, d, hd, rfl⟩

theorem insert_cases (seq : BitVec 32) (data : List Byte) :
    (r.Continues seq data ∧ ∃ d ≠ [],
      r.insert seq data = (mergeOOO { r with buf := r.buf ++ d, nxt := r.stop seq data }, d.length)) ∨
    (¬r.Continues seq data ∧ (r.insert seq data).1.buf = r.buf ∧ (r.insert seq data).1.nxt = r.nxt ∧
      (r.insert seq data).2 = 0) := by
  -- the segment has new bytes `d` that are in order
  have hnext : ∀ d ≠ [], d = data.drop (r.nxt - seq).toNat →
      (data ≠ [] ∧ seq = r.nxt ∨ seqBefore seq r.nxt = true ∧ r.nxt - seq < BitVec.ofNat 32 data.length) →
      r.insert seq data = trimRight r r.nxt d (seq + BitVec.ofNat 32 data.length) →
      (r.Continues seq data ∧ ∃ d ≠ [],
        r.insert seq data = (mergeOOO { r with buf := r.buf ++ d, nxt := r.stop seq data }, d.length)) ∨
      (¬r.Continues seq data ∧ (r.insert seq data).1.buf = r.buf ∧ (r.insert seq data).1.nxt = r.nxt ∧
        (r.insert seq data).2 = 0) := by
    intro d hd hcut hnew hins
    rw [hins]
    rcases r.trimRight_next seq data hd with ⟨hroom, hd'⟩ | ⟨hroom, heq⟩
    · exact .inl ⟨⟨hnew, hcut ▸ hroom⟩, hd'⟩
    · rw [heq]
      exact .inr ⟨fun h => hroom (hcut ▸ h.2), rfl, rfl, rfl⟩
  by_cases hnil : data = []
  · right
    rw [hnil]
    refine ⟨?_, rfl, rfl, rfl⟩
    rintro ⟨⟨hne, -⟩ | ⟨-, hlt⟩, -⟩
    · exact hne rfl
    · exact absurd hlt (by simp)
  by_cases hbefore : seqBefore seq r.nxt = true
  · by_cases hdup : BitVec.ofNat 32 data.length ≤ r.nxt - seq
    · right
      have hins : r.insert seq data = (r, 0) := by
        unfold insert
        simp only [if_neg hnil, if_pos hbefore, if_pos hdup]
      rw [hins]
      refine ⟨?_, rfl, rfl, rfl⟩
      rintro ⟨⟨-, heq⟩ | ⟨-, hlt⟩, -⟩
      · rw [heq] at hbefore
        simp [seqBefore] at hbefore
      · exact absurd hlt (BitVec.not_lt.2 hdup)
    · have hlt := BitVec.not_le.1 hdup
      refine hnext (data.drop (r.nxt - seq).toNat) ?_ rfl (.inr ⟨hbefore, hlt⟩) ?_
      · rw [Ne, List.drop_eq_nil_iff, not_le]
        have hmod := Nat.mod_le data.length (2 ^ 32)
        have := BitVec.lt_def.1 hlt
        rw [BitVec.toNat_ofNat] at this
        omega
      · unfold insert
        simp only [if_neg hnil, if_pos hbefore, if_neg hdup]
  · have hins : r.insert seq data = trimRight r seq data (seq + BitVec.ofNat 32 data.length) := by
      unfold insert
      simp only [if_neg hnil, if_neg hbefore]
    by_cases hseq : seq = r.nxt
    · refine hnext data hnil ?_ (.inl ⟨hnil, hseq⟩) ?_
      · rw [hseq, BitVec.sub_self]
        rfl
      · rw [hins, hseq]
    · right
      rw [hins]
      refine ⟨?_, trimRight_gap r _ _ hseq⟩
      rintro ⟨⟨-, heq⟩ | ⟨hb, -⟩, -⟩
      · exact hseq heq
      · exact hbefore hb

/-- `Insert` reports what became readable exactly if no out-of-order entry continues the segment. -/
theorem insert_reports_iff (r : RecvBuf) (seq : BitVec 32) (data : List Byte) :
    r.Reports seq data ↔ ¬r.Joins seq data := by
  obtain ⟨b, hbuf, hnxt⟩ := (r.insert_extends seq data).nxt
  have hread : (r.insert seq data).1.readable = r.readable + b.length := by
    rw [readable, hbuf, List.length_append, readable]
  unfold Reports Joins
  rw [hread, hnxt]
  rcases r.insert_cases seq data with ⟨hcont, d, hd, hins⟩ | ⟨hcont, hbuf', -, hcount⟩
  · have hpos := List.length_pos_iff.2 hd
    have hmore := readable_mergeOOO_iff { r with buf := r.buf ++ d, nxt := r.stop seq data }
    have hnew : (mergeOOO { r with buf := r.buf ++ d, nxt := r.stop seq data }).readable = r.readable + b.length := by
      rw [← hread, hins]
    have hold : readable { r with buf := r.buf ++ d, nxt := r.stop seq data } = r.readable + d.length :=
      List.length_append
    rw [hnew, hold] at hmore
    have hle : d.length ≤ b.length := by
      obtain ⟨b', hb', -⟩ := (mergeLoop_extends (r.ooo.length + 1)
        { r with buf := r.buf ++ d, nxt := r.stop seq data }).nxt
      have := congrArg List.length hb'
      have hnew' := hnew
      rw [readable, mergeOOO, hb', readable] at hnew'
      simp only [List.length_append] at hnew'
      omega
    have hcount : (r.insert seq data).2 = d.length := by rw [hins]
    rw [hcount]
    constructor
    · rintro ⟨heq, -, -⟩ ⟨-, e, he, hconn⟩
      exact hmore.1 heq e he hconn
    · intro hnone
      have heq := hmore.2 fun e he hconn => hnone ⟨hcont, e, he, hconn⟩
      have hlen : b.length = d.length := by omega
      exact ⟨heq, by rw [hlen], by omega⟩
  · rw [hbuf'] at hbuf
    have hb : b.length = 0 := by
      have := congrArg List.length hbuf
      rw [List.length_append] at this
      omega
    rw [hcount, hb]
    exact ⟨fun _ h => hcont h.1, fun _ => ⟨rfl, rfl, by omega⟩⟩

/-- The second of two bytes arrives first; when the first one follows, two bytes become readable and 1 is returned. -/
theorem insert_reports_too_few :
    ∃ s : Feed, (Feed.system 100 1000).Reach anyStep s ∧ s.recv.readable = 0 ∧ (s.recv.insert 100 [1]).1.readable = 2 ∧
      (s.recv.insert 100 [1]).2 = 1 ∧ ¬s.recv.Reports 100 [1] := by
  refine ⟨Feed.next { recv := newRecvBuf 100 1000 } (.insert 101 [2]), (System.Reach.init rfl).step trivial rfl,
    by decide +kernel, by decide +kernel, by decide +kernel, ?_⟩
  rintro ⟨hcount, -⟩
  exact absurd hcount (by decide +kernel)

end RecvBuf

end Libp2px.Vtcp
