import Libp2px.Vtcp.Segment

/-!
# The receive buffer

`vtcp/recvbuf.go`: in-order bytes ready for `Read`, the next expected sequence number, and the out-of-order entries.
-/

namespace Libp2px.Vtcp

def maxOOOEntries : Nat := 128

structure OooEntry where
  seq : BitVec 32
  data : List Byte
  deriving DecidableEq, Repr

structure RecvBuf where
  buf : List Byte := []
  nxt : BitVec 32
  ooo : List OooEntry := []
  windowSize : Nat
  /-- Ghost: the sequence number the buffer was created with. -/
  initialNxt : BitVec 32
  /-- Ghost: how many FINs have been consumed. -/
  fins : Nat := 0
  deriving DecidableEq, Repr

def newRecvBuf (initialNxt : BitVec 32) (windowSize : Nat) : RecvBuf where
  nxt := initialNxt
  windowSize := windowSize
  initialNxt := initialNxt

def OooEntry.endSeq (e : OooEntry) : BitVec 32 := e.seq + BitVec.ofNat 32 e.data.length

namespace RecvBuf

/-- `Window`: the free receive space. -/
def window (r : RecvBuf) : BitVec 32 :=
  if r.windowSize = 0 then 65535
  else
    let used := r.buf.length + (r.ooo.map fun e => e.data.length).sum
    if r.windowSize < used then 0 else BitVec.ofNat 32 (r.windowSize - used)

/-- What the loop of `insertOOO` carries: the segment as extended so far, and the list built so far. -/
structure OooAcc where
  seq : BitVec 32
  data : List Byte
  endSeq : BitVec 32
  merged : List OooEntry := []
  inserted : Bool := false

def insertOOOStep (a : OooAcc) (e : OooEntry) : OooAcc :=
  if seqAfterEq e.seq a.endSeq then
    -- `e` is entirely after the segment
    if a.inserted then { a with merged := a.merged ++ [e] }
    else { a with merged := a.merged ++ [⟨a.seq, a.data⟩, e], inserted := true }
  else if seqAfterEq a.seq e.endSeq then
    -- `e` is entirely before the segment
    { a with merged := a.merged ++ [e] }
  else
    -- overlap: the segment takes over what `e` has on either side of it
    let l : OooAcc :=
      if seqBefore e.seq a.seq then
        { a with data := e.data.take (a.seq - e.seq).toNat ++ a.data, seq := e.seq }
      else a
    if seqAfter e.endSeq l.endSeq then
      { l with data := l.data ++ e.data.drop (l.endSeq - e.seq).toNat, endSeq := e.endSeq }
    else l

def insertOOO (r : RecvBuf) (seq : BitVec 32) (data : List Byte) : RecvBuf :=
  let a := r.ooo.foldl insertOOOStep { seq := seq, data := data, endSeq := seq + BitVec.ofNat 32 data.length }
  { r with ooo := if a.inserted then a.merged else a.merged ++ [⟨a.seq, a.data⟩] }

/-- What a pass of `mergeOOO` carries: the in-order bytes, `nxt`, the entries kept and whether one was taken. -/
structure MergeAcc where
  buf : List Byte
  nxt : BitVec 32
  remaining : List OooEntry := []
  found : Bool := false

def mergeStep (a : MergeAcc) (e : OooEntry) : MergeAcc :=
  if seqBeforeEq e.seq a.nxt && seqAfter e.endSeq a.nxt then
    { a with buf := a.buf ++ e.data.drop (a.nxt - e.seq).toNat, nxt := e.endSeq, found := true }
  else if seqAfter e.seq a.nxt then { a with remaining := a.remaining ++ [e] }
  else a

def mergePass (r : RecvBuf) : MergeAcc := r.ooo.foldl mergeStep { buf := r.buf, nxt := r.nxt }

/-- The outer loop of `mergeOOO`; a pass that takes an entry leaves fewer, so `fuel` above their number suffices
(`mergeLoop_stable`). -/
def mergeLoop : Nat → RecvBuf → RecvBuf
  | 0, r => r
  | fuel + 1, r =>
    let a := mergePass r
    let r' : RecvBuf := { r with buf := a.buf, nxt := a.nxt, ooo := a.remaining }
    if a.found then mergeLoop fuel r' else r'

def mergeOOO (r : RecvBuf) : RecvBuf := mergeLoop (r.ooo.length + 1) r

/-- The part of `Insert` after trimming: an in-order piece is appended, any other is kept for later. -/
def place (r : RecvBuf) (seq : BitVec 32) (data : List Byte) (endSeq : BitVec 32) : RecvBuf × Nat :=
  if seq = r.nxt then (mergeOOO { r with buf := r.buf ++ data, nxt := endSeq }, data.length)
  else if r.ooo.length < maxOOOEntries then (insertOOO r seq data, 0)
  else (r, 0)

/-- The part of `Insert` that trims the data beyond the receive window. -/
def trimRight (r : RecvBuf) (seq : BitVec 32) (data : List Byte) (endSeq : BitVec 32) : RecvBuf × Nat :=
  let rightEdge := r.nxt + BitVec.ofNat 32 r.windowSize
  if r.windowSize > 0 ∧ seqAfter endSeq rightEdge then
    let trim := endSeq - rightEdge
    if BitVec.ofNat 32 data.length ≤ trim then (r, 0)
    else place r seq (data.take (BitVec.ofNat 32 data.length - trim).toNat) rightEdge
  else place r seq data endSeq

def insert (r : RecvBuf) (seq : BitVec 32) (data : List Byte) : RecvBuf × Nat :=
  if data = [] then (r, 0)
  else
    let endSeq := seq + BitVec.ofNat 32 data.length
    if seqBefore seq r.nxt then
      let overlap := r.nxt - seq
      if BitVec.ofNat 32 data.length ≤ overlap then (r, 0)
      else trimRight r r.nxt (data.drop overlap.toNat) endSeq
    else trimRight r seq data endSeq

def read (r : RecvBuf) (n : Nat) : RecvBuf × List Byte := ({ r with buf := r.buf.drop n }, r.buf.take n)

def readable (r : RecvBuf) : Nat := r.buf.length

def sackBlocks (r : RecvBuf) : List SACKBlock := (r.ooo.take 3).map fun e => ⟨e.seq, e.endSeq⟩

def hasOOO (r : RecvBuf) : Bool := !r.ooo.isEmpty

/-- `nxt++`: the sequence number of a FIN is consumed. -/
def consumeFIN (r : RecvBuf) : RecvBuf := { r with nxt := r.nxt + 1, fins := r.fins + 1 }

/-! ### What `Insert` adds

Whatever the segment, the in-order bytes are extended at the end and `nxt` moves by as many numbers. -/

/-- `r'` extends the in-order bytes of `r`, and its `nxt` has moved along. -/
structure Extends (r r' : RecvBuf) : Prop where
  nxt : ∃ b, r'.buf = r.buf ++ b ∧ r'.nxt = Serial.place r.nxt b.length
  initialNxt : r'.initialNxt = r.initialNxt
  fins : r'.fins = r.fins
  windowSize : r'.windowSize = r.windowSize

theorem Extends.refl (r : RecvBuf) : Extends r r := ⟨⟨[], by simp, by simp⟩, rfl, rfl, rfl⟩

theorem Extends.trans {r s t : RecvBuf} (h₁ : Extends r s) (h₂ : Extends s t) : Extends r t := by
  obtain ⟨b, hb, hn⟩ := h₁.nxt
  obtain ⟨b', hb', hn'⟩ := h₂.nxt
  refine ⟨⟨b ++ b', by rw [hb', hb, List.append_assoc], ?_⟩, h₂.initialNxt.trans h₁.initialNxt,
    h₂.fins.trans h₁.fins, h₂.windowSize.trans h₁.windowSize⟩
  rw [hn', hn, Serial.place_place, List.length_append]

theorem straddle {e : OooEntry} {nxt : BitVec 32} (hlo : seqBeforeEq e.seq nxt = true)
    (hhi : seqAfter e.endSeq nxt = true) :
    (nxt - e.seq).toNat ≤ e.data.length ∧ e.endSeq = Serial.place nxt (e.data.drop (nxt - e.seq).toNat).length := by
  have hsum : (e.endSeq - nxt) + (nxt - e.seq) = BitVec.ofNat 32 e.data.length := by
    unfold OooEntry.endSeq
    bv_omega
  simp only [seqBeforeEq, seqAfter, decide_eq_true_eq] at hlo hhi
  have hd : (nxt - e.seq).toNat ≤ 2 ^ 31 := by
    rw [BitVec.toInt_eq_toNat_cond] at hlo
    bv_omega
  have hg : (e.endSeq - nxt).toNat < 2 ^ 31 := by
    rw [BitVec.toInt_eq_toNat_cond] at hhi
    split at hhi <;> omega
  have hnat := congrArg BitVec.toNat hsum
  rw [BitVec.toNat_add, BitVec.toNat_ofNat, Nat.mod_eq_of_lt (by omega)] at hnat
  have hle : (nxt - e.seq).toNat ≤ e.data.length := le_trans (by omega) (Nat.mod_le e.data.length (2 ^ 32))
  have hnxt : Serial.place e.seq (nxt - e.seq).toNat = nxt := Serial.place_toNat_sub e.seq nxt
  refine ⟨hle, ?_⟩
  calc e.endSeq = Serial.place e.seq e.data.length := rfl
    _ = Serial.place (Serial.place e.seq (nxt - e.seq).toNat) (e.data.length - (nxt - e.seq).toNat) := by
      rw [Serial.place_place, Nat.add_sub_of_le hle]
    _ = Serial.place nxt (e.data.drop (nxt - e.seq).toNat).length := by rw [hnxt, List.length_drop]

theorem mergeStep_extends (a : MergeAcc) (e : OooEntry) :
    ∃ b, (mergeStep a e).buf = a.buf ++ b ∧ (mergeStep a e).nxt = Serial.place a.nxt b.length := by
  unfold mergeStep
  split
  · rename_i h
    obtain ⟨hlo, hhi⟩ := Bool.and_eq_true_iff.1 h
    exact ⟨_, rfl, (straddle hlo hhi).2⟩
  · split <;> exact ⟨[], by simp, by simp⟩

theorem foldl_mergeStep_extends (es : List OooEntry) (a : MergeAcc) :
    ∃ b, (es.foldl mergeStep a).buf = a.buf ++ b ∧ (es.foldl mergeStep a).nxt = Serial.place a.nxt b.length := by
  induction es generalizing a with
  | nil => exact ⟨[], by simp, by simp⟩
  | cons e es ih =>
    obtain ⟨b, hb, hn⟩ := mergeStep_extends a e
    obtain ⟨b', hb', hn'⟩ := ih (mergeStep a e)
    refine ⟨b ++ b', ?_, ?_⟩
    · rw [List.foldl_cons, hb', hb, List.append_assoc]
    · rw [List.foldl_cons, hn', hn, Serial.place_place, List.length_append]

theorem mergeLoop_extends (fuel : Nat) (r : RecvBuf) : Extends r (mergeLoop fuel r) := by
  induction fuel generalizing r with
  | zero => exact .refl r
  | succ fuel ih =>
    obtain ⟨b, hb, hn⟩ := foldl_mergeStep_extends r.ooo { buf := r.buf, nxt := r.nxt }
    have hpass : Extends r { r with buf := (mergePass r).buf, nxt := (mergePass r).nxt
                                    ooo := (mergePass r).remaining } := ⟨⟨b, hb, hn⟩, rfl, rfl, rfl⟩
    unfold mergeLoop
    simp only
    split
    · exact hpass.trans (ih _)
    · exact hpass

theorem mergeLoop_succ (fuel : Nat) (r : RecvBuf) :
    mergeLoop (fuel + 1) r =
      if (mergePass r).found then
        mergeLoop fuel { r with buf := (mergePass r).buf, nxt := (mergePass r).nxt, ooo := (mergePass r).remaining }
      else { r with buf := (mergePass r).buf, nxt := (mergePass r).nxt, ooo := (mergePass r).remaining } := rfl

theorem foldl_mergeStep_length (es : List OooEntry) (a : MergeAcc) :
    (es.foldl mergeStep a).remaining.length ≤ a.remaining.length + es.length ∧
      ((es.foldl mergeStep a).found = true → a.found = true ∨
        (es.foldl mergeStep a).remaining.length < a.remaining.length + es.length) := by
  induction es generalizing a with
  | nil => exact ⟨le_rfl, .inl⟩
  | cons e es ih =>
    obtain ⟨hle, hfound⟩ := ih (mergeStep a e)
    rw [List.foldl_cons, List.length_cons]
    generalize es.foldl mergeStep (mergeStep a e) = b at hle hfound
    unfold mergeStep at hle hfound
    split at hle
    · simp only at hle
      exact ⟨by omega, fun _ => .inr (by omega)⟩
    · rename_i htake
      rw [if_neg htake] at hfound
      split at hle
      · rename_i hkeep
        rw [if_pos hkeep] at hfound
        simp only [List.length_append, List.length_singleton] at hle hfound
        exact ⟨by omega, fun h => (hfound h).imp id (by omega)⟩
      · rename_i hkeep
        rw [if_neg hkeep] at hfound
        exact ⟨by omega, fun h => (hfound h).imp id (by omega)⟩

theorem mergeLoop_stable {fuel : Nat} {r : RecvBuf} (hfuel : r.ooo.length < fuel) :
    mergeLoop (fuel + 1) r = mergeLoop fuel r := by
  induction fuel generalizing r with
  | zero => cases hfuel
  | succ fuel ih =>
    have hpass := (foldl_mergeStep_length r.ooo { buf := r.buf, nxt := r.nxt }).2
    rw [mergeLoop_succ (fuel + 1) r, mergeLoop_succ fuel r]
    split
    · rename_i hfound
      refine ih ?_
      have hlt := (hpass hfound).resolve_left Bool.false_ne_true
      simp only [List.length_nil] at hlt
      show (mergePass r).remaining.length < fuel
      unfold mergePass
      omega
    · rfl

theorem place_extends (r : RecvBuf) {seq endSeq : BitVec 32} {data : List Byte}
    (hend : endSeq = Serial.place seq data.length) : Extends r (place r seq data endSeq).1 := by
  unfold place
  split
  · rename_i hseq
    have happ : Extends r { r with buf := r.buf ++ data, nxt := endSeq } :=
      ⟨⟨data, rfl, by rw [hend, hseq]⟩, rfl, rfl, rfl⟩
    exact happ.trans (mergeLoop_extends _ _)
  · split
    · exact ⟨⟨[], by simp [insertOOO], by simp [insertOOO]⟩, rfl, rfl, rfl⟩
    · exact .refl r

theorem trimRight_extends (r : RecvBuf) {seq endSeq : BitVec 32} {data : List Byte}
    (hend : endSeq = Serial.place seq data.length) : Extends r (trimRight r seq data endSeq).1 := by
  unfold trimRight
  simp only
  split
  · split
    · exact .refl r
    · rename_i hle
      apply place_extends
      rw [List.length_take, Serial.place]
      have hmin : (BitVec.ofNat 32 data.length - (endSeq - (r.nxt + BitVec.ofNat 32 r.windowSize))).toNat ≤
          data.length := by
        have := Nat.mod_le data.length (2 ^ 32)
        bv_omega
      rw [Nat.min_eq_left hmin, BitVec.ofNat_toNat, BitVec.setWidth_eq, hend, Serial.place]
      bv_omega
  · exact place_extends r hend

theorem insert_extends (r : RecvBuf) (seq : BitVec 32) (data : List Byte) : Extends r (r.insert seq data).1 := by
  unfold insert
  split
  · exact .refl r
  · simp only
    split
    · split
      · exact .refl r
      · rename_i hle
        apply trimRight_extends
        have hle' : (r.nxt - seq).toNat ≤ data.length := by
          have := Nat.mod_le data.length (2 ^ 32)
          bv_omega
        have hnxt : Serial.place seq (r.nxt - seq).toNat = r.nxt := Serial.place_toNat_sub seq r.nxt
        calc seq + BitVec.ofNat 32 data.length
            = Serial.place (Serial.place seq (r.nxt - seq).toNat) (data.length - (r.nxt - seq).toNat) := by
              rw [Serial.place_place, Nat.add_sub_of_le hle']
              rfl
          _ = Serial.place r.nxt (data.drop (r.nxt - seq).toNat).length := by rw [hnxt, List.length_drop]
    · exact trimRight_extends r rfl

end RecvBuf

end Libp2px.Vtcp
