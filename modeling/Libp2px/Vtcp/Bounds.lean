import Libp2px.Vtcp.Sender

/-!
# Slices of the two buffers

`SendBuf` and `RecvBuf` cut their byte slices at offsets that are differences of 32-bit sequence numbers, most of them
chosen by the peer.  The operations of this file are those of the two buffers with every slice checked: a slice out of
range, which would panic, gives `none`.  The send buffer clamps its offsets before it cuts.  The receive buffer relies
on one invariant: no out-of-order entry ends where it starts.
-/

namespace Libp2px.Vtcp

open Transition

/-- The slice `x[lo:hi]`; `none` when it is out of range. -/
def slice {α : Type} (x : List α) (lo hi : Nat) : Option (List α) :=
  if lo ≤ hi ∧ hi ≤ x.length then some ((x.take hi).drop lo) else none

theorem slice_to {α : Type} {x : List α} {hi : Nat} (h : hi ≤ x.length) : slice x 0 hi = some (x.take hi) := by
  simp [slice, h]

theorem slice_from {α : Type} {x : List α} {lo : Nat} (h : lo ≤ x.length) : slice x lo x.length = some (x.drop lo) := by
  simp [slice, h]

theorem slice_if_longer {α : Type} (x : List α) (n : Nat) :
    (if x.length > n then slice x 0 n else some x) = some (x.take n) := by
  split
  · exact slice_to (by omega)
  · rw [List.take_of_length_le (by omega)]

/-! ### The send buffer -/

namespace SendBuf

def acknowledge? (s : SendBuf) (ack : BitVec 32) : Option (SendBuf × BitVec 32) :=
  if !seqAfter ack s.una then some (s, 0)
  else
    let ack := if seqAfter ack s.nxt then s.nxt else ack
    let n := ack - s.una
    let n := if n.toNat > s.buf.length then BitVec.ofNat 32 s.buf.length else n
    (slice s.buf n.toNat s.buf.length).map fun buf =>
      (pruneSACK { s with buf := buf, una := ack, acked := s.acked + (ack - s.una).toNat }, n)

def peekUnsent? (s : SendBuf) (n : Nat) : Option (List Byte) := do
  let unsent ← slice s.buf s.unacked s.buf.length
  if unsent.length > n then slice unsent 0 n else some unsent

def retransmitData? (s : SendBuf) (n : Nat) : Option (Option (List Byte)) :=
  let unacked := if s.unacked > s.buf.length then s.buf.length else s.unacked
  if s.sacked = [] then do
    let data ← slice s.buf 0 unacked
    (if data.length > n then slice data 0 n else some data).map some
  else
    match skipSACKed s.sacked (s.sacked.length + 2) s.una with
    | none => some none
    | some seq =>
      if seqAfterEq seq s.nxt then some (some [])
      else
        let offset := (seq - s.una).toNat
        if offset ≥ unacked then some (some [])
        else do
          let data ← slice s.buf offset unacked
          (if data.length > n then slice data 0 n else some data).map some

theorem acknowledge?_eq (s : SendBuf) (ack : BitVec 32) : s.acknowledge? ack = some (s.acknowledge ack) := by
  unfold acknowledge? acknowledge
  split
  · rfl
  · simp only
    generalize (if seqAfter ack s.nxt = true then s.nxt else ack) = a
    -- the number of bytes to cut is clamped to the length
    have hle : (if (a - s.una).toNat > s.buf.length then BitVec.ofNat 32 s.buf.length else a - s.una).toNat ≤
        s.buf.length := by
      split
      · rw [BitVec.toNat_ofNat]
        exact Nat.mod_le _ _
      · omega
    rw [slice_from hle]
    rfl

theorem peekUnsent?_eq {s : SendBuf} (hp : s.pending > 0) (n : Nat) : s.peekUnsent? n = some (s.peekUnsent n) := by
  have hle : s.unacked ≤ s.buf.length := by
    unfold pending at hp
    omega
  unfold peekUnsent? peekUnsent
  rw [slice_from hle]
  exact slice_if_longer _ n

theorem retransmitData?_eq (s : SendBuf) (n : Nat) : s.retransmitData? n = some (s.retransmitData n) := by
  unfold retransmitData? retransmitData
  simp only
  have hle : (if s.unacked > s.buf.length then s.buf.length else s.unacked) ≤ s.buf.length := by
    split <;> omega
  generalize (if s.unacked > s.buf.length then s.buf.length else s.unacked) = k at hle
  split
  · rw [slice_to hle]
    show (if (s.buf.take k).length > n then slice (s.buf.take k) 0 n else some (s.buf.take k)).map some = _
    rw [slice_if_longer]
    rfl
  · cases skipSACKed s.sacked (s.sacked.length + 2) s.una with
    | none => rfl
    | some seq =>
      simp only
      by_cases hend : seqAfterEq seq s.nxt = true
      · rw [if_pos hend, if_pos hend]
      · rw [if_neg hend, if_neg hend]
        by_cases hoff : (seq - s.una).toNat ≥ k
        · rw [if_pos hoff, if_pos hoff]
        · have hslice : slice s.buf (seq - s.una).toNat k = some ((s.buf.take k).drop (seq - s.una).toNat) :=
            if_pos ⟨by omega, hle⟩
          rw [if_neg hoff, if_neg hoff, hslice]
          show (if ((s.buf.take k).drop _).length > n then slice ((s.buf.take k).drop _) 0 n
            else some ((s.buf.take k).drop _)).map some = _
          rw [slice_if_longer]
          rfl

end SendBuf

/-! ### The receive buffer -/

namespace RecvBuf

def insertOOOStep? (a : OooAcc) (e : OooEntry) : Option OooAcc :=
  if seqAfterEq e.seq a.endSeq then
    if a.inserted then some { a with merged := a.merged ++ [e] }
    else some { a with merged := a.merged ++ [⟨a.seq, a.data⟩, e], inserted := true }
  else if seqAfterEq a.seq e.endSeq then some { a with merged := a.merged ++ [e] }
  else do
    let l ←
      if seqBefore e.seq a.seq then
        (slice e.data 0 (a.seq - e.seq).toNat).map fun left => { a with data := left ++ a.data, seq := e.seq }
      else some a
    if seqAfter e.endSeq l.endSeq then
      (slice e.data (l.endSeq - e.seq).toNat e.data.length).map fun right =>
        { l with data := l.data ++ right, endSeq := e.endSeq }
    else some l

def insertOOO? (r : RecvBuf) (seq : BitVec 32) (data : List Byte) : Option RecvBuf := do
  let a ← r.ooo.foldlM insertOOOStep? { seq := seq, data := data, endSeq := seq + BitVec.ofNat 32 data.length }
  some { r with ooo := if a.inserted then a.merged else a.merged ++ [⟨a.seq, a.data⟩] }

def mergeStep? (a : MergeAcc) (e : OooEntry) : Option MergeAcc :=
  if seqBeforeEq e.seq a.nxt && seqAfter e.endSeq a.nxt then
    (slice e.data (a.nxt - e.seq).toNat e.data.length).map fun new =>
      { a with buf := a.buf ++ new, nxt := e.endSeq, found := true }
  else if seqAfter e.seq a.nxt then some { a with remaining := a.remaining ++ [e] }
  else some a

/-- The outer loop of `mergeOOO` with its slices checked. -/
def mergeLoop? : Nat → RecvBuf → Option RecvBuf
  | 0, r => some r
  | fuel + 1, r => do
    let a ← r.ooo.foldlM mergeStep? { buf := r.buf, nxt := r.nxt }
    let r' : RecvBuf := { r with buf := a.buf, nxt := a.nxt, ooo := a.remaining }
    if a.found then mergeLoop? fuel r' else some r'

/-- The part of `Insert` after trimming with its slices checked. -/
def place? (r : RecvBuf) (seq : BitVec 32) (data : List Byte) (endSeq : BitVec 32) : Option (RecvBuf × Nat) :=
  if seq = r.nxt then
    (mergeLoop? (r.ooo.length + 1) { r with buf := r.buf ++ data, nxt := endSeq }).map fun r' => (r', data.length)
  else if r.ooo.length < maxOOOEntries then (insertOOO? r seq data).map fun r' => (r', 0)
  else some (r, 0)

def trimRight? (r : RecvBuf) (seq : BitVec 32) (data : List Byte) (endSeq : BitVec 32) : Option (RecvBuf × Nat) :=
  let rightEdge := r.nxt + BitVec.ofNat 32 r.windowSize
  if r.windowSize > 0 ∧ seqAfter endSeq rightEdge then
    let trim := endSeq - rightEdge
    if BitVec.ofNat 32 data.length ≤ trim then some (r, 0)
    else do
      let data ← slice data 0 (BitVec.ofNat 32 data.length - trim).toNat
      place? r seq data rightEdge
  else place? r seq data endSeq

def insert? (r : RecvBuf) (seq : BitVec 32) (data : List Byte) : Option (RecvBuf × Nat) :=
  if data = [] then some (r, 0)
  else
    let endSeq := seq + BitVec.ofNat 32 data.length
    if seqBefore seq r.nxt then
      let overlap := r.nxt - seq
      if BitVec.ofNat 32 data.length ≤ overlap then some (r, 0)
      else do
        let data ← slice data overlap.toNat data.length
        trimRight? r r.nxt data endSeq
    else trimRight? r seq data endSeq

/-- No entry ends where it starts. -/
def Proper (es : List OooEntry) : Prop := ∀ e ∈ es, e.seq ≠ e.endSeq

theorem cut_le {seq mid : BitVec 32} {len : Nat}
    (h : (mid - seq).toNat + (seq + BitVec.ofNat 32 len - mid).toNat < 2 ^ 32) : (mid - seq).toNat ≤ len := by
  have hsum : (mid - seq) + (seq + BitVec.ofNat 32 len - mid) = BitVec.ofNat 32 len := by bv_omega
  have hnat := congrArg BitVec.toNat hsum
  rw [BitVec.toNat_add, BitVec.toNat_ofNat, Nat.mod_eq_of_lt h] at hnat
  have := Nat.mod_le len (2 ^ 32)
  omega

theorem toNat_sub_of_before {a b : BitVec 32} (h : (a - b).toInt < 0) : 0 < (b - a).toNat ∧ (b - a).toNat ≤ 2 ^ 31 := by
  rw [BitVec.toInt_eq_toNat_cond] at h
  bv_omega

theorem toNat_sub_of_after {a b : BitVec 32} (h : (a - b).toInt > 0) : 0 < (a - b).toNat ∧ (a - b).toNat < 2 ^ 31 := by
  rw [BitVec.toInt_eq_toNat_cond] at h
  split at h <;> omega

variable {e : OooEntry} {r : RecvBuf} {data : List Byte}

theorem left_le {seq : BitVec 32} (he : e.seq ≠ e.endSeq) (hbefore : seqBefore e.seq seq = true)
    (hend : ¬seqAfterEq seq e.endSeq = true) : (seq - e.seq).toNat ≤ e.data.length := by
  simp only [seqBefore, seqAfterEq, decide_eq_true_eq, not_le] at hbefore hend
  obtain ⟨h1, h2⟩ := toNat_sub_of_before hbefore
  obtain ⟨h3, h4⟩ := toNat_sub_of_before hend
  refine cut_le ?_
  -- both parts are half the number space only if the entry ends where it starts
  by_contra hbig
  refine he ?_
  unfold OooEntry.endSeq at h3 h4 ⊢
  bv_omega

theorem right_le {endSeq : BitVec 32} (hstart : ¬seqAfterEq e.seq endSeq = true)
    (hafter : seqAfter e.endSeq endSeq = true) : (endSeq - e.seq).toNat ≤ e.data.length := by
  simp only [seqAfter, seqAfterEq, decide_eq_true_eq, not_le] at hstart hafter
  obtain ⟨h1, h2⟩ := toNat_sub_of_before hstart
  obtain ⟨h3, h4⟩ := toNat_sub_of_after hafter
  refine cut_le ?_
  unfold OooEntry.endSeq at h3 h4
  omega

theorem insertOOOStep?_eq (a : OooAcc) (he : e.seq ≠ e.endSeq) :
    insertOOOStep? a e = some (insertOOOStep a e) := by
  unfold insertOOOStep? insertOOOStep
  split
  · split <;> rfl
  · rename_i hstart
    split
    · rfl
    · rename_i hend
      simp only
      by_cases hbefore : seqBefore e.seq a.seq = true
      · rw [if_pos hbefore, if_pos hbefore, slice_to (left_le he hbefore hend)]
        simp only [Option.map_some, Option.bind_eq_bind, Option.bind_some]
        split
        · rename_i hafter
          rw [slice_from (right_le hstart hafter)]
          rfl
        · rfl
      · rw [if_neg hbefore, if_neg hbefore]
        simp only [Option.bind_eq_bind, Option.bind_some]
        split
        · rename_i hafter
          rw [slice_from (right_le hstart hafter)]
          rfl
        · rfl

structure AccProper (a : OooAcc) : Prop where
  endSeq : a.endSeq = Serial.place a.seq a.data.length
  proper : a.seq ≠ a.endSeq
  merged : Proper a.merged

theorem AccProper.step {a : OooAcc} (h : AccProper a) (he : e.seq ≠ e.endSeq) :
    AccProper (insertOOOStep a e) := by
  have hself : (⟨a.seq, a.data⟩ : OooEntry).seq ≠ (⟨a.seq, a.data⟩ : OooEntry).endSeq := by
    show a.seq ≠ Serial.place a.seq a.data.length
    rw [← h.endSeq]
    exact h.proper
  have happ : ∀ es, (∀ x ∈ es, x.seq ≠ x.endSeq) → Proper (a.merged ++ es) := by
    intro es hes x hx
    rcases List.mem_append.1 hx with hx | hx
    · exact h.merged x hx
    · exact hes x hx
  unfold insertOOOStep
  split
  · split
    · exact ⟨h.endSeq, h.proper, happ [e] (by simpa using he)⟩
    · exact ⟨h.endSeq, h.proper, happ [⟨a.seq, a.data⟩, e] (by simpa using ⟨hself, he⟩)⟩
  · rename_i hstart
    split
    · exact ⟨h.endSeq, h.proper, happ [e] (by simpa using he)⟩
    · rename_i hend
      simp only
      -- the piece extended to the left
      have hleft : ∀ l : OooAcc, l = (if seqBefore e.seq a.seq = true then
          { a with data := e.data.take (a.seq - e.seq).toNat ++ a.data, seq := e.seq } else a) →
          AccProper l ∧ l.endSeq = a.endSeq ∧ l.seq ≠ e.endSeq := by
        intro l hl
        split at hl
        · rename_i hbefore
          have hlen : (e.data.take (a.seq - e.seq).toNat).length = (a.seq - e.seq).toNat := by
            rw [List.length_take]
            exact Nat.min_eq_left (left_le he hbefore hend)
          subst hl
          refine ⟨⟨?_, ?_, h.merged⟩, rfl, he⟩
          · show a.endSeq = Serial.place e.seq (e.data.take _ ++ a.data).length
            rw [List.length_append, hlen, ← Serial.place_place, Serial.place_toNat_sub]
            exact h.endSeq
          · intro heq
            refine hstart ?_
            show decide ((e.seq - a.endSeq).toInt ≥ 0) = true
            rw [show e.seq = a.endSeq from heq]
            simp
        · rw [hl]
          refine ⟨h, rfl, fun heq => hend ?_⟩
          show decide ((a.seq - e.endSeq).toInt ≥ 0) = true
          rw [heq]
          simp
      generalize (if seqBefore e.seq a.seq = true then
        { a with data := e.data.take (a.seq - e.seq).toNat ++ a.data, seq := e.seq } else a) = l at hleft
      obtain ⟨hl, hlend, hne⟩ := hleft l rfl
      split
      · rename_i hafter
        refine ⟨?_, hne, hl.merged⟩
        have hle : (l.endSeq - e.seq).toNat ≤ e.data.length := by
          rw [hlend] at hafter ⊢
          exact right_le hstart hafter
        show e.endSeq = Serial.place l.seq (l.data ++ e.data.drop _).length
        rw [List.length_append, List.length_drop, ← Serial.place_place, ← hl.endSeq,
          ← Serial.place_toNat_sub e.seq l.endSeq, Serial.place_place]
        rw [Serial.place_toNat_sub e.seq l.endSeq, Nat.add_sub_of_le hle]
        rfl
      · exact hl

theorem foldlM_insertOOOStep {es : List OooEntry} (hes : Proper es) {a : OooAcc} (ha : AccProper a) :
    es.foldlM insertOOOStep? a = some (es.foldl insertOOOStep a) ∧ AccProper (es.foldl insertOOOStep a) := by
  induction es generalizing a with
  | nil => exact ⟨rfl, ha⟩
  | cons e es ih =>
    have he := hes e (List.mem_cons_self ..)
    obtain ⟨h1, h2⟩ := ih (fun x hx => hes x (List.mem_cons_of_mem e hx)) (ha.step he)
    refine ⟨?_, h2⟩
    rw [List.foldlM_cons, insertOOOStep?_eq a he]
    exact h1

theorem insertOOO?_eq (hr : Proper r.ooo) (seq : BitVec 32) (hd : 0 < data.length) (hlen : data.length < 2 ^ 32) :
    insertOOO? r seq data = some (insertOOO r seq data) ∧ Proper (insertOOO r seq data).ooo := by
  have hstart : AccProper { seq := seq, data := data, endSeq := seq + BitVec.ofNat 32 data.length } := by
    refine ⟨rfl, ?_, by intro e he; cases he⟩
    show seq ≠ seq + BitVec.ofNat 32 data.length
    bv_omega
  obtain ⟨heq, hacc⟩ := foldlM_insertOOOStep hr hstart
  refine ⟨?_, ?_⟩
  · unfold insertOOO?
    rw [heq]
    rfl
  · intro e he
    unfold insertOOO at he
    simp only at he
    split at he
    · exact hacc.merged e he
    · rcases List.mem_append.1 he with he | he
      · exact hacc.merged e he
      · rw [List.mem_singleton] at he
        rw [he]
        show _ ≠ Serial.place _ _
        rw [← hacc.endSeq]
        exact hacc.proper

theorem mergeStep?_eq (a : MergeAcc) (e : OooEntry) : mergeStep? a e = some (mergeStep a e) := by
  unfold mergeStep? mergeStep
  split
  · rename_i h
    obtain ⟨hlo, hhi⟩ := Bool.and_eq_true_iff.1 h
    rw [slice_from (straddle hlo hhi).1]
    rfl
  · split <;> rfl

theorem foldlM_mergeStep (es : List OooEntry) (a : MergeAcc) :
    es.foldlM mergeStep? a = some (es.foldl mergeStep a) := by
  induction es generalizing a with
  | nil => rfl
  | cons e es ih =>
    rw [List.foldlM_cons, mergeStep?_eq]
    exact ih _

theorem mergeLoop?_eq (fuel : Nat) (r : RecvBuf) : mergeLoop? fuel r = some (mergeLoop fuel r) := by
  induction fuel generalizing r with
  | zero => rfl
  | succ fuel ih =>
    unfold mergeLoop? mergeLoop
    rw [foldlM_mergeStep]
    show (if (mergePass r).found then mergeLoop? fuel _ else some _) = _
    simp only
    split
    · exact ih _
    · rfl

theorem remaining_foldl (es : List OooEntry) (a : MergeAcc)
    (he : e ∈ (es.foldl mergeStep a).remaining) : e ∈ a.remaining ∨ e ∈ es := by
  induction es generalizing a with
  | nil => exact .inl he
  | cons x es ih =>
    rcases ih (mergeStep a x) he with h | h
    · unfold mergeStep at h
      split at h
      · exact .inl h
      · split at h
        · rcases List.mem_append.1 h with h | h
          · exact .inl h
          · rw [List.mem_singleton] at h
            exact .inr (h ▸ List.mem_cons_self ..)
        · exact .inl h
    · exact .inr (List.mem_cons_of_mem x h)

theorem ooo_mergeLoop (fuel : Nat) (r : RecvBuf) (he : e ∈ (mergeLoop fuel r).ooo) : e ∈ r.ooo := by
  have hpass : ∀ r : RecvBuf, ∀ x ∈ (mergePass r).remaining, x ∈ r.ooo := by
    intro r x hx
    rcases remaining_foldl r.ooo _ hx with h | h
    · cases h
    · exact h
  induction fuel generalizing r with
  | zero => exact he
  | succ fuel ih =>
    unfold mergeLoop at he
    simp only at he
    split at he
    · exact hpass r e (ih _ he)
    · exact hpass r e he

theorem place?_eq (hr : Proper r.ooo) (seq : BitVec 32) (hd : 0 < data.length)
    (hlen : data.length < 2 ^ 32) (endSeq : BitVec 32) :
    place? r seq data endSeq = some (place r seq data endSeq) ∧ Proper (place r seq data endSeq).1.ooo := by
  unfold place? place
  split
  · rw [mergeLoop?_eq]
    refine ⟨rfl, fun e he => hr e ?_⟩
    exact ooo_mergeLoop _ { r with buf := r.buf ++ data, nxt := endSeq } he
  · split
    · obtain ⟨h1, h2⟩ := insertOOO?_eq hr seq hd hlen
      rw [h1]
      exact ⟨rfl, h2⟩
    · exact ⟨rfl, hr⟩

theorem trimRight?_eq (hr : Proper r.ooo) (seq : BitVec 32) (hd : 0 < data.length)
    (hlen : data.length < 2 ^ 32) (endSeq : BitVec 32) :
    trimRight? r seq data endSeq = some (trimRight r seq data endSeq) ∧
      Proper (trimRight r seq data endSeq).1.ooo := by
  unfold trimRight? trimRight
  simp only
  split
  · generalize endSeq - (r.nxt + BitVec.ofNat 32 r.windowSize) = trim
    split
    · exact ⟨rfl, hr⟩
    · rename_i hle
      have hcut : 0 < (BitVec.ofNat 32 data.length - trim).toNat ∧
          (BitVec.ofNat 32 data.length - trim).toNat ≤ data.length := by
        bv_omega
      have htake : (data.take (BitVec.ofNat 32 data.length - trim).toNat).length =
          (BitVec.ofNat 32 data.length - trim).toNat := by
        rw [List.length_take]
        exact Nat.min_eq_left hcut.2
      rw [slice_to hcut.2]
      exact place?_eq hr seq (by omega) (by omega) _
  · exact place?_eq hr seq hd hlen endSeq

theorem insert?_eq (hr : Proper r.ooo) (seq : BitVec 32) (hlen : data.length < 2 ^ 32) :
    r.insert? seq data = some (r.insert seq data) ∧ Proper (r.insert seq data).1.ooo := by
  unfold insert? insert
  split
  · exact ⟨rfl, hr⟩
  · rename_i hne
    have hd : 0 < data.length := List.length_pos_iff.2 hne
    simp only
    split
    · split
      · exact ⟨rfl, hr⟩
      · rename_i hle
        have hcut : (r.nxt - seq).toNat < data.length := by bv_omega
        rw [slice_from (Nat.le_of_lt hcut)]
        exact trimRight?_eq hr r.nxt (by rw [List.length_drop]; omega) (by rw [List.length_drop]; omega) _
    · exact trimRight?_eq hr seq hd hlen _

end RecvBuf

/-! ### Connections -/

namespace Conn

variable {σ : Type} [CongestionController σ]

def chunkSize? (c : Conn σ) : Option (Option Nat) :=
  if c.sendBuf.pending ≤ 0 then some none
  else
    let avail : Int := c.effWnd.toNat - c.sendBuf.unacked
    if avail ≤ 0 then some none
    else
      let n := min (min avail.toNat c.mss) c.sendBuf.pending.toNat
      if n < c.mss ∧ c.sendBuf.unacked > 0 then some none
      else (c.sendBuf.peekUnsent? n).map fun data => if data = [] then none else some n

/-- The window probe with the slices of `PeekUnsent` checked. -/
def windowProbe? (c : Conn σ) : Option (Conn σ) :=
  if c.sendBuf.pending > 0 then
    (c.sendBuf.peekUnsent? 1).map fun data =>
      if data ≠ [] then
        let c := c.queueSeg { c.ackSegment 0 c.sendBuf.nxt flagACK data with options := [] }
        { c with sendBuf := c.sendBuf.advanceSent data.length }
      else c
  else some c

theorem chunkSize?_eq (c : Conn σ) : c.chunkSize? = some c.chunkSize := by
  unfold chunkSize? chunkSize
  split
  · rfl
  · rename_i hp
    simp only
    split
    · rfl
    · split
      · rfl
      · rw [SendBuf.peekUnsent?_eq (by omega)]
        rfl

omit [CongestionController σ] in
theorem windowProbe?_eq (c : Conn σ) : c.windowProbe? = some c.windowProbe := by
  unfold windowProbe? windowProbe
  by_cases hp : c.sendBuf.pending > 0
  · rw [if_pos hp, SendBuf.peekUnsent?_eq hp]
    by_cases hd : c.sendBuf.peekUnsent 1 ≠ []
    · rw [if_pos ⟨hp, hd⟩, Option.map_some, if_pos hd]
    · rw [if_neg (fun h => hd h.2), Option.map_some, if_neg hd]
  · rw [if_neg hp, if_neg (fun h => hp h.1)]

end Conn

/-- All slices of the send buffer are in range; `PeekUnsent` is only called when something is pending
(`Conn.chunkSize?_eq`, `Conn.windowProbe?_eq`). -/
structure SendBuf.InRange (s : SendBuf) : Prop where
  acknowledge : ∀ ack, s.acknowledge? ack = some (s.acknowledge ack)
  peekUnsent : s.pending > 0 → ∀ n, s.peekUnsent? n = some (s.peekUnsent n)
  retransmitData : ∀ n, s.retransmitData? n = some (s.retransmitData n)

def RecvBuf.InRange (r : RecvBuf) : Prop :=
  ∀ seq data, data.length ≤ 65535 → r.insert? seq data = some (r.insert seq data)

theorem SendBuf.inRange (s : SendBuf) : s.InRange := ⟨s.acknowledge?_eq, peekUnsent?_eq, s.retransmitData?_eq⟩

theorem RecvBuf.inRange {r : RecvBuf} (hr : Proper r.ooo) : r.InRange :=
  fun seq _ hd => (insert?_eq hr seq (by omega)).1

theorem RecvBuf.proper_newRecvBuf (irs : BitVec 32) (w : Nat) : Proper (newRecvBuf irs w).ooo := by
  intro e he
  cases he

def Event.shortData : Event → Bool
  | .segment _ seg => decide (seg.payload.length ≤ 65535)
  | .acceptSYN _ _ seg => decide (seg.payload.length ≤ 65535)
  | .acceptCookie _ _ _ data => decide (data.length ≤ 65535)
  | _ => true

theorem CoreStep.proper {e : Event} {o : Occasion} {s t : Core} (h : CoreStep e o s t) (he : e.shortData = true)
    (hs : RecvBuf.Proper s.recvBuf.ooo) : RecvBuf.Proper t.recvBuf.ooo := by
  have hnew : ∀ irs w seq data, data.length ≤ 65535 →
      RecvBuf.Proper ((newRecvBuf irs w).insert seq data).1.ooo := by
    intro irs w seq data hd
    exact (RecvBuf.insert?_eq (RecvBuf.proper_newRecvBuf irs w) seq (by omega)).2
  cases h with
  | connect | setup => exact RecvBuf.proper_newRecvBuf _ _
  | acceptSYN _ hev | acceptCookie _ _ hev | synAckIn hev | synIn hev =>
    rw [hev] at he
    exact hnew _ _ _ _ (of_decide_eq_true he)
  | insert hev =>
    rw [hev] at he
    have hd := of_decide_eq_true he
    exact (RecvBuf.insert?_eq hs _ (by omega)).2
  | finIn | finDeferred =>
    unfold Core.consumeFIN
    simp only
    split <;> exact hs
  | _ => exact hs

namespace Host

variable {σ : Type} [CongestionController σ]

/-- In every state that a call passes through, all slices of the two buffers are in range, and so are those that the
callers of `PeekUnsent` make. -/
theorem slices_in_range {h : Host σ} (hr : (system σ).Reach (fun _ e => e.shortData = true) h) {e : Event}
    (he : e.shortData = true) {o : Occasion} {s : Core} (hs : CoreSteps e o (h.core.receive e) s) :
    s.sendBuf.InRange ∧ s.recvBuf.InRange ∧ (∀ irs, (newRecvBuf irs s.recvBufCap).InRange) ∧
      ∀ c : Conn σ, c.chunkSize? = some c.chunkSize ∧ c.windowProbe? = some c.windowProbe := by
  have hproper : RecvBuf.Proper h.core.recvBuf.ooo := by
    refine hr.invariant (I := fun h => RecvBuf.Proper h.core.recvBuf.ooo) ?_ ?_
    · rintro _ ⟨cfg, now, rfl⟩
      exact RecvBuf.proper_newRecvBuf _ _
    · intro g e g' _ ih hshort hn
      refine (next_core hn).induction (I := fun s => RecvBuf.Proper s.recvBuf.ooo) ?_ ?_
      · cases e <;> exact ih
      · intro s t hs hst
        exact hst.proper hshort hs
  have hthere : RecvBuf.Proper s.recvBuf.ooo := by
    refine hs.induction (I := fun s => RecvBuf.Proper s.recvBuf.ooo) ?_ ?_
    · cases e <;> exact hproper
    · intro s t hs hst
      exact hst.proper he hs
  exact ⟨s.sendBuf.inRange, RecvBuf.inRange hthere, fun irs => RecvBuf.inRange (RecvBuf.proper_newRecvBuf _ _),
    fun c => ⟨c.chunkSize?_eq, c.windowProbe?_eq⟩⟩

def holdsTwo : Host SmallController :=
  (fresh {} 0).run (opening ++
    [.segment 1 { srcPort := 0, dstPort := 0, seq := 705, ack := 101, flags := flagACK, payload := [5, 6] }])

/-- It receives a piece that overlaps them on both sides. -/
theorem slices_in_range_overlap :
    holdsTwo.conn.recvBuf.ooo = [⟨705, [5, 6]⟩] ∧
      holdsTwo.conn.recvBuf.insert? 704 [4, 5, 6, 7] = some (holdsTwo.conn.recvBuf.insert 704 [4, 5, 6, 7]) := by
  have hr : (system SmallController).Reach (fun _ e => e.shortData = true) holdsTwo :=
    run_reach (by decide +kernel) (by decide +kernel)
  have hs : CoreSteps (.rto 2) (holdsTwo.occasion (.rto 2)) (holdsTwo.core.receive (.rto 2)) holdsTwo.core := .refl _
  exact ⟨by decide +kernel, (slices_in_range hr rfl hs).2.1 704 [4, 5, 6, 7] (by decide)⟩

end Host

end Libp2px.Vtcp
