import Libp2px.RelayFile.Resume

/-!
# What a peer can write

The DATA case of `receiveLoop` for any frames.  A chunk is written at the cursor unless the bitmap knows its number, and
the bitmap does not know every number: it consists of words of 64 numbers, so it also knows those from the number of
chunks up to the end of the last word once they have come; it never knows a number behind that word or a negative one.
The length of a chunk is not checked.
-/

namespace Libp2px.RelayFile

open Chunks

/-! ### The chunks that are written -/

/-- The chunk comes after those with the numbers `seen`, with the first `k` of `n` there before: its number is not too
low for an index, and the bitmap does not know it. -/
def Unknown (n k : Nat) (seen : List Int) (seq : Int) : Prop :=
  -64 < seq ∧ ¬(0 ≤ seq ∧ seq < (64 * ((n + 63) / 64) : Nat) ∧ (seq < (min k n : Nat) ∨ seq ∈ seen))

instance (n k : Nat) (seen : List Int) (seq : Int) : Decidable (Unknown n k seen seq) :=
  inferInstanceAs (Decidable (_ ∧ _))

def written (n k : Nat) (l : List (Int × List Byte)) : List (Int × List Byte) :=
  l.foldl (fun acc x => if Unknown n k (acc.map Prod.fst) x.1 then acc ++ [x] else acc) []

def seen (n k : Nat) (l : List (Int × List Byte)) : List Int := (written n k l).map Prod.fst

def bytes (n k : Nat) (l : List (Int × List Byte)) : List Byte := (written n k l).flatMap Prod.snd

variable {n k : Nat}

theorem written_concat (l : List (Int × List Byte)) (x : Int × List Byte) :
    written n k (l ++ [x]) = if Unknown n k (seen n k l) x.1 then written n k l ++ [x] else written n k l := by
  unfold seen written
  rw [List.foldl_append]
  rfl

theorem written_isPrefix (l post : List (Int × List Byte)) : written n k l <+: written n k (l ++ post) := by
  induction post using List.reverseRecOn with
  | nil => exact (List.append_nil l).symm ▸ List.prefix_rfl
  | append_singleton post x ih =>
    rw [← List.append_assoc, written_concat]
    split
    · exact ih.trans (List.prefix_append _ _)
    · exact ih

theorem not_unknown_of_written {l post : List (Int × List Byte)} {x : Int × List Byte}
    (h : Unknown n k (seen n k l) x.1) (hx : 0 ≤ x.1 ∧ x.1 < n) : ¬Unknown n k (seen n k (l ++ x :: post)) x.1 := by
  intro hno
  have hmem : x ∈ written n k (l ++ [x]) := by
    rw [written_concat, if_pos h]
    exact List.mem_append_right _ (List.mem_singleton_self x)
  have hlater : x ∈ written n k (l ++ x :: post) := by
    have happend : l ++ x :: post = (l ++ [x]) ++ post := by simp
    rw [happend]
    exact (written_isPrefix _ _).subset hmem
  exact hno.2 ⟨hx.1, by omega, .inr (List.mem_map_of_mem hlater)⟩

/-! ### Sessions -/

namespace Session

def chunkOf (env : Env) (s : Session) (f : Frame) : Option (Int × List Byte) :=
  if f.typ = frameTypeData then (unpackDataFrame env.zstd f.payload s.compression).toOption else none

theorem chunkOf_congr (env : Env) {s d : Session} (h : d.init = s.init) (f : Frame) : d.chunkOf env f = s.chunkOf env f := by
  unfold chunkOf compression
  rw [h]

variable {env : Env} {fs : FS} {s : Session}

theorem receive_of_no_chunk (fs : FS) {f : Frame} (io : DataIO) (h : s.chunkOf env f = none) :
    (s.receive env fs f io).1 = fs ∧ ((s.receive env fs f io).2.1.stage = .loop → (s.receive env fs f io).2.1 = s) := by
  unfold receive
  split
  · exact ⟨rfl, fun hst => by cases hst⟩
  · split
    · rename_i htyp
      unfold chunkOf at h
      rw [if_pos htyp] at h
      unfold receiveData
      cases hunpack : unpackDataFrame env.zstd f.payload s.compression with
      | error e => exact ⟨rfl, fun hst => by cases hst⟩
      | ok x =>
        rw [hunpack] at h
        cases h
    · split
      · split <;> exact ⟨rfl, fun hst => by cases hst⟩
      · exact ⟨rfl, fun _ => rfl⟩

theorem chunkOf_eq_some {f : Frame} {seq : Int} {data : List Byte} (h : s.chunkOf env f = some (seq, data)) :
    f.typ = frameTypeData ∧ unpackDataFrame env.zstd f.payload s.compression = .ok (seq, data) := by
  unfold chunkOf at h
  split at h
  · rename_i htyp
    cases hunpack : unpackDataFrame env.zstd f.payload s.compression with
    | error e =>
      rw [hunpack] at h
      cases h
    | ok x =>
      rw [hunpack] at h
      exact ⟨htyp, congrArg Except.ok (Option.some.inj h)⟩
  · cases h

theorem receive_of_low (fs : FS) {f : Frame} {seq : Int} {data : List Byte} (io : DataIO)
    (h : s.chunkOf env f = some (seq, data)) (hlow : seq ≤ -64) :
    s.receive env fs f io = (fs, s.crash .indexOutOfRange, []) := by
  obtain ⟨htyp, hunpack⟩ := chunkOf_eq_some h
  have hother : ¬(f.typ = frameTypeCancel ∨ f.typ = frameTypeError) := by
    rw [htyp]
    decide
  unfold receive receiveData
  rw [if_neg hother, if_pos htyp, hunpack]
  simp only [bitmapHas_neg s.bitmap (by omega : seq < 0), if_pos hlow]

end Session

/-- What a write that may fail puts into the file. -/
def DataIO.stored : DataIO → List Byte → List Byte
  | .writeFails m, data => data.take m
  | _, data => data

/-- What a frame puts into the file after the chunks `l`. -/
def adds (n k : Nat) (l : List (Int × List Byte)) (io : DataIO) : Option (Int × List Byte) → List Byte
  | some x => if Unknown n k (seen n k l) x.1 then io.stored x.2 else []
  | none => []

theorem adds_some (l : List (Int × List Byte)) (io : DataIO) (x : Int × List Byte) :
    adds n k l io (some x) = if Unknown n k (seen n k l) x.1 then io.stored x.2 else [] := rfl

theorem adds_none (l : List (Int × List Byte)) (io : DataIO) : adds n k l io none = [] := rfl

/-- The session after the chunks `l`: they lie in the file from the position `p` on, where `L` was before. -/
structure Logged (n k p : Nat) (i : String × Nat) (L : List Byte) (l : List (Int × List Byte)) (fs : FS) (s : Session) :
    Prop where
  marks : Marks s.bitmap n fun m => (m < k ∧ m < n) ∨ (m : Int) ∈ seen n k l ∧ m < 64 * ((n + 63) / 64)
  content : fs.content i = Files.overwrite L p (bytes n k l)
  file : s.tmpFile = some ⟨i, p + (bytes n k l).length⟩

section

variable {env : Env} {p : Nat} {i : String × Nat} {L : List Byte} {l : List (Int × List Byte)} {fs : FS} {s : Session}

theorem Logged.has (h : Logged n k p i L l fs s) {seq : Int} (hlow : -64 < seq) :
    bitmapHas s.bitmap seq = .ok !decide (Unknown n k (seen n k l) seq) := by
  by_cases hneg : seq < 0
  · have hunknown : Unknown n k (seen n k l) seq := ⟨hlow, fun hk => by omega⟩
    rw [bitmapHas_neg _ hneg, if_neg (by omega), decide_eq_true hunknown]
    rfl
  · obtain ⟨m, rfl⟩ := Int.eq_ofNat_of_zero_le (Int.not_lt.1 hneg)
    rw [bitmapHas_natCast]
    congr 1
    rw [Bool.eq_iff_iff, h.marks.mem, Bool.not_eq_true', decide_eq_false_iff_not]
    unfold Unknown
    constructor
    · rintro hknown ⟨-, hno⟩
      refine hno ⟨by omega, ?_⟩
      rcases hknown with hlt | ⟨hmem, hlt⟩
      · exact ⟨by omega, .inl (by omega)⟩
      · exact ⟨by exact_mod_cast hlt, .inr hmem⟩
    · intro hno
      by_contra hunknown
      refine hno ⟨hlow, ?_⟩
      rintro ⟨-, hlt, hless | hmem⟩
      · exact hunknown (.inl (by omega))
      · exact hunknown (.inr ⟨hmem, by exact_mod_cast hlt⟩)

theorem Logged.congr {fs' : FS} {d : Session} (h : Logged n k p i L l fs s) (hfs : fs' = fs) (hb : d.bitmap = s.bitmap)
    (hf : d.tmpFile = s.tmpFile) : Logged n k p i L l fs' d :=
  ⟨hb ▸ h.marks, hfs ▸ h.content, hf.trans h.file⟩

theorem Logged.known (h : Logged n k p i L l fs s) {x : Int × List Byte} (hx : ¬Unknown n k (seen n k l) x.1) :
    Logged n k p i L (l ++ [x]) fs s := by
  have hsame : written n k (l ++ [x]) = written n k l := by rw [written_concat, if_neg hx]
  have hseen : seen n k (l ++ [x]) = seen n k l := congrArg (List.map Prod.fst) hsame
  have hbytes : bytes n k (l ++ [x]) = bytes n k l := congrArg (List.flatMap Prod.snd) hsame
  exact ⟨hseen ▸ h.marks, hbytes ▸ h.content, hbytes ▸ h.file⟩

theorem Logged.set (h : Logged n k p i L l fs s) {seq : Int} (hlow : -64 < seq) :
    ∃ b, bitmapSet s.bitmap seq = .ok b ∧
      Marks b n fun m => (m < k ∧ m < n) ∨ (m : Int) ∈ seen n k l ++ [seq] ∧ m < 64 * ((n + 63) / 64) := by
  by_cases hneg : seq < 0
  · refine ⟨s.bitmap, bitmapSet_neg _ hneg hlow, h.marks.congr fun m => ?_⟩
    have hne : (m : Int) ≠ seq := by omega
    simp [hne]
  · obtain ⟨j, rfl⟩ := Int.eq_ofNat_of_zero_le (Int.not_lt.1 hneg)
    obtain ⟨b, hb, hmarks⟩ := h.marks.setAny j
    refine ⟨b, hb, hmarks.congr fun m => ?_⟩
    rw [List.mem_append, List.mem_singleton, Int.natCast_inj, or_and_right, or_assoc]

theorem Logged.store (h : Logged n k p i L l fs s) {x : Int × List Byte} (hx : Unknown n k (seen n k l) x.1)
    (io : DataIO) :
    (s.store fs x.1 x.2 io).1.dir = fs.dir ∧
      (s.store fs x.1 x.2 io).1.content i = Files.overwrite L p (bytes n k l ++ io.stored x.2) ∧
      ((s.store fs x.1 x.2 io).2.1.stage = .loop →
        Logged n k p i L (l ++ [x]) (s.store fs x.1 x.2 io).1 (s.store fs x.1 x.2 io).2.1) := by
  have hwrite : ∀ data, (fs.write i (p + (bytes n k l).length) data).content i =
      Files.overwrite L p (bytes n k l ++ data) := by
    intro data
    rw [Files.System.content_write, h.content, Files.overwrite_overwrite]
  obtain ⟨b, hb, hmarks⟩ := h.set hx.1
  have hnew : written n k (l ++ [x]) = written n k l ++ [x] := by rw [written_concat, if_pos hx]
  have hseen : seen n k (l ++ [x]) = seen n k l ++ [x.1] := by
    unfold seen
    rw [hnew, List.map_append, List.map_singleton]
  have hbytes : bytes n k (l ++ [x]) = bytes n k l ++ x.2 := by
    unfold bytes
    rw [hnew, List.flatMap_append, List.flatMap_singleton]
  unfold Session.store
  rw [h.file]
  cases io with
  | writeFails m => exact ⟨rfl, hwrite _, fun hst => by cases hst⟩
  | ok | ackFails =>
    simp only [hb]
    have hlogged : Logged n k p i L (l ++ [x]) (fs.write i (p + (bytes n k l).length) x.2)
        { s with tmpFile := some ⟨i, p + (bytes n k l).length + x.2.length⟩, bitmap := b
                 doneBytes := s.doneBytes + x.2.length } := by
      refine ⟨hseen ▸ hmarks, hbytes ▸ hwrite x.2, ?_⟩
      rw [hbytes, List.length_append, Nat.add_assoc]
    obtain ⟨hfs, hbitmap, hfile, -⟩ := Session.acknowledge_frame (fs.write i (p + (bytes n k l).length) x.2)
      { s with tmpFile := some ⟨i, p + (bytes n k l).length + x.2.length⟩, bitmap := b
               doneBytes := s.doneBytes + x.2.length } _
    exact ⟨by rw [hfs]; rfl, (congrArg (Files.System.content · i) hfs).trans (hwrite x.2),
      fun _ => hlogged.congr hfs hbitmap hfile⟩

theorem Logged.receive (h : Logged n k p i L l fs s) (env : Env) (f : Frame) (io : DataIO) :
    (s.receive env fs f io).1.dir = fs.dir ∧
      (s.receive env fs f io).1.content i = Files.overwrite L p (bytes n k l ++ adds n k l io (s.chunkOf env f)) ∧
      ((s.receive env fs f io).2.1.stage = .loop →
        Logged n k p i L (l ++ (s.chunkOf env f).toList) (s.receive env fs f io).1 (s.receive env fs f io).2.1) := by
  cases hchunk : s.chunkOf env f with
  | none =>
    obtain ⟨hfs, hsame⟩ := Session.receive_of_no_chunk fs io hchunk
    rw [hfs, adds_none, List.append_nil, Option.toList_none, List.append_nil]
    refine ⟨rfl, h.content, fun hst => ?_⟩
    rw [hsame hst]
    exact h
  | some x =>
    rw [Option.toList_some, adds_some]
    by_cases hlow : x.1 ≤ -64
    · have hx : ¬Unknown n k (seen n k l) x.1 := fun hx => absurd hx.1 (by omega)
      rw [Session.receive_of_low fs io hchunk hlow, if_neg hx, List.append_nil]
      exact ⟨rfl, h.content, fun hst => by cases hst⟩
    · obtain ⟨htyp, hunpack⟩ := Session.chunkOf_eq_some hchunk
      rw [Session.receive_of_has fs io htyp hunpack (h.has (by omega))]
      by_cases hx : Unknown n k (seen n k l) x.1
      · rw [decide_eq_true hx, if_pos hx]
        exact h.store hx io
      · obtain ⟨hfs, hbitmap, hfile, -⟩ := Session.acknowledge_frame fs s io
        rw [decide_eq_false hx, if_neg hx, List.append_nil]
        exact ⟨congrArg Files.System.dir hfs, (congrArg (Files.System.content · i) hfs).trans h.content,
          fun _ => (h.known hx).congr hfs hbitmap hfile⟩

/-! ### The frames of a peer -/

/-- `receiveLoop` on frames, with what becomes of each write and its ACK. -/
def receiveAll (env : Env) (z : FS × Session) (frames : List (Frame × DataIO)) : FS × Session :=
  frames.foldl (fun x f =>
    if x.2.stage = .loop then ((x.2.receive env x.1 f.1 f.2).1, (x.2.receive env x.1 f.1 f.2).2.1) else x) z

def chunksOf (env : Env) (s : Session) (frames : List (Frame × DataIO)) : List (Int × List Byte) :=
  frames.filterMap fun f => s.chunkOf env f.1

variable {z : FS × Session}

theorem receiveAll_concat (env : Env) (z : FS × Session) (pre : List (Frame × DataIO)) (f : Frame × DataIO) :
    receiveAll env z (pre ++ [f]) =
      let x := receiveAll env z pre
      if x.2.stage = .loop then ((x.2.receive env x.1 f.1 f.2).1, (x.2.receive env x.1 f.1 f.2).2.1) else x := by
  unfold receiveAll
  rw [List.foldl_append]
  rfl

theorem init_receiveAll (env : Env) (z : FS × Session) (frames : List (Frame × DataIO)) :
    (receiveAll env z frames).2.init = z.2.init := by
  induction frames using List.reverseRecOn with
  | nil => rfl
  | append_singleton pre f ih =>
    rw [receiveAll_concat]
    simp only
    split
    · exact (Session.init_receive _ _ _ _ _).trans ih
    · exact ih

theorem Logged.run (h : Logged n k p i L [] z.1 z.2) (env : Env) (frames : List (Frame × DataIO))
    (hst : (receiveAll env z frames).2.stage = .loop) :
    (receiveAll env z frames).1.dir = z.1.dir ∧
      Logged n k p i L (chunksOf env z.2 frames) (receiveAll env z frames).1 (receiveAll env z frames).2 := by
  induction frames using List.reverseRecOn with
  | nil => exact ⟨rfl, h⟩
  | append_singleton pre f ih =>
    rw [receiveAll_concat] at hst ⊢
    simp only at hst ⊢
    split at hst
    · rename_i hloop
      obtain ⟨hdir, hlog⟩ := ih hloop
      obtain ⟨hdir', -, hlog'⟩ := hlog.receive env f.1 f.2
      have hchunks : chunksOf env z.2 (pre ++ [f]) =
          chunksOf env z.2 pre ++ ((receiveAll env z pre).2.chunkOf env f.1).toList := by
        rw [Session.chunkOf_congr env (init_receiveAll env z pre)]
        unfold chunksOf
        rw [List.filterMap_append, List.filterMap_cons, List.filterMap_nil]
        cases z.2.chunkOf env f.1 <;> rfl
      rw [if_pos hloop, hchunks]
      exact ⟨hdir'.trans hdir, hlog' hst⟩
    · exact absurd hst ‹_›

/-- The frame after `pre` is read, and it changes `.part`. -/
def Changes (env : Env) (z : FS × Session) (pre : List (Frame × DataIO)) (f : Frame × DataIO) : Prop :=
  (receiveAll env z pre).2.stage = .loop ∧
    (receiveAll env z (pre ++ [f])).1.read (z.2.tmpPath env) ≠ (receiveAll env z pre).1.read (z.2.tmpPath env)

theorem Logged.read (h : Logged n k p i L [] z.1 z.2) {env : Env} (hdir : z.1.dir (z.2.tmpPath env) = some i)
    {pre : List (Frame × DataIO)} (hst : (receiveAll env z pre).2.stage = .loop) (f : Frame × DataIO) :
    (receiveAll env z pre).1.read (z.2.tmpPath env) = some (Files.overwrite L p (bytes n k (chunksOf env z.2 pre))) ∧
      (receiveAll env z (pre ++ [f])).1.read (z.2.tmpPath env) =
        some (Files.overwrite L p (bytes n k (chunksOf env z.2 pre) ++
          adds n k (chunksOf env z.2 pre) f.2 (z.2.chunkOf env f.1))) := by
  obtain ⟨hsame, hlog⟩ := h.run env pre hst
  obtain ⟨hsame', hcontent, -⟩ := hlog.receive env f.1 f.2
  rw [Session.chunkOf_congr env (init_receiveAll env z pre)] at hcontent
  unfold Files.System.read
  rw [receiveAll_concat, hsame, hdir]
  simp only [if_pos hst]
  rw [hsame', hsame, hdir, ← hlog.content, ← hcontent]
  exact ⟨rfl, rfl⟩

theorem Logged.changes_iff (h : Logged n k p i L [] z.1 z.2) {env : Env} (hdir : z.1.dir (z.2.tmpPath env) = some i)
    {pre : List (Frame × DataIO)} (hst : (receiveAll env z pre).2.stage = .loop) (f : Frame × DataIO) :
    Changes env z pre f ↔ ∃ x, z.2.chunkOf env f.1 = some x ∧ Unknown n k (seen n k (chunksOf env z.2 pre)) x.1 ∧
      ¬f.2.stored x.2 <+: L.drop (p + (bytes n k (chunksOf env z.2 pre)).length) := by
  obtain ⟨hbefore, hafter⟩ := h.read hdir hst f
  unfold Changes
  rw [and_iff_right hst, hbefore, hafter, Ne, Option.some_inj, ← Files.overwrite_overwrite, Files.overwrite_eq_self_iff,
    Files.drop_overwrite]
  cases hchunk : z.2.chunkOf env f.1 with
  | none =>
    rw [adds_none]
    exact iff_of_false (fun hno => hno List.nil_prefix) (by simp)
  | some x =>
    rw [adds_some]
    by_cases hx : Unknown n k (seen n k (chunksOf env z.2 pre)) x.1
    · rw [if_pos hx]
      exact ⟨fun hno => ⟨x, rfl, hx, hno⟩, fun ⟨_, heq, _, hno⟩ => Option.some.inj heq ▸ hno⟩
    · rw [if_neg hx]
      exact iff_of_false (fun hno => hno List.nil_prefix) fun ⟨_, heq, hx', _⟩ => hx (Option.some.inj heq ▸ hx')

theorem Logged.once (h : Logged n k p i L [] z.1 z.2) {env : Env} (hdir : z.1.dir (z.2.tmpPath env) = some i)
    {pre post : List (Frame × DataIO)} {f g : Frame × DataIO} {x y : Int × List Byte}
    (hf : Changes env z (pre ++ g :: post) f) (hg : Changes env z pre g) (hx : z.2.chunkOf env f.1 = some x)
    (hy : z.2.chunkOf env g.1 = some y) (hn : 0 ≤ x.1 ∧ x.1 < n) : y.1 ≠ x.1 := by
  intro heq
  obtain ⟨x', hx', hunknown, -⟩ := (h.changes_iff hdir hf.1 f).1 hf
  obtain ⟨y', hy', hfresh, -⟩ := (h.changes_iff hdir hg.1 g).1 hg
  rw [hx] at hx'
  rw [hy] at hy'
  cases hx'
  cases hy'
  have hsplit : chunksOf env z.2 (pre ++ g :: post) = chunksOf env z.2 pre ++ y :: chunksOf env z.2 post := by
    unfold chunksOf
    rw [List.filterMap_append, List.filterMap_cons, hy]
  rw [hsplit, ← heq] at hunknown
  exact not_unknown_of_written hfresh (heq ▸ hn) hunknown

end

/-- Writes are confined: a frame that changes `.part` is the first with its number, below the number of chunks, and
`.part` is not longer than all chunks afterwards. -/
def Confined (env : Env) (z : FS × Session) (frames : List (Frame × DataIO)) : Prop :=
  ∀ pre f post, frames = pre ++ f :: post → Changes env z pre f →
    ∃ x, z.2.chunkOf env f.1 = some x ∧ (0 ≤ x.1 ∧ x.1 < z.2.init.totalChunks) ∧
      (∀ pre' g post' y, pre = pre' ++ g :: post' → Changes env z pre' g → z.2.chunkOf env g.1 = some y → y.1 ≠ x.1) ∧
      ∃ content, (receiveAll env z (pre ++ [f])).1.read (z.2.tmpPath env) = some content ∧
        (content.length : Int) ≤ z.2.init.totalChunks * z.2.init.chunkSize

/-- A chunk that is not known brings bytes that are there already (none, where the file ends), or its number is below
the number of chunks and it ends within their length. -/
def Orderly (env : Env) (z : FS × Session) (k p : Nat) (L : List Byte) (frames : List (Frame × DataIO)) : Prop :=
  let n := z.2.init.totalChunks.toNat
  ∀ pre f post x, frames = pre ++ f :: post → (receiveAll env z pre).2.stage = .loop → z.2.chunkOf env f.1 = some x →
    Unknown n k (seen n k (chunksOf env z.2 pre)) x.1 →
    let q := p + (bytes n k (chunksOf env z.2 pre)).length
    f.2.stored x.2 <+: L.drop q ∨
      (0 ≤ x.1 ∧ x.1 < z.2.init.totalChunks) ∧
        ((q + (f.2.stored x.2).length : Nat) : Int) ≤ z.2.init.totalChunks * z.2.init.chunkSize

theorem Logged.confined_iff {p : Nat} {i : String × Nat} {L : List Byte} {z : FS × Session} {c : Nat}
    (hlog : Logged z.2.init.totalChunks.toNat k p i L [] z.1 z.2) {env : Env} (hdir : z.1.dir (z.2.tmpPath env) = some i)
    (hchunk : z.2.init.chunkSize = c) (hlen : L.length ≤ k * c) (frames : List (Frame × DataIO)) :
    Confined env z frames ↔ Orderly env z k p L frames := by
  unfold Confined Orderly
  simp only [hchunk]
  generalize z.2.init.totalChunks = T at *
  constructor
  · intro hconf pre f post v hsplit hst hv hunknown
    by_contra hbad
    obtain ⟨hnew, hout⟩ := not_or.1 hbad
    have hchanges := (hlog.changes_iff hdir hst f).2 ⟨v, hv, hunknown, hnew⟩
    obtain ⟨w, hw, hin, -, content, hread, hle⟩ := hconf pre f post hsplit hchanges
    cases hv.symm.trans hw
    -- the file ends where the chunk does, or behind it
    have hcontent := Option.some.inj (hread.symm.trans (hlog.read hdir hst f).2)
    have hne : f.2.stored v.2 ≠ [] := fun hnil => hnew (hnil ▸ List.nil_prefix)
    rw [hcontent, hv, adds_some, if_pos hunknown,
      Files.length_overwrite _ _ (List.append_ne_nil_of_right_ne_nil _ hne), List.length_append] at hle
    refine hout ⟨hin, le_trans ?_ hle⟩
    omega
  · intro hord pre f post hsplit hchanges
    obtain ⟨v, hv, hunknown, hnew⟩ := (hlog.changes_iff hdir hchanges.1 f).1 hchanges
    obtain ⟨hin, hle⟩ := (hord pre f post v hsplit hchanges.1 hv hunknown).resolve_left hnew
    refine ⟨v, hv, hin, ?_, _, (hlog.read hdir hchanges.1 f).2, ?_⟩
    · rintro pre' g post' w rfl hg hw
      exact hlog.once hdir hchanges hg hv hw (by omega)
    · have hne : f.2.stored v.2 ≠ [] := fun hnil => hnew (hnil ▸ List.nil_prefix)
      have hk : (k : Int) ≤ T := by
        have := hunknown.2
        omega
      have hwhole : (L.length : Int) ≤ T * c :=
        le_trans (by exact_mod_cast hlen) (Int.mul_le_mul_of_nonneg_right hk (by omega))
      rw [hv, adds_some, if_pos hunknown, Files.length_overwrite _ _ (List.append_ne_nil_of_right_ne_nil _ hne),
        List.length_append]
      omega

/-- A session that sent ACCEPT keeps the writes of its peer confined exactly if the peer's frames are orderly. -/
theorem writes_confined_iff {env : Env} {c : Nat} {fs₀ : FS} {s₀ : Session} {openable created : Bool}
    {x y z : FS × Session × List Reply} (hc : 0 < c) (hchunk : s₀.init.chunkSize = c) (hfits : s₀.init.Fits)
    (hbegin : s₀.step env fs₀ (.begin true openable) = some x)
    (hprepare : x.2.1.step env x.1 (.prepare created) = some y)
    (haccept : y.2.1.step env y.1 (.accept true) = some z) (frames : List (Frame × DataIO)) :
    ∃ (k : Nat) (L : List Byte) (h : Handle), z.2.2 = [.accept k] ∧ z.1.read (s₀.tmpPath env) = some L ∧
      z.2.1.tmpFile = some h ∧
      (Confined env (z.1, z.2.1) frames ↔ Orderly env (z.1, z.2.1) k h.cursor L frames) := by
  have hn : s₀.init.totalChunks.toNat < 2 ^ 63 := by
    have := hfits.2.2.1.2
    omega
  obtain ⟨k, hreply, hstart⟩ := started_of_steps hc hn hchunk rfl hbegin hprepare haccept
  obtain ⟨i, p, hdir, hfile, hpart⟩ := hstart.part
  have htmp : s₀.tmpPath env = z.2.1.tmpPath env := by
    unfold Session.tmpPath Session.savePath
    rw [hstart.init]
  refine ⟨k, z.1.content i, ⟨i, p⟩, hreply, ?_, hfile, ?_⟩
  · unfold Files.System.read
    rw [htmp, hdir]
    rfl
  have hlen : (z.1.content i).length ≤ k * c := by
    rcases hpart with ⟨-, -, hk, -⟩ | ⟨-, hnil, -⟩
    · rw [hk]
      exact le_count_mul hc _
    · rw [hnil]
      exact Nat.zero_le _
  rw [← hstart.init] at hchunk
  have hmarks := hstart.marks
  rw [← hstart.init] at hmarks
  exact Logged.confined_iff (z := (z.1, z.2.1)) ⟨hmarks.congr fun m => by simp [seen, written], rfl, hfile⟩ hdir hchunk hlen
    frames

def oneChunk : Session := { init := plainInit [7] 1 }

def rawFrame (seq : Int) (data : List Byte) : Frame := ⟨frameTypeData, packDataFrame storing seq data .none⟩

theorem writes_confined_one :
    ∃ x y z, oneChunk.step plainEnv (holding []) (.begin true true) = some x ∧
      x.2.1.step plainEnv x.1 (.prepare true) = some y ∧ y.2.1.step plainEnv y.1 (.accept true) = some z ∧
      Confined plainEnv (z.1, z.2.1) [(rawFrame 0 [7], .ok)] := by
  refine ⟨_, _, _, rfl, rfl, rfl, ?_⟩
  obtain ⟨k, L, h, hk, hL, hh, hiff⟩ := writes_confined_iff (c := 1) (by decide) rfl (by decide)
    (show oneChunk.step plainEnv (holding []) (.begin true true) = some _ from rfl)
    (show Session.step plainEnv _ _ (.prepare true) = some _ from rfl) rfl [(rawFrame 0 [7], .ok)]
  have hk0 : (0 : Int) = k := Reply.accept.inj (List.singleton_inj.1 hk)
  have hcursor : 0 = h.cursor := congrArg Handle.cursor (Option.some.inj hh)
  refine hiff.2 ?_
  rw [← hcursor, ← Option.some.inj hL, show k = 0 by omega]
  intro pre f post v hsplit hst hv hunknown
  rcases pre with _ | ⟨g, pre⟩
  · cases hsplit
    cases hv
    exact .inr ⟨⟨by decide, by decide⟩, by decide⟩
  · have hnil := (List.cons.inj hsplit).2
    simp at hnil

/-- The number 1 lies behind the only chunk, and its byte is written; so are two bytes for the chunk of one byte. -/
theorem peer_writes_outside :
    ∃ x y z, oneChunk.step plainEnv (holding []) (.begin true true) = some x ∧
      x.2.1.step plainEnv x.1 (.prepare true) = some y ∧ y.2.1.step plainEnv y.1 (.accept true) = some z ∧
      (receiveAll plainEnv (z.1, z.2.1) [(rawFrame 1 [8], .ok)]).1.read (oneChunk.tmpPath plainEnv) = some [8] ∧
      ¬Confined plainEnv (z.1, z.2.1) [(rawFrame 1 [8], .ok)] ∧
      (receiveAll plainEnv (z.1, z.2.1) [(rawFrame 0 [7, 8], .ok)]).1.read (oneChunk.tmpPath plainEnv) = some [7, 8] ∧
      ¬Confined plainEnv (z.1, z.2.1) [(rawFrame 0 [7, 8], .ok)] := by
  refine ⟨_, _, _, rfl, rfl, rfl, rfl, fun hconf => ?_, rfl, fun hconf => ?_⟩
  · obtain ⟨v, hv, hin, -⟩ := hconf [] _ [] rfl ⟨rfl, by decide⟩
    cases hv
    exact absurd hin.2 (by decide)
  · obtain ⟨v, -, -, -, content, hread, hle⟩ := hconf [] _ [] rfl ⟨rfl, by decide⟩
    cases hread
    exact absurd hle (by decide)

end Libp2px.RelayFile
