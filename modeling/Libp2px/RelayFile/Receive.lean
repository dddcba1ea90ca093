import Libp2px.Lib.Chunks
import Libp2px.RelayFile.Session

/-!
# Chunks at the receiver

`HandleFileStream` and the DATA case of `receiveLoop` for a number of chunks that fits: the bitmap is the set of the
chunks received, at first of those in `.part`, and a chunk is written if it is not in the set.
-/

namespace Libp2px.RelayFile

/-- The bitmap for `n` chunks holds the set. -/
structure Marks (bitmap : List (BitVec 64)) (n : Nat) (marked : Nat → Prop) : Prop where
  length : bitmap.length = (n + 63) / 64
  mem : ∀ m, bits bitmap m = true ↔ marked m

namespace Marks

variable {bitmap : List (BitVec 64)} {n : Nat} {marked : Nat → Prop}

theorem replicate_zero (n : Nat) : Marks (List.replicate ((n + 63) / 64) 0) n fun _ => False := by
  refine ⟨List.length_replicate, fun m => iff_of_false ?_ id⟩
  unfold bits
  rw [List.getD_eq_getElem?_getD, List.getElem?_replicate]
  split <;> simp

theorem setAny (h : Marks bitmap n marked) (j : Nat) :
    ∃ b, bitmapSet bitmap j = .ok b ∧ Marks b n fun m => marked m ∨ m = j ∧ m < 64 * ((n + 63) / 64) := by
  obtain ⟨b, hb, hlen, hbits⟩ := bitmapSet_natCast bitmap j
  refine ⟨b, hb, ⟨hlen.trans h.length, fun m => ?_⟩⟩
  rw [hbits, Bool.or_eq_true, h.mem, h.length, decide_eq_true_eq]
  apply or_congr_right
  apply and_congr_right
  rintro rfl
  omega

theorem set (h : Marks bitmap n marked) {j : Nat} (hj : j < n) :
    ∃ b, bitmapSet bitmap j = .ok b ∧ Marks b n fun m => marked m ∨ m = j := by
  obtain ⟨b, hb, hmarks⟩ := h.setAny j
  refine ⟨b, hb, hmarks.length, fun m => ?_⟩
  rw [hmarks.mem]
  apply or_congr_right
  apply and_iff_left_of_imp
  rintro rfl
  omega

theorem gap (h : Marks bitmap n marked) :
    ∃ r : Nat, bitmapMaxContinuous bitmap n = .ok r ∧ r ≤ n ∧ (∀ m < r, marked m) ∧ (r < n → ¬marked r) := by
  obtain ⟨r, hr, hle, hall, hgap⟩ := bitmapMaxContinuous_natCast bitmap n
  refine ⟨r, hr, hle, fun m hm => (h.mem m).1 (hall m hm), fun hlt hmark => ?_⟩
  have hbit := (h.mem r).2 hmark
  rw [hgap hlt] at hbit
  cases hbit

theorem setFirst (h : Marks bitmap n fun _ => False) (k : Nat) :
    ∃ b, bitmapSetFirst bitmap (min k n) = .ok b ∧ Marks b n fun m => m < k ∧ m < n := by
  obtain ⟨b, hb, hlen, hbits⟩ := bitmapSetFirst_spec bitmap (min k n)
  refine ⟨b, hb, hlen.trans h.length, fun m => ?_⟩
  have hfresh : bits bitmap m = false := Bool.eq_false_iff.2 (h.mem m).1
  rw [hbits, hfresh, Bool.false_or, decide_eq_true_eq, h.length]
  omega

theorem congr {other : Nat → Prop} (h : Marks bitmap n marked) (hiff : ∀ m, marked m ↔ other m) :
    Marks bitmap n other :=
  ⟨h.length, fun m => (h.mem m).trans (hiff m)⟩

end Marks

theorem wrap64_of_lt {x : Int} (hlo : -2 ^ 63 ≤ x) (hhi : x < 2 ^ 63) : wrap64 x = x :=
  Int.bmod_eq_of_le (by omega) (by omega)

namespace Session

open Chunks

variable {env : Env} {fs : FS} {s : Session}

theorem makeBitmap_marks {t : Int} {b : List (BitVec 64)} (ht : t < 2 ^ 63) (h : makeBitmap t = .ok b) :
    Marks b t.toNat fun _ => False := by
  unfold makeBitmap at h
  by_cases hpos : t > 0
  · rw [if_pos hpos] at h
    simp only at h
    split at h
    · cases h
    · rename_i hfit
      by_cases hbig : t + 63 < 2 ^ 63
      · rw [wrap64_of_lt (by omega) hbig] at h
        have hlen : ((t + 63).tdiv 64).toNat = (t.toNat + 63) / 64 := by
          rw [Int.tdiv_eq_ediv_of_nonneg (by omega)]
          omega
        rw [hlen] at h
        cases h
        exact Marks.replicate_zero t.toNat
      · have hwrap : wrap64 (t + 63) = t + 63 - 2 ^ 64 := by
          unfold wrap64
          rw [Int.bmod_def]
          omega
        rw [hwrap] at hfit
        have := (tdiv_tmod_neg (show t + 63 - 2 ^ 64 < 0 by omega)).1 (by omega)
        omega
  · rw [if_neg hpos] at h
    cases h
    rw [Int.toNat_of_nonpos (by omega)]
    exact Marks.replicate_zero 0

theorem position_of_marks {n k : Nat} (htotal : s.init.totalChunks.toNat = n)
    (hm : Marks s.bitmap n fun m => m < k ∧ m < n) (i : String × Nat) :
    s.position i k = .ok { s with tmpFile := some ⟨i, (wrap64 (k * s.init.chunkSize)).toNat⟩
                                  startSeq := k, lastAck := k, stage := .ready } := by
  obtain ⟨r, hr, hrk⟩ : ∃ r, bitmapMaxContinuous s.bitmap s.init.totalChunks = .ok r ∧ ¬r > k := by
    by_cases hneg : s.init.totalChunks < 0
    · exact ⟨_, if_pos hneg, by omega⟩
    · obtain ⟨r, hr, -, hall, -⟩ := hm.gap
      have heq : s.init.totalChunks = n := by omega
      refine ⟨r, heq ▸ hr, fun hgt => ?_⟩
      have := hall k (by omega)
      omega
  have hcursor : ∀ x : Int, (if x < 0 then 0 else x.toNat) = x.toNat := by
    intro x
    split <;> omega
  unfold position
  simp only [hr, if_neg hrk, hcursor]

theorem prepare_opened (env : Env) (fs : FS) (i : String × Nat) (created : Bool) {c n k : Nat} (hc : 0 < c)
    (hchunk : s.init.chunkSize = c) (htotal : s.init.totalChunks.toNat = n) (hm : Marks s.bitmap n fun _ => False)
    (hk : k = count c (fs.content i).length) :
    ∃ b, Marks b n (fun m => m < k ∧ m < n) ∧
      s.prepare env fs (some i) created =
        (fs, { s with bitmap := b, doneBytes := (fs.content i).length, tmpFile := some ⟨i, (wrap64 (k * c)).toNat⟩
                      startSeq := k, lastAck := k, stage := .ready }, []) := by
  obtain ⟨b, hb, hmarks⟩ := hm.setFirst k
  refine ⟨b, hmarks, ?_⟩
  have hwritten : ((fs.content i).length : Int).tdiv s.init.chunkSize +
      (if ((fs.content i).length : Int).tmod s.init.chunkSize ≠ 0 then 1 else 0) = k := by
    have hdiv : ((fs.content i).length : Int).tdiv c = ((fs.content i).length / c : Nat) := rfl
    have hmod : ((fs.content i).length : Int).tmod c = ((fs.content i).length % c : Nat) := rfl
    rw [hchunk, hk, hdiv, hmod]
    unfold count
    split_ifs <;> omega
  have hres : s.resume (fs.content i).length = .ok (b, k) := by
    have hmin : (min (k : Int) s.init.totalChunks).toNat = min k n := by omega
    unfold resume
    rw [if_neg (by omega)]
    simp only [hwritten, hmin, hb]
  have hpos := position_of_marks (s := { s with bitmap := b, doneBytes := (fs.content i).length }) htotal hmarks i
  unfold prepare
  simp only [hres, hpos, hchunk]

theorem prepare_created (env : Env) (fs : FS) {n : Nat} (htotal : s.init.totalChunks.toNat = n)
    (hm : Marks s.bitmap n fun _ => False) :
    s.prepare env fs none true =
      ((fs.create (s.tmpPath env)).1,
        { s with tmpFile := some ⟨(fs.create (s.tmpPath env)).2, 0⟩, startSeq := 0, lastAck := 0, stage := .ready }, []) := by
  have hpos := position_of_marks (k := 0) htotal (hm.congr fun m => by simp) (fs.create (s.tmpPath env)).2
  have hzero : (wrap64 ((0 : Nat) * s.init.chunkSize)).toNat = 0 := by
    rw [Nat.cast_zero, Int.zero_mul]
    rfl
  rw [hzero] at hpos
  unfold prepare
  rw [Nat.cast_zero] at hpos
  simp only [hpos, if_true]

theorem acknowledge_of_marks (fs : FS) (io : DataIO) {n : Nat} {marked : Nat → Prop} {last : Nat} (hm : Marks s.bitmap n marked)
    (htotal : s.init.totalChunks = n) (hlast : s.lastAck = last) (hn : n < 2 ^ 63) (hle : last < 2 ^ 63) :
    ∃ r : Nat, r ≤ n ∧ (∀ m < r, marked m) ∧ (r < n → ¬marked r) ∧
      acknowledge fs s io =
        if (last + ackBatch ≤ r ∨ r = n) ∧ last < r then
          if io = .ackFails then (fs, { s with stage := .failed }, [])
          else (fs, { s with lastAck := r }, [.ack (r - 1)])
        else (fs, s, []) := by
  obtain ⟨r, hr, hle', hall, hgap⟩ := hm.gap
  refine ⟨r, hle', hall, hgap, ?_⟩
  have hwrap : wrap64 ((r : Int) - last) = r - last := wrap64_of_lt (by omega) (by omega)
  have hcond : ((wrap64 ((r : Int) - s.lastAck) ≥ ackBatch ∨ (r : Int) ≥ s.init.totalChunks) ∧ (r : Int) > s.lastAck) ↔
      (last + ackBatch ≤ r ∨ r = n) ∧ last < r := by
    rw [hlast, htotal, hwrap]
    unfold ackBatch
    omega
  unfold acknowledge
  rw [htotal, hr]
  simp only [← htotal, hcond]

theorem receive_of_has (fs : FS) {f : Frame} {seq : Int} {data : List Byte} (io : DataIO) {b : Bool}
    (htyp : f.typ = frameTypeData) (hunpack : unpackDataFrame env.zstd f.payload s.compression = .ok (seq, data))
    (hhas : bitmapHas s.bitmap seq = .ok b) :
    s.receive env fs f io = if b then acknowledge fs s io else store fs s seq data io := by
  have hother : ¬(f.typ = frameTypeCancel ∨ f.typ = frameTypeError) := by
    rw [htyp]
    decide
  unfold receive receiveData
  rw [if_neg hother, if_pos htyp, hunpack]
  simp only [hhas]
  cases b <;> rfl

structure Carries (env : Env) (s : Session) (f : Frame) (j : Nat) (data : List Byte) : Prop where
  typ : f.typ = frameTypeData
  unpack : unpackDataFrame env.zstd f.payload s.compression = .ok (j, data)

theorem receive_eq (fs : FS) {f : Frame} {j : Nat} {data : List Byte} (io : DataIO) (hf : s.Carries env f j data) :
    s.receive env fs f io = if bits s.bitmap j then acknowledge fs s io else store fs s j data io :=
  receive_of_has fs io hf.typ hf.unpack (bitmapHas_natCast s.bitmap j)

theorem store_eq (fs : FS) (data : List Byte) {io : DataIO} (hio : ∀ m, io ≠ .writeFails m) {n j : Nat}
    {marked : Nat → Prop} {h : Handle} (hm : Marks s.bitmap n marked) (hj : j < n) (hfile : s.tmpFile = some h) :
    ∃ b, Marks b n (fun m => marked m ∨ m = j) ∧
      store fs s j data io = acknowledge (fs.write h.inode h.cursor data)
        { s with tmpFile := some { h with cursor := h.cursor + data.length }, bitmap := b
                 doneBytes := s.doneBytes + data.length } io := by
  obtain ⟨b, hb, hmarks⟩ := hm.set hj
  refine ⟨b, hmarks, ?_⟩
  unfold store
  rw [hfile]
  cases io with
  | writeFails m => exact absurd rfl (hio m)
  | ok | ackFails => simp only [hb]

end Session

end Libp2px.RelayFile
