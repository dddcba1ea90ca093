import Libp2px.Lib.BigEndian

/-!
# Frames of the file protocol

`frameWrite` and `frameRead` of `p2put/relayfile.go`, and the DATA payload of `p2put/filecomp.go`: eight bytes of
sequence number and the chunk, or, compressed, four more bytes with the length of the chunk and a block of the zstd
library.  A stream that ends is a list of bytes; the zstd library is a parameter.
-/

namespace Libp2px.RelayFile

abbrev Byte := BitVec 8

/-! ### Frames -/

/-- How `io.ReadFull` fails: before the first byte, or after it. -/
inductive ReadError
  | eof
  | unexpectedEOF
  deriving DecidableEq, Repr

def ReadError.message : ReadError → String
  | eof => "EOF"
  | unexpectedEOF => "unexpected EOF"

/-- `io.ReadFull` of `n` bytes from a stream that ends. -/
def readFull (n : Nat) (s : List Byte) : Except ReadError (List Byte × List Byte) :=
  if n ≤ s.length then .ok (s.take n, s.drop n) else if s = [] then .error .eof else .error .unexpectedEOF

inductive FrameError
  | len (e : ReadError)
  | type (e : ReadError)
  | payload (e : ReadError)
  deriving DecidableEq, Repr

def FrameError.message : FrameError → String
  | len e => "read frame len: " ++ e.message
  | type e => "read frame type: " ++ e.message
  | payload e => "read frame payload: " ++ e.message

structure Frame where
  typ : Byte
  payload : List Byte
  deriving DecidableEq, Repr

/-- `frameWrite`: the length as an `uint32`, the type, and the payload. -/
def frameWrite (f : Frame) : List Byte := BigEndian.encode 4 f.payload.length ++ [f.typ] ++ f.payload

def frameRead (s : List Byte) : Except FrameError (Frame × List Byte) :=
  match readFull 4 s with
  | .error e => .error (.len e)
  | .ok (lenBytes, s) =>
    match readFull 1 s with
    | .error e => .error (.type e)
    | .ok (typBuf, s) =>
      if BigEndian.decode lenBytes > 0 then
        match readFull (BigEndian.decode lenBytes) s with
        | .error e => .error (.payload e)
        | .ok (payload, s) => .ok (⟨typBuf.headD 0, payload⟩, s)
      else .ok (⟨typBuf.headD 0, []⟩, s)

/-- `frameRead` again and again: the frames, and the error that ends them with what was left of the stream. -/
def readFrames : Nat → List Byte → List Frame × Option (FrameError × List Byte)
  | 0, _ => ([], none)
  | fuel + 1, s =>
    match frameRead s with
    | .error e => ([], some (e, s))
    | .ok (f, rest) =>
      let r := readFrames fuel rest
      (f :: r.1, r.2)

/-! ### Chunks -/

inductive Compression
  | zstd
  | none
  deriving DecidableEq, Repr

def Compression.name : Compression → String
  | zstd => "zstd"
  | none => "none"

/-- The zstd library: the encoder, and what its stream decoder yields before it ends (`none`: it cannot be opened). -/
structure Zstd where
  encode : List Byte → List Byte
  decode : List Byte → Option (List Byte)

/-- A block that is not empty is encoded to a string that is not empty, and the decoder maps it back. -/
def Zstd.Lawful (z : Zstd) : Prop := ∀ block, block ≠ [] → z.encode block ≠ [] ∧ z.decode (z.encode block) = some block

inductive UnpackError
  | unexpectedEOF
  | newReader
  | read (e : ReadError)
  deriving DecidableEq, Repr

def zstdCompressBlock (z : Zstd) (src : List Byte) : List Byte := if src = [] then [] else z.encode src

def zstdDecompressBlock (z : Zstd) (src : List Byte) (uncompLen : Nat) : Except UnpackError (List Byte) :=
  if src = [] then .ok []
  else
    match z.decode src with
    | none => .error .newReader
    | some out =>
      match readFull uncompLen out with
      | .error e => .error (.read e)
      | .ok (dst, _) => .ok dst

/-- `packDataFrame`; the conversion to `uint64` keeps the sequence number modulo 2^64. -/
def packDataFrame (z : Zstd) (seq : Int) (data : List Byte) : Compression → List Byte
  | .zstd =>
    BigEndian.encode 8 (BitVec.ofInt 64 seq).toNat ++ BigEndian.encode 4 data.length ++ zstdCompressBlock z data
  | .none => BigEndian.encode 8 (BitVec.ofInt 64 seq).toNat ++ data

def unpackDataFrame (z : Zstd) (payload : List Byte) (c : Compression) : Except UnpackError (Int × List Byte) :=
  if payload.length < 8 then .error .unexpectedEOF
  else
    let seq := (BitVec.ofNat 64 (BigEndian.decode (payload.take 8))).toInt
    match c with
    | .zstd =>
      if payload.length < 12 then .error .unexpectedEOF
      else
        match zstdDecompressBlock z (payload.drop 12) (BigEndian.decode ((payload.drop 8).take 4)) with
        | .error e => .error e
        | .ok data => .ok (seq, data)
    | .none => .ok (seq, payload.drop 8)

/-! ### Round trips -/

theorem readFull_append (a b : List Byte) : readFull a.length (a ++ b) = .ok (a, b) := by
  unfold readFull
  rw [if_pos (by simp), List.take_left, List.drop_left]

theorem readFull_of_lt {n : Nat} {s : List Byte} (h : s.length < n) : ∃ e, readFull n s = .error e := by
  unfold readFull
  rw [if_neg (Nat.not_le.2 h)]
  split
  · exact ⟨_, rfl⟩
  · exact ⟨_, rfl⟩

theorem length_frameWrite (f : Frame) : (frameWrite f).length = f.payload.length + 5 := by
  simp [frameWrite]
  omega

theorem frameRead_frameWrite {f : Frame} (rest : List Byte) (h : f.payload.length < 2 ^ 32) :
    frameRead (frameWrite f ++ rest) = .ok (f, rest) := by
  obtain ⟨typ, payload⟩ := f
  have hlen := readFull_append (BigEndian.encode 4 payload.length) ([typ] ++ (payload ++ rest))
  have htyp := readFull_append [typ] (payload ++ rest)
  have hdec : BigEndian.decode (BigEndian.encode 4 payload.length) = payload.length :=
    BigEndian.decode_encode_of_lt h
  rw [BigEndian.length_encode] at hlen
  unfold frameRead frameWrite
  simp only [List.append_assoc]
  rw [hlen]
  simp only
  rw [show readFull 1 ([typ] ++ (payload ++ rest)) = _ from htyp]
  simp only [hdec, readFull_append payload rest, List.headD_cons]
  split
  · rfl
  · rename_i hzero
    have hnil : payload = [] := List.length_eq_zero_iff.1 (by omega)
    rw [hnil]
    rfl

theorem frameRead_of_cut {f : Frame} {t : List Byte} (h : f.payload.length < 2 ^ 32) (ht : t <+: frameWrite f)
    (hcut : t.length < (frameWrite f).length) : ∃ e, frameRead t = .error e := by
  obtain ⟨typ, payload⟩ := f
  have hdec : BigEndian.decode (BigEndian.encode 4 payload.length) = payload.length :=
    BigEndian.decode_encode_of_lt h
  have hlen : (frameWrite ⟨typ, payload⟩).length = payload.length + 5 := length_frameWrite _
  have htake : t = (frameWrite ⟨typ, payload⟩).take t.length := List.prefix_iff_eq_take.1 ht
  unfold frameRead
  by_cases h4 : t.length < 4
  · obtain ⟨e, he⟩ := readFull_of_lt h4
    rw [he]
    exact ⟨_, rfl⟩
  · -- the length has arrived
    obtain ⟨u, hu⟩ : ∃ u, t = BigEndian.encode 4 payload.length ++ u := by
      have hsplit : t = BigEndian.encode 4 payload.length ++ ([typ] ++ payload).take (t.length - 4) := by
        rw [htake, frameWrite, List.append_assoc, List.take_append, BigEndian.length_encode,
          List.take_of_length_le (by simp; omega)]
        simp
      exact ⟨_, hsplit⟩
    have hread := readFull_append (BigEndian.encode 4 payload.length) u
    rw [BigEndian.length_encode] at hread
    rw [hu, hread]
    simp only
    have hul : u.length < payload.length + 1 := by
      have := congrArg List.length hu
      simp at this
      omega
    cases u with
    | nil =>
      obtain ⟨e, he⟩ := readFull_of_lt (n := 1) (s := []) (by simp)
      rw [he]
      exact ⟨_, rfl⟩
    | cons b v =>
      have hbyte := readFull_append [b] v
      rw [show readFull 1 (b :: v) = _ from hbyte]
      simp only [hdec]
      have hv : v.length < payload.length := by simpa using hul
      rw [if_pos (by omega)]
      obtain ⟨e, he⟩ := readFull_of_lt hv
      rw [he]
      exact ⟨_, rfl⟩

theorem readFrames_append (fs : List Frame) (hfs : ∀ f ∈ fs, f.payload.length < 2 ^ 32) (t : List Byte) (fuel : Nat) :
    readFrames (fs.length + fuel) (fs.flatMap frameWrite ++ t) =
      (fs ++ (readFrames fuel t).1, (readFrames fuel t).2) := by
  induction fs with
  | nil => simp
  | cons f fs ih =>
    have hf := hfs f (List.mem_cons_self ..)
    have ih' := ih fun g hg => hfs g (List.mem_cons_of_mem _ hg)
    rw [List.length_cons, Nat.add_right_comm, readFrames, List.flatMap_cons, List.append_assoc,
      frameRead_frameWrite _ hf]
    simp only [ih', List.cons_append]

theorem exists_cut (fs : List Frame) {p : List Byte} (hp : p <+: fs.flatMap frameWrite) (hne : p ≠ fs.flatMap frameWrite) :
    ∃ k f t, fs[k]? = some f ∧ p = (fs.take k).flatMap frameWrite ++ t ∧ t <+: frameWrite f ∧
      t.length < (frameWrite f).length := by
  induction fs generalizing p with
  | nil => exact absurd (List.prefix_nil.1 hp) hne
  | cons f fs ih =>
    rw [List.flatMap_cons] at hp hne
    by_cases hlt : p.length < (frameWrite f).length
    · exact ⟨0, f, p, rfl, rfl, List.prefix_of_prefix_length_le hp (List.prefix_append _ _) hlt.le, hlt⟩
    · obtain ⟨q, rfl⟩ : ∃ q, p = frameWrite f ++ q := by
        obtain ⟨q, hq⟩ := List.prefix_of_prefix_length_le (List.prefix_append _ _) hp (Nat.not_lt.1 hlt)
        exact ⟨q, hq.symm⟩
      have hq : q <+: fs.flatMap frameWrite := (List.prefix_append_right_inj _).1 hp
      obtain ⟨k, g, t, hk, rfl, ht, hcut⟩ := ih hq fun h => hne (by rw [h])
      exact ⟨k + 1, g, t, hk, by simp, ht, hcut⟩

theorem zstdDecompressBlock_zstdCompressBlock {z : Zstd} (hz : z.Lawful) (data : List Byte) :
    zstdDecompressBlock z (zstdCompressBlock z data) data.length = .ok data := by
  unfold zstdDecompressBlock zstdCompressBlock
  by_cases hnil : data = []
  · rw [if_pos hnil, if_pos rfl, hnil]
  · obtain ⟨hne, hdec⟩ := hz data hnil
    have hread := readFull_append data []
    rw [List.append_nil] at hread
    rw [if_neg hnil, if_neg hne, hdec]
    simp only [hread]

theorem decode_encode_seq {seq : Int} (hseq : -2 ^ 63 ≤ seq ∧ seq < 2 ^ 63) :
    (BitVec.ofNat 64 (BigEndian.decode (BigEndian.encode 8 (BitVec.ofInt 64 seq).toNat))).toInt = seq := by
  rw [BigEndian.decode_encode_of_lt (BitVec.isLt _), BitVec.ofNat_toNat, BitVec.setWidth_eq, BitVec.toInt_ofInt]
  exact Int.bmod_eq_of_le (by omega) (by omega)

theorem unpackDataFrame_packDataFrame_none (z : Zstd) {seq : Int} (data : List Byte) (hseq : 0 ≤ seq ∧ seq < 2 ^ 63) :
    unpackDataFrame z (packDataFrame z seq data .none) .none = .ok (seq, data) := by
  have hback := decode_encode_seq ⟨by omega, hseq.2⟩
  have hlen8 : (BigEndian.encode 8 (BitVec.ofInt 64 seq).toNat).length = 8 := BigEndian.length_encode _ _
  unfold unpackDataFrame packDataFrame
  generalize BigEndian.encode 8 (BitVec.ofInt 64 seq).toNat = num at hback hlen8
  have hlen : ¬(num ++ data).length < 8 := by
    rw [List.length_append]
    omega
  simp only [if_neg hlen, List.take_left' hlen8, List.drop_left' hlen8, hback]

theorem unpackDataFrame_packDataFrame {z : Zstd} (hz : z.Lawful) {seq : Int} {data : List Byte} (c : Compression)
    (hseq : 0 ≤ seq ∧ seq < 2 ^ 63) (hdata : data.length < 2 ^ 32) :
    unpackDataFrame z (packDataFrame z seq data c) c = .ok (seq, data) := by
  cases c with
  | none => exact unpackDataFrame_packDataFrame_none z data hseq
  | zstd =>
    have hback := decode_encode_seq ⟨by omega, hseq.2⟩
    have hlen8 : (BigEndian.encode 8 (BitVec.ofInt 64 seq).toNat).length = 8 := BigEndian.length_encode _ _
    unfold unpackDataFrame packDataFrame
    generalize BigEndian.encode 8 (BitVec.ofInt 64 seq).toNat = num at hback hlen8
    have hcount : BigEndian.decode (BigEndian.encode 4 data.length) = data.length :=
      BigEndian.decode_encode_of_lt hdata
    have hlen4 : (BigEndian.encode 4 data.length).length = 4 := BigEndian.length_encode _ _
    generalize BigEndian.encode 4 data.length = count at hcount hlen4
    have hdrop : (num ++ (count ++ zstdCompressBlock z data)).drop 12 = zstdCompressBlock z data := by
      have hdrop8 : (num ++ (count ++ zstdCompressBlock z data)).drop 8 = count ++ zstdCompressBlock z data :=
        List.drop_left' hlen8
      have hsum := List.drop_drop (l := num ++ (count ++ zstdCompressBlock z data)) (i := 4) (j := 8)
      rw [hdrop8, List.drop_left' hlen4] at hsum
      exact hsum.symm
    have hlen : 12 ≤ (num ++ (count ++ zstdCompressBlock z data)).length := by
      rw [List.length_append, List.length_append]
      omega
    simp only [List.append_assoc, if_neg (show ¬(num ++ (count ++ zstdCompressBlock z data)).length < 8 by omega),
      if_neg (Nat.not_lt.2 hlen), List.take_left' hlen8, List.drop_left' hlen8, List.take_left' hlen4, hdrop,
      hcount, hback, zstdDecompressBlock_zstdCompressBlock hz]

/-- `frameRead` reads a stream of frames to its last byte, and of one that is cut the complete frames; and a chunk
survives its DATA payload. -/
theorem codec_round_trip {z : Zstd} (hz : z.Lawful) :
    (∀ fs : List Frame, (∀ f ∈ fs, f.payload.length < 2 ^ 32) →
      (∀ fuel, fs.length < fuel → readFrames fuel (fs.flatMap frameWrite) = (fs, some (.len .eof, []))) ∧
      ∀ p, p <+: fs.flatMap frameWrite → p ≠ fs.flatMap frameWrite → ∃ k t e, k < fs.length ∧
        p = (fs.take k).flatMap frameWrite ++ t ∧ p.length < ((fs.take (k + 1)).flatMap frameWrite).length ∧
        ∀ fuel, k < fuel → readFrames fuel p = (fs.take k, some (e, t))) ∧
    ∀ (seq : Int) (data : List Byte) (c : Compression), 0 ≤ seq → seq < 2 ^ 63 → data.length < 2 ^ 32 →
      unpackDataFrame z (packDataFrame z seq data c) c = .ok (seq, data) := by
  refine ⟨fun fs hfs => ⟨fun fuel hfuel => ?_, fun p hp hne => ?_⟩, fun seq data c h0 h1 hdata => ?_⟩
  · obtain ⟨n, rfl⟩ : ∃ n, fuel = fs.length + (n + 1) := ⟨fuel - fs.length - 1, by omega⟩
    have hall := readFrames_append fs hfs [] (n + 1)
    rw [List.append_nil] at hall
    rw [hall]
    simp [readFrames, frameRead, readFull]
  · obtain ⟨k, f, t, hk, rfl, ht, hcut⟩ := exists_cut fs hp hne
    obtain ⟨hklt, hkf⟩ := List.getElem?_eq_some_iff.1 hk
    obtain ⟨e, he⟩ := frameRead_of_cut (hfs f (List.mem_of_getElem? hk)) ht hcut
    refine ⟨k, t, e, hklt, rfl, ?_, fun fuel hfuel => ?_⟩
    · rw [List.take_add_one, hk, List.flatMap_append, List.length_append, List.length_append]
      simpa using hcut
    · obtain ⟨n, rfl⟩ : ∃ n, fuel = (fs.take k).length + (n + 1) := ⟨fuel - k - 1, by simp; omega⟩
      rw [readFrames_append _ (fun g hg => hfs g (List.mem_of_mem_take hg)), readFrames, he]
      simp
  · exact unpackDataFrame_packDataFrame hz c ⟨h0, h1⟩ hdata

/-- A library that stores every block after a byte. -/
def storing : Zstd where
  encode block := 1 :: block
  decode src := some src.tail

theorem storing_lawful : storing.Lawful := fun _ _ => ⟨List.cons_ne_nil _ _, rfl⟩

/-- Two frames, cut after the first one; and an empty chunk. -/
theorem codec_round_trip_storing :
    readFrames 3 ([⟨3, [7, 8]⟩, ⟨5, []⟩].flatMap frameWrite) = ([⟨3, [7, 8]⟩, ⟨5, []⟩], some (.len .eof, [])) ∧
      unpackDataFrame storing (packDataFrame storing 9 [] .zstd) .zstd = .ok (9, []) := by
  obtain ⟨hframes, hdata⟩ := codec_round_trip storing_lawful
  refine ⟨(hframes [⟨3, [7, 8]⟩, ⟨5, []⟩] ?_).1 3 (by decide), hdata 9 [] .zstd (by decide) (by decide) (by decide)⟩
  simp

end Libp2px.RelayFile
