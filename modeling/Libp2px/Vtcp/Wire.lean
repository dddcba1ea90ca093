import Libp2px.Vtcp.Handshake

/-!
# The wire format

`ParseSegment` and `Marshal` of `vtcp/segment.go`, `ParseOptions` and `BuildOptions` of `vtcp/options.go`.  The header
length has four bits, so only 40 bytes of options can be told from the payload; within this bound, marshalling and
parsing give a segment back without its checksum.  The options of the segments that a connection sends stay within the
bound, and so do those that `ParseSegment` returns, whatever the bytes it was given.
-/

namespace Libp2px.Vtcp

open Transition

/-! ### The codec -/

/-- The round of `BuildOptions` for one option. -/
def encodeOption (o : TcpOption) : List Byte :=
  if o.kind = optNOP then [optNOP] else o.kind :: BitVec.ofNat 8 (2 + o.data.length) :: o.data

/-- `BuildOptions`: the options one after the other, padded with zeros to a multiple of four bytes. -/
def buildOptions (opts : List TcpOption) : List Byte :=
  let buf := opts.flatMap encodeOption
  buf ++ List.replicate ((4 - buf.length % 4) % 4) optEnd

/-- The loop of `ParseOptions`. Every round takes a byte, so `fuel` at least the number of bytes is never used up. -/
def parseOptionsLoop : Nat → List Byte → List TcpOption
  | 0, _ => []
  | _ + 1, [] => []
  | fuel + 1, kind :: raw =>
    if kind = optEnd then []
    else if kind = optNOP then ⟨optNOP, []⟩ :: parseOptionsLoop fuel raw
    else
      match raw with
      | [] => []
      | l :: raw =>
        if l.toNat < 2 ∨ l.toNat > raw.length + 2 then []
        else ⟨kind, raw.take (l.toNat - 2)⟩ :: parseOptionsLoop fuel (raw.drop (l.toNat - 2))

def parseOptions (raw : List Byte) : List TcpOption := parseOptionsLoop raw.length raw

inductive ParseError
  | tooShort
  | dataOffset
  deriving DecidableEq, Repr

def ParseError.message : ParseError → String
  | .tooShort => "segment too short"
  | .dataOffset => "invalid data offset"

def parseSegment (raw : List Byte) : Except ParseError Segment :=
  if raw.length < 20 then .error .tooShort
  else
    let dataOff := (raw.getD 12 0 >>> 4).toNat * 4
    if dataOff < 20 ∨ dataOff > raw.length then .error .dataOffset
    else
      .ok
        { srcPort := uint16 raw
          dstPort := uint16 (raw.drop 2)
          seq := uint32 (raw.drop 4)
          ack := uint32 (raw.drop 8)
          flags := raw.getD 13 0
          window := uint16 (raw.drop 14)
          checksum := uint16 (raw.drop 16)
          urgent := uint16 (raw.drop 18)
          options := if dataOff > 20 then parseOptions ((raw.take dataOff).drop 20) else []
          payload := raw.drop dataOff }

namespace Segment

/-- The fixed part of the header, with the byte `off` of the header length. -/
def fixedHeader (s : Segment) (off : Byte) : List Byte :=
  putUint16 s.srcPort ++ (putUint16 s.dstPort ++ (putUint32 s.seq ++ (putUint32 s.ack ++ ([off, s.flags] ++
    (putUint16 s.window ++ ([0, 0] ++ putUint16 s.urgent))))))

/-- `marshalHeader`: the checksum stays zero. -/
def marshalHeader (s : Segment) : List Byte :=
  let optBytes := if s.options = [] then [] else buildOptions s.options
  let hdrLen := 20 + optBytes.length
  s.fixedHeader (BitVec.ofNat 8 (hdrLen / 4) <<< 4) ++ optBytes

def marshal (s : Segment) : List Byte := s.marshalHeader ++ s.payload

end Segment

/-- The options that survive marshalling: no END, NOPs without data, lengths that fit in their byte, and 40 bytes in
all. -/
structure OptionsFit (opts : List TcpOption) : Prop where
  kind : ∀ o ∈ opts, o.kind ≠ optEnd
  nop : ∀ o ∈ opts, o.kind = optNOP → o.data = []
  data : ∀ o ∈ opts, o.data.length ≤ 253
  total : (buildOptions opts).length ≤ 40

/-! ### Options -/

theorem length_buildOptions (opts : List TcpOption) :
    (buildOptions opts).length % 4 = 0 ∧ (opts.flatMap encodeOption).length ≤ (buildOptions opts).length ∧
      (buildOptions opts).length < (opts.flatMap encodeOption).length + 4 := by
  unfold buildOptions
  simp only [List.length_append, List.length_replicate]
  omega

theorem parseOptionsLoop_encodeOption (fuel : Nat) {o : TcpOption} (rest : List Byte) (hkind : o.kind ≠ optEnd)
    (hnop : o.kind = optNOP → o.data = []) (hdata : o.data.length ≤ 253) :
    parseOptionsLoop (fuel + 1) (encodeOption o ++ rest) = o :: parseOptionsLoop fuel rest := by
  unfold encodeOption
  by_cases hk : o.kind = optNOP
  · have ho : (⟨optNOP, []⟩ : TcpOption) = o := by
      rw [← hk, ← hnop hk]
    rw [if_pos hk, List.singleton_append]
    simp only [parseOptionsLoop, if_true]
    rw [if_neg (by decide), ho]
  · have hlen : (BitVec.ofNat 8 (2 + o.data.length)).toNat = 2 + o.data.length := by
      rw [BitVec.toNat_ofNat, Nat.mod_eq_of_lt (by omega)]
    have hfits : ¬(2 + o.data.length < 2 ∨ 2 + o.data.length > (o.data ++ rest).length + 2) := by
      rw [List.length_append]
      omega
    rw [if_neg hk, List.cons_append, List.cons_append, parseOptionsLoop, if_neg hkind, if_neg hk]
    simp only [hlen]
    rw [if_neg hfits, Nat.add_sub_cancel_left, List.take_left, List.drop_left]

theorem parseOptionsLoop_flatMap (fuel k : Nat) {opts : List TcpOption} (hkind : ∀ o ∈ opts, o.kind ≠ optEnd)
    (hnop : ∀ o ∈ opts, o.kind = optNOP → o.data = []) (hdata : ∀ o ∈ opts, o.data.length ≤ 253)
    (hfuel : opts.length ≤ fuel) :
    parseOptionsLoop fuel (opts.flatMap encodeOption ++ List.replicate k optEnd) = opts := by
  induction opts generalizing fuel with
  | nil =>
    cases fuel with
    | zero => rfl
    | succ fuel => cases k <;> rfl
  | cons o opts ih =>
    cases fuel with
    | zero => cases hfuel
    | succ fuel =>
      rw [List.flatMap_cons, List.append_assoc,
        parseOptionsLoop_encodeOption fuel _ (hkind o (by simp)) (hnop o (by simp)) (hdata o (by simp)),
        ih fuel (fun o ho => hkind o (by simp [ho])) (fun o ho => hnop o (by simp [ho]))
          (fun o ho => hdata o (by simp [ho])) (by simpa using hfuel)]

theorem one_le_length_encodeOption (o : TcpOption) : 1 ≤ (encodeOption o).length := by
  unfold encodeOption
  split <;> simp

theorem length_le_flatMap (opts : List TcpOption) : opts.length ≤ (opts.flatMap encodeOption).length := by
  induction opts with
  | nil => simp
  | cons o opts ih =>
    have := one_le_length_encodeOption o
    rw [List.flatMap_cons, List.length_append, List.length_cons]
    omega

theorem parseOptions_buildOptions {opts : List TcpOption} (h : OptionsFit opts) :
    parseOptions (buildOptions opts) = opts := by
  have hlen := length_buildOptions opts
  have hcount := length_le_flatMap opts
  exact parseOptionsLoop_flatMap _ _ h.kind h.nop h.data (by omega)

theorem parseOptionsLoop_fits (fuel : Nat) (raw : List Byte) :
    (∀ o ∈ parseOptionsLoop fuel raw, o.kind ≠ optEnd ∧ (o.kind = optNOP → o.data = []) ∧ o.data.length ≤ 253) ∧
      ((parseOptionsLoop fuel raw).flatMap encodeOption).length ≤ raw.length := by
  fun_induction parseOptionsLoop fuel raw with
  | case1 => simp
  | case2 => simp
  | case3 => simp
  | case4 fuel raw hend ih =>
    obtain ⟨ih₁, ih₂⟩ := ih
    refine ⟨?_, ?_⟩
    · intro o ho
      rcases List.mem_cons.1 ho with rfl | ho
      · exact ⟨hend, fun _ => rfl, by simp⟩
      · exact ih₁ o ho
    · have hone : (encodeOption ⟨optNOP, []⟩).length = 1 := rfl
      rw [List.flatMap_cons, List.length_append, hone, List.length_cons]
      omega
  | case5 => simp
  | case6 => simp
  | case7 fuel kind hend hnop l raw hl ih =>
    obtain ⟨ih₁, ih₂⟩ := ih
    have hlt := l.isLt
    have htake : (raw.take (l.toNat - 2)).length = l.toNat - 2 := by
      rw [List.length_take]
      omega
    refine ⟨?_, ?_⟩
    · intro o ho
      rcases List.mem_cons.1 ho with rfl | ho
      · exact ⟨hend, fun h => absurd h hnop, by rw [htake]; omega⟩
      · exact ih₁ o ho
    · have hone : (encodeOption ⟨kind, raw.take (l.toNat - 2)⟩).length = l.toNat := by
        unfold encodeOption
        rw [if_neg hnop, List.length_cons, List.length_cons, htake]
        omega
      rw [List.length_drop] at ih₂
      rw [List.flatMap_cons, List.length_append, hone, List.length_cons, List.length_cons]
      omega

theorem optionsFit_parseOptions {raw : List Byte} (hpad : raw.length % 4 = 0) (hmax : raw.length ≤ 40) :
    OptionsFit (parseOptions raw) := by
  obtain ⟨hok, hlen⟩ := parseOptionsLoop_fits raw.length raw
  refine ⟨fun o ho => (hok o ho).1, fun o ho => (hok o ho).2.1, fun o ho => (hok o ho).2.2, ?_⟩
  have hbuild := length_buildOptions (parseOptions raw)
  unfold parseOptions at hbuild ⊢
  omega

/-! ### Segments -/

theorem uint16_putUint16_append (x : BitVec 16) (rest : List Byte) : uint16 (putUint16 x ++ rest) = x :=
  uint16_putUint16 x

theorem uint32_putUint32_append (x : BitVec 32) (rest : List Byte) : uint32 (putUint32 x ++ rest) = x := by
  have hx := x.isLt
  apply BitVec.eq_of_toNat_eq
  simp only [uint32, putUint32, List.cons_append, List.getD_cons_zero, List.getD_cons_succ, BitVec.toNat_ofNat]
  omega

theorem toNat_headerLength {n : Nat} (hn : n < 16) : ((BitVec.ofNat 8 n <<< 4) >>> 4).toNat = n := by
  rw [BitVec.toNat_ushiftRight, BitVec.toNat_shiftLeft, BitVec.toNat_ofNat, Nat.shiftLeft_eq, Nat.shiftRight_eq_div_pow]
  omega

namespace Segment

theorem length_fixedHeader (s : Segment) (off : Byte) : (s.fixedHeader off).length = 20 := rfl

theorem parseSegment_fixedHeader (s : Segment) {off : Byte} {n : Nat} {rest : List Byte}
    (hoff : (off >>> 4).toNat * 4 = 20 + n) (hn : n ≤ rest.length) :
    parseSegment (s.fixedHeader off ++ rest) = .ok
      { s with checksum := 0, options := if n > 0 then parseOptions (rest.take n) else [], payload := rest.drop n } := by
  have hlen : (s.fixedHeader off ++ rest).length = 20 + rest.length := by
    rw [List.length_append, length_fixedHeader]
  have hbyte : (s.fixedHeader off ++ rest).getD 12 0 = off := rfl
  have hopts : ((s.fixedHeader off ++ rest).take (20 + n)).drop 20 = rest.take n := by
    rw [← s.length_fixedHeader off, List.take_length_add_append, List.drop_left]
  have hpayload : (s.fixedHeader off ++ rest).drop (20 + n) = rest.drop n := by
    rw [← s.length_fixedHeader off, List.drop_length_add_append]
  unfold parseSegment
  simp only [hlen, hbyte, hoff]
  rw [if_neg (by omega), if_neg (by omega), hopts, hpayload]
  have hif : (20 + n > 20) = (n > 0) := by
    rw [eq_iff_iff]
    omega
  have hsrc : uint16 (s.fixedHeader off ++ rest) = s.srcPort := uint16_putUint16_append _ _
  have hdst : uint16 ((s.fixedHeader off ++ rest).drop 2) = s.dstPort := uint16_putUint16_append _ _
  have hseq : uint32 ((s.fixedHeader off ++ rest).drop 4) = s.seq := uint32_putUint32_append _ _
  have hack : uint32 ((s.fixedHeader off ++ rest).drop 8) = s.ack := uint32_putUint32_append _ _
  have hflags : (s.fixedHeader off ++ rest).getD 13 0 = s.flags := rfl
  have hwindow : uint16 ((s.fixedHeader off ++ rest).drop 14) = s.window := uint16_putUint16_append _ _
  have hsum : uint16 ((s.fixedHeader off ++ rest).drop 16) = 0 := uint16_putUint16_append 0 _
  have hurgent : uint16 ((s.fixedHeader off ++ rest).drop 18) = s.urgent := uint16_putUint16_append _ _
  simp only [hif, hsrc, hdst, hseq, hack, hflags, hwindow, hsum, hurgent]

theorem parseSegment_marshal (s : Segment) (h : OptionsFit s.options) :
    parseSegment s.marshal = .ok { s with checksum := 0 } := by
  have hpad := (length_buildOptions s.options).1
  have htotal := h.total
  unfold marshal marshalHeader
  simp only
  by_cases hnil : s.options = []
  · have hbuild : (if s.options = [] then [] else buildOptions s.options) = [] := if_pos hnil
    rw [hbuild, List.append_nil]
    have hoff := toNat_headerLength (n := 5) (by decide)
    rw [parseSegment_fixedHeader s (n := 0) (by rw [List.length_nil, hoff]) (by omega)]
    simp [hnil]
  · have hbuild : (if s.options = [] then [] else buildOptions s.options) = buildOptions s.options := if_neg hnil
    have hpos : 0 < (buildOptions s.options).length := by
      have h1 := length_le_flatMap s.options
      have h2 := (length_buildOptions s.options).2.1
      have h3 := List.length_pos_iff.2 hnil
      omega
    have hoff := toNat_headerLength (n := (20 + (buildOptions s.options).length) / 4) (by omega)
    rw [hbuild, List.append_assoc, parseSegment_fixedHeader s (n := (buildOptions s.options).length)
      (by rw [hoff]; omega) (by rw [List.length_append]; omega), if_pos hpos, List.take_left, List.drop_left,
      parseOptions_buildOptions h]

end Segment

theorem optionsFit_parseSegment {raw : List Byte} {s : Segment} (h : parseSegment raw = .ok s) :
    OptionsFit s.options := by
  unfold parseSegment at h
  simp only at h
  split at h
  · cases h
  · split at h
    · cases h
    · cases h
      simp only
      split
      · have hnibble : (raw.getD 12 0 >>> 4).toNat < 16 := by
          have := (raw.getD 12 0).isLt
          rw [BitVec.toNat_ushiftRight, Nat.shiftRight_eq_div_pow]
          omega
        apply optionsFit_parseOptions
        · rw [List.length_drop, List.length_take]
          omega
        · rw [List.length_drop, List.length_take]
          omega
      · exact ⟨by simp, by simp, by simp, by decide⟩

/-! ### The options of a connection -/

theorem length_sackOption (blocks : List SACKBlock) : (sackOption blocks).data.length = 8 * blocks.length := by
  unfold sackOption
  induction blocks with
  | nil => rfl
  | cons b blocks ih =>
    simp only [List.flatMap_cons, List.length_append, List.length_cons] at ih ⊢
    rw [ih]
    simp only [putUint32, List.length_cons, List.length_nil]
    omega

theorem length_timestampOption (tsVal tsEcr : BitVec 32) : (timestampOption tsVal tsEcr).data.length = 8 := rfl

theorem optionsFit_of_sizes {opts : List TcpOption} (hkind : ∀ o ∈ opts, o.kind ≠ optEnd ∧ o.kind ≠ optNOP)
    (hsize : (opts.map fun o => 2 + o.data.length).sum ≤ 40) : OptionsFit opts := by
  have hlen : (opts.flatMap encodeOption).length = (opts.map fun o => 2 + o.data.length).sum := by
    rw [List.length_flatMap]
    congr 1
    refine List.map_congr_left fun o ho => ?_
    rw [encodeOption, if_neg (hkind o ho).2, List.length_cons, List.length_cons]
    omega
  have hbuild := length_buildOptions opts
  refine ⟨fun o ho => (hkind o ho).1, fun o ho hnop => absurd hnop (hkind o ho).2, fun o ho => ?_, by omega⟩
  have hone := List.single_le_sum (by simp) _ (List.mem_map_of_mem (f := fun o => 2 + o.data.length) ho)
  omega

theorem Core.Reports.optionsFit {s : Core} {seg : Segment} (h : s.Reports seg) (hsyn : seg.hasFlag flagSYN = false) :
    OptionsFit seg.options := by
  have hsack : (sackOption s.recvBuf.sackBlocks).data.length ≤ 24 := by
    rw [length_sackOption, RecvBuf.sackBlocks, List.length_map, List.length_take]
    omega
  have hkind : (sackOption s.recvBuf.sackBlocks).kind = optSACK := rfl
  have hopts := h.options hsyn
  generalize sackOption s.recvBuf.sackBlocks = sack at hsack hkind hopts
  rcases hopts with hopts | ⟨tsVal, tsEcr, hopts⟩
  · rw [hopts]
    exact ⟨by simp, by simp, by simp, by decide⟩
  · rw [hopts]
    apply optionsFit_of_sizes
    · cases s.tsOK <;> cases s.sackOK && s.opened && s.recvBuf.hasOOO <;>
        simp [hkind, timestampOption, optTimestamp, optSACK, optEnd, optNOP]
    · cases s.tsOK <;> cases s.sackOK && s.opened && s.recvBuf.hasOOO <;> simp [length_timestampOption] <;> omega

theorem Core.IsSyn.optionsFit {s : Core} {seg : Segment} (h : IsSyn s seg) : OptionsFit seg.options := by
  obtain ⟨ts, hopts⟩ := h.options
  rw [hopts]
  apply optionsFit_of_sizes
  · cases s.sackEnabled <;> cases s.tsEnabled <;>
      simp [mssOption, wscaleOption, sackPermOption, timestampOption, optMSS, optWScale, optSACKPerm, optTimestamp, optEnd,
        optNOP]
  · cases s.sackEnabled <;> cases s.tsEnabled <;>
      simp [mssOption, wscaleOption, sackPermOption, length_timestampOption, putUint16]

theorem CoreStep.optionsFit {e : Event} {o : Occasion} {s t : Core} (h : CoreStep e o s t)
    (hs : ∀ p ∈ s.emitted, OptionsFit p.seg.options) : ∀ p ∈ t.emitted, OptionsFit p.seg.options := by
  have hemit : ∀ {seg : Segment} {x y : Nat}, OptionsFit seg.options →
      ∀ p ∈ s.emitted ++ [⟨seg, x, y⟩], OptionsFit p.seg.options := by
    intro seg x y hseg p hp
    rcases List.mem_append.1 hp with hp | hp
    · exact hs p hp
    · rw [List.mem_singleton.1 hp]
      exact hseg
  cases h with
  | connect _ _ _ hsyn => exact hemit hsyn.optionsFit
  | acceptSYN _ _ _ hsyn => exact hemit hsyn.optionsFit
  | syn _ hsyn => exact hemit hsyn.optionsFit
  | control hc hrep => exact hemit (hrep.optionsFit hc.syn)
  | chunk _ _ hd hrep => exact hemit (hrep.optionsFit hd.syn)
  | rexmit _ _ _ hd hrep => exact hemit (hrep.optionsFit hd.syn)
  | fin _ _ _ _ hf hrep => exact hemit (hrep.optionsFit hf.syn)
  | refin _ _ _ _ hf hrep => exact hemit (hrep.optionsFit hf.syn)
  | finIn | finDeferred =>
    unfold Core.consumeFIN
    simp only
    split <;> exact hs
  | _ => exact hs

namespace Host

variable {σ : Type} [CongestionController σ]

theorem optionsFit_sent {P : Host σ → Event → Prop} {h : Host σ} (hr : (system σ).Reach P h) :
    ∀ p ∈ h.sent, OptionsFit p.seg.options := by
  have hcore : ∀ p ∈ h.core.emitted, OptionsFit p.seg.options := by
    refine reach_core (I := fun s => ∀ p ∈ s.emitted, OptionsFit p.seg.options) hr ?_ ?_
    · intro cfg now p hp
      cases hp
    · intro g e t hg _ hsteps
      refine hsteps.induction ?_ fun s u hs hst => hst.optionsFit hs
      cases e <;> exact hg
  exact fun p hp => hcore p (List.mem_append_left _ hp)

/-- A segment whose options fit comes back from the wire with a zero checksum; the options of every segment that a
connection sends fit; and what `ParseSegment` accepts at all comes back once it is marshalled. -/
theorem wire_round_trip :
    (∀ s : Segment, OptionsFit s.options → parseSegment s.marshal = .ok { s with checksum := 0 }) ∧
      (∀ h : Host σ, (system σ).Reach anyStep h → ∀ p ∈ h.sent, OptionsFit p.seg.options) ∧
      ∀ (raw : List Byte) (s : Segment), parseSegment raw = .ok s →
        parseSegment s.marshal = .ok { s with checksum := 0 } :=
  ⟨fun s hs => s.parseSegment_marshal hs, fun _ hr => optionsFit_sent hr,
    fun _ s hraw => s.parseSegment_marshal (optionsFit_parseSegment hraw)⟩

def rawSegment : List Byte :=
  [0, 1, 0, 2, 0, 0, 0, 3, 0, 0, 0, 4, 0x70, 0x10, 0, 9, 0, 5, 0, 0, 1, 3, 3, 7, 8, 10, 0, 0, 42]

def parsedSegment : Segment where
  srcPort := 1
  dstPort := 2
  seq := 3
  ack := 4
  flags := flagACK
  window := 9
  checksum := 5
  options := [⟨optNOP, []⟩, ⟨optWScale, [7]⟩]
  payload := [42]

/-- The first segment of a connection with all options, and a segment with a malformed option. -/
theorem wire_round_trip_syn :
    let h : Host SmallController := (fresh { enableSACK := true, enableTimestamps := true } 0).run [.connect 0 100]
    h.sent.length = 1 ∧ (∀ p ∈ h.sent, parseSegment p.seg.marshal = .ok { p.seg with checksum := 0 }) ∧
      parseSegment rawSegment = .ok parsedSegment ∧
      parseSegment parsedSegment.marshal = .ok { parsedSegment with checksum := 0 } := by
  intro h
  obtain ⟨hparse, hsent, hraw⟩ := wire_round_trip (σ := SmallController)
  have hr : (system SmallController).Reach anyStep h := run_reach (by decide +kernel) (execMeets_anyStep _ _ _)
  have hok : parseSegment rawSegment = .ok parsedSegment := by decide +kernel
  exact ⟨by decide +kernel, fun p hp => hparse p.seg (hsent h hr p hp), hok, hraw rawSegment parsedSegment hok⟩

end Host

end Libp2px.Vtcp
