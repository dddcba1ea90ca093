import Libp2px.Vtcp.DupAck
import Libp2px.Vtcp.Exchange

/-!
# The window arithmetic of the controllers

NewReno computes in 32 bits.  As long as the window has room for what a call adds to it, no call overflows, the window
stays at least one segment, and acknowledgments never shrink it.  Nothing bounds the window from above: in a long run
without loss it reaches the largest number, and the next acknowledgment sets it to zero.

HighSpeed makes the same computations on windows of at most 38 segments, with one exception.  `OnFastRetransmit` takes
half of the window where NewReno takes half of what is in flight.
-/

namespace Libp2px.Vtcp

open Transition

namespace NewReno

def apply (nr : NewReno) : Call → NewReno
  | .onACK n => nr.onACK n
  | .onDupACK => nr.onDupACK.1
  | .onFastRetransmit flight nxt => nr.onFastRetransmit flight nxt
  | .exitRecovery => nr.exitRecovery
  | .onTimeout => nr.onTimeout

def next (nr : NewReno) (call : Call) : Option NewReno := some (nr.apply call)

def growth (nr : NewReno) : Call → Nat
  | .onACK n =>
    if nr.cwnd < nr.ssthresh then min n.toNat nr.mss.toNat else max 1 (nr.mss.toNat * nr.mss.toNat / nr.cwnd.toNat)
  | .onDupACK => if nr.recovery = true ∧ 3 ≤ nr.dupAckCnt then nr.mss.toNat else 0
  | _ => 0

theorem growth_onACK (nr : NewReno) (n : BitVec 32) : nr.growth (.onACK n) =
    if nr.cwnd < nr.ssthresh then min n.toNat nr.mss.toNat
    else max 1 (nr.mss.toNat * nr.mss.toNat / nr.cwnd.toNat) := rfl

theorem growth_onDupACK (nr : NewReno) :
    nr.growth .onDupACK = if nr.recovery = true ∧ 3 ≤ nr.dupAckCnt then nr.mss.toNat else 0 := rfl

def HasRoom (nr : NewReno) (call : Call) : Prop := nr.cwnd.toNat + nr.growth call < 2 ^ 32

instance (nr : NewReno) (call : Call) : Decidable (nr.HasRoom call) := inferInstanceAs (Decidable (_ < _))

/-- No 32-bit computation of the call overflows, and none divides by zero. -/
def Fits (nr : NewReno) : Call → Prop
  | .onACK n =>
    if nr.cwnd < nr.ssthresh then nr.cwnd.toNat + min n.toNat nr.mss.toNat < 2 ^ 32
    else
      nr.mss.toNat * nr.mss.toNat < 2 ^ 32 ∧ 0 < nr.cwnd.toNat ∧
        nr.cwnd.toNat + max 1 (nr.mss.toNat * nr.mss.toNat / nr.cwnd.toNat) < 2 ^ 32
  | .onDupACK => nr.recovery = true ∧ 3 ≤ nr.dupAckCnt → nr.cwnd.toNat + nr.mss.toNat < 2 ^ 32
  | .onFastRetransmit flight _ =>
    2 * nr.mss.toNat < 2 ^ 32 ∧ 3 * nr.mss.toNat < 2 ^ 32 ∧
      max (flight.toNat / 2) (2 * nr.mss.toNat) + 3 * nr.mss.toNat < 2 ^ 32
  | .exitRecovery => True
  | .onTimeout => 2 * nr.mss.toNat < 2 ^ 32

theorem fits_onACK (nr : NewReno) (n : BitVec 32) : nr.Fits (.onACK n) =
    if nr.cwnd < nr.ssthresh then nr.cwnd.toNat + min n.toNat nr.mss.toNat < 2 ^ 32
    else
      nr.mss.toNat * nr.mss.toNat < 2 ^ 32 ∧ 0 < nr.cwnd.toNat ∧
        nr.cwnd.toNat + max 1 (nr.mss.toNat * nr.mss.toNat / nr.cwnd.toNat) < 2 ^ 32 := rfl

/-- The call computes without overflow, leaves at least a segment, and an acknowledgment does not shrink the window.
-/
structure Sound (nr : NewReno) (call : Call) : Prop where
  fits : nr.Fits call
  segment : nr.mss.toNat ≤ (nr.apply call).cwnd.toNat
  grows : (∃ n, call = .onACK n) ∨ call = .onDupACK → nr.cwnd.toNat ≤ (nr.apply call).cwnd.toNat

structure Steady (m : BitVec 32) (nr : NewReno) : Prop where
  mss : nr.mss = m
  cwnd : m.toNat ≤ nr.cwnd.toNat
  ssthresh : 2 * m.toNat ≤ nr.ssthresh.toNat

/-! ### The arithmetic of one call -/

theorem toNat_max32 (a b : BitVec 32) : (max32 a b).toNat = max a.toNat b.toNat := by
  unfold max32
  split <;> bv_omega

section

variable {mss : BitVec 32} {nr : NewReno}

theorem toNat_times (hmax : mss.toNat ≤ 65535) {k : Nat} (hk : k ≤ 10) :
    (BitVec.ofNat 32 k * mss).toNat = k * mss.toNat := by
  have hle : k * mss.toNat ≤ 10 * 65535 := Nat.mul_le_mul hk hmax
  have hk' : (BitVec.ofNat 32 k).toNat = k := by
    rw [BitVec.toNat_ofNat, Nat.mod_eq_of_lt (by omega)]
  rw [BitVec.toNat_mul, hk', Nat.mod_eq_of_lt (by omega)]

theorem Steady.new (hmax : mss.toNat ≤ 65535) : (NewReno.new mss).Steady mss := by
  refine ⟨rfl, ?_, ?_⟩
  · have hten : (10 * mss).toNat = 10 * mss.toNat := toNat_times (k := 10) hmax (by decide)
    have htwo : (2 * mss).toNat = 2 * mss.toNat := toNat_times (k := 2) hmax (by decide)
    have halt : (max32 (2 * mss) 14600).toNat = max (2 * mss.toNat) 14600 := by
      rw [toNat_max32, htwo]
      rfl
    show mss.toNat ≤ (initialCWND mss).toNat
    unfold initialCWND
    split
    · omega
    · omega
  · show 2 * mss.toNat ≤ (BitVec.allOnes 32).toNat
    rw [BitVec.toNat_allOnes]
    omega

theorem toNat_increase (hmax : mss.toNat ≤ 65535) (cwnd : BitVec 32) :
    (mss * mss / cwnd).toNat = mss.toNat * mss.toNat / cwnd.toNat := by
  have hsq : mss.toNat * mss.toNat ≤ 65535 * 65535 := Nat.mul_le_mul hmax hmax
  rw [BitVec.toNat_udiv, BitVec.toNat_mul, Nat.mod_eq_of_lt (by omega)]

theorem cwnd_onACK (hi : nr.Steady mss) (hmax : mss.toNat ≤ 65535) {n : BitVec 32} (hroom : nr.HasRoom (.onACK n)) :
    (nr.onACK n).cwnd.toNat = nr.cwnd.toNat + nr.growth (.onACK n) := by
  unfold HasRoom at hroom
  rw [growth_onACK] at hroom ⊢
  unfold onACK onACKWith
  by_cases hslow : nr.cwnd < nr.ssthresh
  · rw [if_pos hslow] at hroom ⊢
    rw [if_pos hslow]
    have hinc : (if n > nr.mss then nr.mss else n).toNat = min n.toNat nr.mss.toNat := by
      split <;> bv_omega
    show (nr.cwnd + (if n > nr.mss then nr.mss else n)).toNat = _
    rw [BitVec.toNat_add, hinc, Nat.mod_eq_of_lt hroom]
  · rw [if_neg hslow] at hroom ⊢
    rw [if_neg hslow]
    have hinc : (if nr.mss * nr.mss / nr.cwnd = 0 then 1 else nr.mss * nr.mss / nr.cwnd).toNat =
        max 1 (nr.mss.toNat * nr.mss.toNat / nr.cwnd.toNat) := by
      rw [← toNat_increase (by rw [hi.mss]; exact hmax)]
      generalize nr.mss * nr.mss / nr.cwnd = inc
      split <;> bv_omega
    show (nr.cwnd + (if nr.mss * nr.mss / nr.cwnd = 0 then 1 else nr.mss * nr.mss / nr.cwnd)).toNat = _
    rw [BitVec.toNat_add, hinc, Nat.mod_eq_of_lt hroom]

theorem cwnd_onDupACK (hroom : nr.HasRoom .onDupACK) :
    nr.onDupACK.1.cwnd.toNat = nr.cwnd.toNat + nr.growth .onDupACK := by
  unfold HasRoom at hroom
  rw [growth_onDupACK] at hroom ⊢
  unfold onDupACK
  simp only
  by_cases hdup : nr.recovery = true ∧ 3 ≤ nr.dupAckCnt
  · have hfirst : ¬(nr.dupAckCnt + 1 = 3 ∧ (!nr.recovery) = true) := by
      rw [hdup.1]
      simp
    have hmore : nr.recovery = true ∧ nr.dupAckCnt + 1 > 3 := ⟨hdup.1, by omega⟩
    rw [if_pos hdup] at hroom ⊢
    rw [if_neg hfirst, if_pos hmore]
    show (nr.cwnd + nr.mss).toNat = _
    rw [BitVec.toNat_add, Nat.mod_eq_of_lt hroom]
  · rw [if_neg hdup]
    split
    · rfl
    · split
      · rename_i hmore
        exact absurd ⟨hmore.1, by omega⟩ hdup
      · rfl

theorem ssthresh_onACK (nr : NewReno) (inc n : BitVec 32) : (nr.onACKWith inc n).ssthresh = nr.ssthresh ∧
    (nr.onACKWith inc n).mss = nr.mss := by
  unfold onACKWith
  split <;> exact ⟨rfl, rfl⟩

theorem ssthresh_onDupACK (nr : NewReno) : nr.onDupACK.1.ssthresh = nr.ssthresh ∧ nr.onDupACK.1.mss = nr.mss := by
  unfold onDupACK
  simp only
  split
  · exact ⟨rfl, rfl⟩
  · split <;> exact ⟨rfl, rfl⟩

theorem toNat_recovery (hmax : mss.toNat ≤ 65535) (half : BitVec 32) (hhalf : half.toNat < 2 ^ 31) :
    (max32 half (2 * mss)).toNat = max half.toNat (2 * mss.toNat) ∧
      (max32 half (2 * mss) + 3 * mss).toNat = max half.toNat (2 * mss.toNat) + 3 * mss.toNat := by
  have hthresh : (max32 half (2 * mss)).toNat = max half.toNat (2 * mss.toNat) := by
    rw [toNat_max32, show (2 * mss).toNat = 2 * mss.toNat from toNat_times (k := 2) hmax (by decide)]
  refine ⟨hthresh, ?_⟩
  rw [BitVec.toNat_add, hthresh, show (3 * mss).toNat = 3 * mss.toNat from toNat_times (k := 3) hmax (by decide)]
  exact Nat.mod_eq_of_lt (by omega)

theorem toNat_half_lt (n : BitVec 32) : (n / 2).toNat = n.toNat / 2 ∧ (n / 2).toNat < 2 ^ 31 := by
  have hlt := n.isLt
  have hdiv : (n / 2).toNat = n.toNat / 2 := BitVec.toNat_udiv
  omega

theorem Steady.apply (hi : nr.Steady mss) (hmax : mss.toNat ≤ 65535) {call : Call} (hroom : nr.HasRoom call) :
    (nr.apply call).Steady mss := by
  have hm := hi.mss
  have hc := hi.cwnd
  have hs := hi.ssthresh
  cases call with
  | onACK n =>
    obtain ⟨hthresh, hsame⟩ := ssthresh_onACK nr (nr.mss * nr.mss / nr.cwnd) n
    refine ⟨hsame.trans hm, ?_, ?_⟩
    · show mss.toNat ≤ (nr.onACK n).cwnd.toNat
      rw [cwnd_onACK hi hmax hroom]
      omega
    · exact hs.trans_eq (congrArg BitVec.toNat hthresh).symm
  | onDupACK =>
    obtain ⟨hthresh, hsame⟩ := ssthresh_onDupACK nr
    refine ⟨hsame.trans hm, ?_, ?_⟩
    · show mss.toNat ≤ nr.onDupACK.1.cwnd.toNat
      rw [cwnd_onDupACK hroom]
      omega
    · exact hs.trans_eq (congrArg BitVec.toNat hthresh).symm
  | onFastRetransmit flight nxt =>
    obtain ⟨hthresh, hwin⟩ := toNat_recovery hmax (flight / 2) (toNat_half_lt flight).2
    refine ⟨hm, ?_, ?_⟩
    · show mss.toNat ≤ (max32 (flight / 2) (2 * nr.mss) + 3 * nr.mss).toNat
      rw [hm, hwin]
      omega
    · show 2 * mss.toNat ≤ (max32 (flight / 2) (2 * nr.mss)).toNat
      rw [hm, hthresh]
      omega
  | exitRecovery => exact ⟨hm, by show mss.toNat ≤ nr.ssthresh.toNat; omega, hs⟩
  | onTimeout =>
    obtain ⟨hthresh, -⟩ := toNat_recovery hmax (nr.cwnd / 2) (toNat_half_lt nr.cwnd).2
    refine ⟨hm, ?_, ?_⟩
    · show mss.toNat ≤ nr.mss.toNat
      rw [hm]
    · show 2 * mss.toNat ≤ (max32 (nr.cwnd / 2) (2 * nr.mss)).toNat
      rw [hm, hthresh]
      omega

theorem Steady.sound_iff (hi : nr.Steady mss) (hpos : 1 ≤ mss.toNat) (hmax : mss.toNat ≤ 65535) (call : Call) :
    nr.Sound call ↔ nr.HasRoom call := by
  have hm := hi.mss
  have hc := hi.cwnd
  constructor
  · intro h
    have hfits := h.fits
    have hlt := nr.cwnd.isLt
    cases call with
    | onACK n =>
      unfold HasRoom
      rw [growth_onACK]
      rw [fits_onACK] at hfits
      split at hfits
      · rename_i hslow
        rwa [if_pos hslow]
      · rename_i hslow
        rw [if_neg hslow]
        exact hfits.2.2
    | onDupACK =>
      unfold HasRoom
      rw [growth_onDupACK]
      split
      · rename_i hdup
        exact hfits hdup
      · omega
    | onFastRetransmit flight nxt => exact hlt
    | exitRecovery => exact hlt
    | onTimeout => exact hlt
  · intro hroom
    have hkept := hi.apply hmax hroom
    refine ⟨?_, ?_, ?_⟩
    · have hroom' : nr.cwnd.toNat + nr.growth call < 2 ^ 32 := hroom
      cases call with
      | onACK n =>
        have hsq : mss.toNat * mss.toNat ≤ 65535 * 65535 := Nat.mul_le_mul hmax hmax
        rw [growth_onACK] at hroom'
        rw [fits_onACK]
        split
        · rename_i hslow
          rwa [if_pos hslow] at hroom'
        · rename_i hslow
          rw [if_neg hslow] at hroom'
          refine ⟨?_, by omega, hroom'⟩
          rw [hm]
          omega
      | onDupACK =>
        intro hdup
        rwa [growth_onDupACK, if_pos hdup] at hroom'
      | onFastRetransmit flight nxt =>
        have hlt := flight.isLt
        unfold Fits
        rw [hm]
        omega
      | exitRecovery => trivial
      | onTimeout =>
        unfold Fits
        rw [hm]
        omega
    · rw [hm]
      exact hkept.cwnd
    · rintro (⟨n, rfl⟩ | rfl)
      · show nr.cwnd.toNat ≤ (nr.onACK n).cwnd.toNat
        rw [cwnd_onACK hi hmax hroom]
        omega
      · show nr.cwnd.toNat ≤ nr.onDupACK.1.cwnd.toNat
        rw [cwnd_onDupACK hroom]
        omega

end

/-- Nothing overflows, the window stays at least a segment and acknowledgments do not shrink it, if and only if every
call finds room in the window for what it adds. -/
theorem never_wraps_iff {mss : BitVec 32} (hpos : 1 ≤ mss.toNat) (hmax : mss.toNat ≤ 65535) (calls : List Call) :
    (10 * mss.toNat < 2 ^ 32 ∧ mss.toNat ≤ (NewReno.new mss).cwnd.toNat ∧ execMeets next Sound (NewReno.new mss) calls) ↔
      execMeets next HasRoom (NewReno.new mss) calls := by
  have hnew := Steady.new hmax
  have hrun : execMeets next Sound (NewReno.new mss) calls ↔ execMeets next HasRoom (NewReno.new mss) calls := by
    refine execMeets_congr (I := Steady mss) (R := anyStep) ?_ ?_ hnew (execMeets_anyStep _ _ _)
    · intro nr call hi _
      exact hi.sound_iff hpos hmax call
    · intro nr call t hi _ hroom ht
      rw [← Option.some.inj ht]
      exact hi.apply hmax hroom
  constructor
  · rintro ⟨-, -, h⟩
    exact hrun.1 h
  · intro h
    exact ⟨by omega, hnew.cwnd, hrun.2 h⟩

/-- A loss with 5840 bytes in flight, and then a timeout. -/
theorem never_wraps_loss :
    execMeets next Sound (NewReno.new 1460)
      [.onACK 1460, .onDupACK, .onDupACK, .onDupACK, .onFastRetransmit 5840 101, .onDupACK, .exitRecovery, .onTimeout,
        .onACK 20000] :=
  ((never_wraps_iff (by decide) (by decide) _).2 (by decide +kernel)).2.2

/-- A NewReno controller for segments of one byte that has seen no loss. -/
def lossless (cwnd : BitVec 32) : NewReno := { NewReno.new 1 with cwnd := cwnd }

theorem onACK_lossless (cwnd : BitVec 32) : (lossless cwnd).apply (.onACK 1) = lossless (cwnd + 1) := by
  have hinc : (if (1 : BitVec 32) * 1 / BitVec.allOnes 32 = 0 then (1 : BitVec 32) else 1 * 1 / BitVec.allOnes 32) = 1 := by
    decide
  show NewReno.onACKWith (1 * 1 / cwnd) (lossless cwnd) 1 = _
  by_cases hslow : cwnd < BitVec.allOnes 32
  · exact if_pos hslow
  · have hall : cwnd = BitVec.allOnes 32 := by
      have hle := cwnd.isLt
      apply BitVec.eq_of_toNat_eq
      rw [BitVec.lt_def, BitVec.toNat_allOnes] at hslow
      rw [BitVec.toNat_allOnes]
      omega
    refine (if_neg hslow).trans ?_
    rw [hall, hinc]
    rfl

end NewReno

/-! ### A run without loss -/

def byteAcked (x : Nat) : Packet where
  seg := { srcPort := 0, dstPort := 0, seq := 701, ack := Serial.place 100 (x + 1), flags := flagACK, window := 999 }
  pos := 1
  space := 999

namespace Host

open Conn NewReno

theorem round_lossless {H : HSMath} {h : Host (Controller H)} {x : Nat} {cwnd : BitVec 32}
    (hs : h.conn.Sends x [] []) (hcc : h.conn.cc = .newReno (lossless cwnd)) (hw : 0 < cwnd.toNat) :
    ∃ h₁ h', h.next (.write 0 [0]) = some h₁ ∧ h₁.conn.cc = h.conn.cc ∧
      h₁.next (.segment 0 (byteAcked x).seg) = some h' ∧ h'.conn.Sends (x + 1) [] [] ∧
      h'.conn.cc = .newReno ((lossless cwnd).apply (.onACK 1)) := by
  have hwin : 0 < (CongestionController.sendWindow h.conn.cc).toNat := by
    rw [hcc]
    exact hw
  obtain ⟨h₁, p, hn₁, hs₁, hcc₁, -⟩ := write_byte hs (by decide) hwin 0
  obtain ⟨h', hn', hs', -, hcc', -⟩ := ack_byte hs₁ (q := byteAcked x) ⟨rfl, rfl, rfl, rfl, rfl, rfl, rfl⟩
  refine ⟨h₁, h', hn₁, hcc₁, hn', hs', ?_⟩
  have hout : ((lossless cwnd).apply (.onACK 1)).recovery = false := by
    rw [onACK_lossless]
    rfl
  rw [hcc', hcc₁, hcc]
  show (if ((lossless cwnd).apply (.onACK 1)).recovery && _ then _
    else Controller.newReno ((lossless cwnd).apply (.onACK 1))) = _
  rw [hout]
  rfl

theorem reach_lossless (k : Nat) (hk : 10 + k < 2 ^ 32) :
    ∃ h : Host SmallController, (system SmallController).Reach anyStep h ∧ h.conn.Sends (1 + k) [] [] ∧
      h.conn.cc = .newReno (lossless (BitVec.ofNat 32 (10 + k))) := by
  induction k with
  | zero =>
    let opts : List TcpOption := [mssOption 1, wscaleOption 0, sackPermOption]
    let synAck : Segment :=
      { srcPort := 0, dstPort := 0, seq := 700, ack := 101, flags := flagSYN ||| flagACK, window := 1000, options := opts }
    refine ⟨(fresh Network.oneByteConfig 0).run [.connect 0 100, .segment 0 synAck], ?_, ?_, ?_⟩
    · exact run_reach (by decide +kernel) (execMeets_anyStep _ _ _)
    · exact ⟨by decide +kernel, by decide +kernel, by decide +kernel, by decide +kernel, by decide +kernel⟩
    · decide +kernel
  | succ k ih =>
    obtain ⟨h, hr, hs, hcc⟩ := ih (by omega)
    have hpos : 0 < (BitVec.ofNat 32 (10 + k)).toNat := by
      rw [BitVec.toNat_ofNat, Nat.mod_eq_of_lt (by omega)]
      omega
    obtain ⟨h₁, h', hn₁, -, hn', hs', hcc'⟩ := round_lossless hs hcc hpos
    refine ⟨h', (hr.step trivial hn₁).step trivial hn', hs', ?_⟩
    have hsum : BitVec.ofNat 32 (10 + k) + 1 = BitVec.ofNat 32 (10 + (k + 1)) := (BitVec.ofNat_add (10 + k) 1).symm
    rw [hcc', onACK_lossless, hsum]

/-- After an acknowledgment in the right place of a run without loss, the congestion window is zero. -/
theorem window_wraps :
    ∃ (h h' : Host SmallController) (e : Event) (nr : NewReno), (system SmallController).Reach anyStep h ∧
      h.next e = some h' ∧ h.conn.cc = .newReno nr ∧ nr.mss = 1 ∧ nr.cwnd = BitVec.allOnes 32 ∧
      h'.conn.cc = .newReno (nr.apply (.onACK 1)) ∧ (nr.apply (.onACK 1)).cwnd = 0 := by
  obtain ⟨h, hr, hs, hcc⟩ := reach_lossless (2 ^ 32 - 11) (by decide)
  obtain ⟨h₁, h', hn₁, hcc₁, hn', -, hcc'⟩ := round_lossless hs hcc (by decide)
  refine ⟨h₁, h', _, _, hr.step trivial hn₁, hn', hcc₁.trans hcc, rfl, ?_, hcc', ?_⟩
  · decide
  · rw [onACK_lossless]
    decide

end Host

/-! ### HighSpeed on small windows -/

/-- The values of a small window are exact: `a(w) = 1` and `b(w) = 1/2` as rationals, and the results are truncated. -/
def HSMath.Exact (H : HSMath) : Prop :=
  ∀ cwnd mss : BitVec 32, 0 < mss.toNat → mss.toNat ≤ 65535 → 0 < cwnd.toNat → cwnd.toNat / mss.toNat ≤ 38 →
    H.increase cwnd mss = BitVec.ofNat 32 ⌊(1 * mss.toNat * mss.toNat / cwnd.toNat : ℚ)⌋₊ ∧
      H.decrease cwnd mss = BitVec.ofNat 32 ⌊(cwnd.toNat * (1 - 1 / 2) : ℚ)⌋₊

namespace HSMath

theorem floor_increase (cwnd mss : BitVec 32) (hmax : mss.toNat ≤ 65535) :
    BitVec.ofNat 32 ⌊(1 * mss.toNat * mss.toNat / cwnd.toNat : ℚ)⌋₊ = mss * mss / cwnd := by
  have hcast : (1 * mss.toNat * mss.toNat / cwnd.toNat : ℚ) = ((mss.toNat * mss.toNat : ℕ) : ℚ) / (cwnd.toNat : ℕ) := by
    push_cast
    ring
  rw [hcast, Nat.floor_div_eq_div, ← NewReno.toNat_increase hmax, BitVec.ofNat_toNat, BitVec.setWidth_eq]

theorem floor_decrease (cwnd : BitVec 32) : BitVec.ofNat 32 ⌊(cwnd.toNat * (1 - 1 / 2) : ℚ)⌋₊ = cwnd / 2 := by
  have hcast : (cwnd.toNat * (1 - 1 / 2) : ℚ) = (cwnd.toNat : ℚ) / ((2 : ℕ) : ℚ) := by
    push_cast
    ring
  rw [hcast, Nat.floor_div_eq_div, ← (NewReno.toNat_half_lt cwnd).1, BitVec.ofNat_toNat, BitVec.setWidth_eq]

theorem low_exact : HSMath.low.Exact := by
  intro cwnd mss _ hmax _ _
  exact ⟨(floor_increase cwnd mss hmax).symm, (floor_decrease cwnd).symm⟩

end HSMath

namespace Controller

variable {H : HSMath} {mss : BitVec 32}

def nextBoth (p : Controller H × Controller H) (call : Call) : Option (Controller H × Controller H) :=
  some (Call.apply p.1 call, Call.apply p.2 call)

def both (mss : BitVec 32) : Controller H × Controller H :=
  (CongestionController.new .newreno mss, CongestionController.new .highspeed mss)

structure Agree (a b : Controller H) : Prop where
  cwnd : a.base.cwnd = b.base.cwnd
  ssthresh : a.base.ssthresh = b.base.ssthresh
  recovery : a.base.recovery = b.base.recovery
  recoverySeq : a.base.recoverySeq = b.base.recoverySeq

/-- HighSpeed has a window of at most 38 segments when the call is made. -/
def SmallWindow (p : Controller H × Controller H) (_ : Call) : Prop := p.2.base.cwnd.toNat / p.2.base.mss.toNat ≤ 38

/-- Half of what is in flight and half of the window lead to the same threshold at a fast retransmit. -/
def SameHalf (p : Controller H × Controller H) : Call → Prop
  | .onFastRetransmit flight _ =>
    max (flight.toNat / 2) (2 * p.1.base.mss.toNat) = max (p.1.base.cwnd.toNat / 2) (2 * p.1.base.mss.toNat)
  | _ => True

instance (p : Controller H × Controller H) (call : Call) : Decidable (SmallWindow p call) :=
  inferInstanceAs (Decidable (_ ≤ _))

instance (p : Controller H × Controller H) : (call : Call) → Decidable (SameHalf p call)
  | .onFastRetransmit _ _ => inferInstanceAs (Decidable (_ = _))
  | .onACK _ | .onDupACK | .exitRecovery | .onTimeout => inferInstanceAs (Decidable True)

/-- Two controllers in the same state, with a window of a segment at least. -/
def Paired (mss : BitVec 32) (p : Controller H × Controller H) : Prop :=
  ∃ nr : NewReno, nr.Steady mss ∧ p = (.newReno nr, .highSpeed ⟨nr⟩)

end Controller

namespace NewReno

variable {mss : BitVec 32} {nr : NewReno}

theorem Steady.hasRoom (hi : nr.Steady mss) (hpos : 1 ≤ mss.toNat) (hmax : mss.toNat ≤ 65535)
    (hlow : nr.cwnd.toNat / mss.toNat ≤ 38) (call : Call) : nr.HasRoom call := by
  have hcw : nr.cwnd.toNat < 39 * mss.toNat := by
    have := Nat.lt_mul_of_div_lt (Nat.lt_succ_of_le hlow) hpos
    omega
  have hc := hi.cwnd
  have hm := hi.mss
  have hgrow : nr.growth call ≤ mss.toNat := by
    cases call with
    | onACK n =>
      rw [growth_onACK, hm]
      split
      · exact Nat.min_le_right _ _
      · have hdiv : mss.toNat * mss.toNat / nr.cwnd.toNat ≤ mss.toNat := by
          apply Nat.div_le_of_le_mul
          exact Nat.mul_le_mul hc le_rfl
        omega
    | onDupACK =>
      rw [growth_onDupACK, hm]
      split <;> omega
    | onFastRetransmit | exitRecovery | onTimeout => exact Nat.zero_le _
  unfold HasRoom
  omega

end NewReno

namespace Controller

variable {H : HSMath} {mss : BitVec 32} {nr : NewReno}

theorem lossThresh_eq (hH : H.Exact) (hi : nr.Steady mss) (hpos : 1 ≤ mss.toNat) (hmax : mss.toNat ≤ 65535)
    (hlow : nr.cwnd.toNat / mss.toNat ≤ 38) :
    (⟨nr⟩ : HighSpeed H).lossThresh = max32 (nr.cwnd / 2) (2 * nr.mss) := by
  have hc := hi.cwnd
  have hdec := (hH nr.cwnd mss (by omega) hmax (by omega) hlow).2
  rw [HSMath.floor_decrease] at hdec
  unfold HighSpeed.lossThresh
  show (if H.decrease nr.cwnd nr.mss < 2 * nr.mss then 2 * nr.mss else H.decrease nr.cwnd nr.mss) = _
  rw [hi.mss, hdec]
  rfl

theorem apply_paired (hH : H.Exact) (hi : nr.Steady mss) (hpos : 1 ≤ mss.toNat) (hmax : mss.toNat ≤ 65535)
    (hlow : nr.cwnd.toNat / mss.toNat ≤ 38) {call : Call} (hcall : ∀ flight nxt, call ≠ .onFastRetransmit flight nxt) :
    Call.apply (newReno nr : Controller H) call = newReno (nr.apply call) ∧
      Call.apply (highSpeed ⟨nr⟩ : Controller H) call = highSpeed ⟨nr.apply call⟩ := by
  have hc := hi.cwnd
  cases call with
  | onACK n =>
    have hinc := (hH nr.cwnd mss (by omega) hmax (by omega) hlow).1
    rw [HSMath.floor_increase nr.cwnd mss hmax, ← hi.mss] at hinc
    refine ⟨rfl, ?_⟩
    show highSpeed ⟨nr.onACKWith (H.increase nr.cwnd nr.mss) n⟩ = _
    rw [hinc]
    rfl
  | onDupACK => exact ⟨rfl, rfl⟩
  | onFastRetransmit flight nxt => exact absurd rfl (hcall flight nxt)
  | exitRecovery => exact ⟨rfl, rfl⟩
  | onTimeout =>
    refine ⟨rfl, ?_⟩
    show highSpeed ⟨nr.restart (HighSpeed.lossThresh ⟨nr⟩)⟩ = _
    rw [lossThresh_eq hH hi hpos hmax hlow]
    rfl

theorem apply_onFastRetransmit (hH : H.Exact) (hi : nr.Steady mss) (hpos : 1 ≤ mss.toNat) (hmax : mss.toNat ≤ 65535)
    (hlow : nr.cwnd.toNat / mss.toNat ≤ 38) (flight nxt : BitVec 32) :
    Call.apply (newReno nr : Controller H) (.onFastRetransmit flight nxt) =
        newReno (nr.enterRecovery (max32 (flight / 2) (2 * nr.mss)) nxt) ∧
      Call.apply (highSpeed ⟨nr⟩ : Controller H) (.onFastRetransmit flight nxt) =
        highSpeed ⟨nr.enterRecovery (max32 (nr.cwnd / 2) (2 * nr.mss)) nxt⟩ := by
  refine ⟨rfl, ?_⟩
  show highSpeed ⟨nr.enterRecovery (HighSpeed.lossThresh ⟨nr⟩) nxt⟩ = _
  rw [lossThresh_eq hH hi hpos hmax hlow]

theorem sameHalf_iff (hi : nr.Steady mss) (hmax : mss.toNat ≤ 65535) (flight : BitVec 32) :
    max32 (flight / 2) (2 * nr.mss) = max32 (nr.cwnd / 2) (2 * nr.mss) ↔
      max (flight.toNat / 2) (2 * nr.mss.toNat) = max (nr.cwnd.toNat / 2) (2 * nr.mss.toNat) := by
  have hmax' : nr.mss.toNat ≤ 65535 := by
    rw [hi.mss]
    exact hmax
  obtain ⟨hf, hflt⟩ := NewReno.toNat_half_lt flight
  obtain ⟨hw, hwlt⟩ := NewReno.toNat_half_lt nr.cwnd
  rw [← BitVec.toNat_inj, (NewReno.toNat_recovery hmax' _ hflt).1, (NewReno.toNat_recovery hmax' _ hwlt).1, hf, hw]

/-- Up to a window of 38 segments the two controllers agree after every call if and only if at every fast retransmit
half of what is in flight and half of the window lead to the same threshold. -/
theorem highSpeed_agrees_iff (hH : H.Exact) (hpos : 1 ≤ mss.toNat) (hmax : mss.toNat ≤ 65535) {calls : List Call}
    (hsmall : execMeets nextBoth SmallWindow (both mss : Controller H × Controller H) calls) :
    execMeets nextBoth (fun p call => Agree (Call.apply p.1 call) (Call.apply p.2 call))
        (both mss : Controller H × Controller H) calls ↔
      execMeets nextBoth SameHalf (both mss : Controller H × Controller H) calls := by
  have hlow : ∀ (nr : NewReno) (call : Call), nr.Steady mss →
      SmallWindow ((newReno nr, highSpeed ⟨nr⟩) : Controller H × Controller H) call → nr.cwnd.toNat / mss.toNat ≤ 38 := by
    intro nr call hi hw
    rw [← hi.mss]
    exact hw
  refine execMeets_congr (I := Paired mss) ?_ ?_ ⟨_, NewReno.Steady.new hmax, rfl⟩ hsmall
  · rintro p call ⟨nr, hi, rfl⟩ hw
    have hw' := hlow nr call hi hw
    by_cases hfast : ∃ flight nxt, call = .onFastRetransmit flight nxt
    · obtain ⟨flight, nxt, rfl⟩ := hfast
      obtain ⟨hreno, hspeed⟩ := apply_onFastRetransmit hH hi hpos hmax hw' flight nxt
      have hhalf := sameHalf_iff hi hmax flight
      constructor
      · intro hagree
        have hthresh := hagree.ssthresh
        rw [hreno, hspeed] at hthresh
        exact hhalf.1 hthresh
      · intro hsame
        have hthresh := hhalf.2 hsame
        show Agree (Call.apply (newReno nr) (.onFastRetransmit flight nxt))
          (Call.apply (highSpeed ⟨nr⟩) (.onFastRetransmit flight nxt))
        rw [hreno, hspeed, hthresh]
        exact ⟨rfl, rfl, rfl, rfl⟩
    · simp only [not_exists] at hfast
      obtain ⟨hreno, hspeed⟩ := apply_paired hH hi hpos hmax hw' hfast
      apply iff_of_true
      · show Agree (Call.apply (newReno nr) call) (Call.apply (highSpeed ⟨nr⟩) call)
        rw [hreno, hspeed]
        exact ⟨rfl, rfl, rfl, rfl⟩
      · cases call with
        | onFastRetransmit flight nxt => exact absurd rfl (hfast flight nxt)
        | onACK | onDupACK | exitRecovery | onTimeout => trivial
  · rintro p call q ⟨nr, hi, rfl⟩ hw hsame hq
    have hw' := hlow nr call hi hw
    rw [← Option.some.inj hq]
    refine ⟨nr.apply call, hi.apply hmax (hi.hasRoom hpos hmax hw' call), ?_⟩
    by_cases hfast : ∃ flight nxt, call = .onFastRetransmit flight nxt
    · obtain ⟨flight, nxt, rfl⟩ := hfast
      obtain ⟨hreno, hspeed⟩ := apply_onFastRetransmit hH hi hpos hmax hw' flight nxt
      have hthresh := (sameHalf_iff hi hmax flight).2 hsame
      simp only [hreno, hspeed, ← hthresh]
      rfl
    · simp only [not_exists] at hfast
      obtain ⟨hreno, hspeed⟩ := apply_paired hH hi hpos hmax hw' hfast
      simp only [hreno, hspeed]

/-- A loss with the whole window in flight, and then a timeout. -/
theorem highSpeed_agrees_fullWindow :
    execMeets nextBoth (fun p call => Agree (Call.apply p.1 call) (Call.apply p.2 call))
      (both 1460 : SmallController × SmallController)
      [.onDupACK, .onDupACK, .onDupACK, .onFastRetransmit 14600 101, .onDupACK, .exitRecovery, .onACK 1460, .onTimeout] :=
  (highSpeed_agrees_iff HSMath.low_exact (by decide) (by decide) (by decide +kernel)).2 (by decide +kernel)

end Controller

/-- An ACK of everything the peer has received, which is nothing. -/
def ackAgain : Event :=
  .segment 0 { srcPort := 0, dstPort := 0, seq := 701, ack := 101, flags := flagACK, window := 1000 }

/-- One byte is lost, and three duplicate ACKs arrive.  NewReno goes on with the least threshold, HighSpeed with half its
window of ten segments. -/
theorem highSpeed_halves_window :
    ∃ n s : Host SmallController, (Host.system SmallController).Reach anyStep n ∧
      (Host.system SmallController).Reach anyStep s ∧
      n = (Host.fresh { congestionControl := .newreno } 0).run
        (opening ++ [.write 0 [1], ackAgain, ackAgain, ackAgain]) ∧
      s = (Host.fresh { congestionControl := .highspeed } 0).run
        (opening ++ [.write 0 [1], ackAgain, ackAgain, ackAgain]) ∧
      n.conn.cc.lossState = (7300, 2920, 3, true) ∧ s.conn.cc.lossState = (11680, 7300, 3, true) := by
  refine ⟨_, _, ?_, ?_, rfl, rfl, ?_, ?_⟩
  · exact Host.run_reach (by decide +kernel) (execMeets_anyStep _ _ _)
  · exact Host.run_reach (by decide +kernel) (execMeets_anyStep _ _ _)
  · decide +kernel
  · decide +kernel

end Libp2px.Vtcp
