import Libp2px.Lib.Serial

/-!
# Sequence space

The comparisons of `vtcp/seqspace.go`: 32-bit sequence numbers are compared by the sign of their difference.  For
positions counted from a common base and less than `2^31` apart they are the comparisons of the positions
(`seqBefore_place` and its companions).
-/

namespace Libp2px.Vtcp

def seqBefore (a b : BitVec 32) : Bool := decide ((a - b).toInt < 0)

def seqAfter (a b : BitVec 32) : Bool := decide ((a - b).toInt > 0)

def seqBeforeEq (a b : BitVec 32) : Bool := decide ((a - b).toInt ≤ 0)

def seqAfterEq (a b : BitVec 32) : Bool := decide ((a - b).toInt ≥ 0)

def seqInRange (seq lo hi : BitVec 32) : Bool := seqAfterEq seq lo && seqBefore seq hi

section place

variable {base : BitVec 32} {x y : Nat}

theorem seqBefore_place (hlo : y ≤ x + 2 ^ 31) (hhi : x < y + 2 ^ 31) :
    seqBefore (Serial.place base x) (Serial.place base y) = decide (x < y) := by
  rw [seqBefore, Serial.toInt_place_sub (by omega) (by omega), decide_eq_decide]
  omega

theorem seqAfter_place (hlo : y ≤ x + 2 ^ 31) (hhi : x < y + 2 ^ 31) :
    seqAfter (Serial.place base x) (Serial.place base y) = decide (y < x) := by
  rw [seqAfter, Serial.toInt_place_sub (by omega) (by omega), decide_eq_decide]
  omega

theorem seqBeforeEq_place (hlo : y ≤ x + 2 ^ 31) (hhi : x < y + 2 ^ 31) :
    seqBeforeEq (Serial.place base x) (Serial.place base y) = decide (x ≤ y) := by
  rw [seqBeforeEq, Serial.toInt_place_sub (by omega) (by omega), decide_eq_decide]
  omega

theorem seqAfterEq_place (hlo : y ≤ x + 2 ^ 31) (hhi : x < y + 2 ^ 31) :
    seqAfterEq (Serial.place base x) (Serial.place base y) = decide (y ≤ x) := by
  rw [seqAfterEq, Serial.toInt_place_sub (by omega) (by omega), decide_eq_decide]
  omega

end place

theorem seqInRange_iff (lo seq : BitVec 32) {w : Nat} (hw : w ≤ 2 ^ 31) :
    seqInRange seq lo (Serial.place lo w) = true ↔ (seq - lo).toNat < w := by
  have hlo := BitVec.toInt_neg_iff (x := seq - lo)
  have hhi := BitVec.toInt_neg_iff (x := seq - Serial.place lo w)
  simp only [seqInRange, seqAfterEq, seqBefore, Bool.and_eq_true, decide_eq_true_eq]
  unfold Serial.place at *
  bv_omega

theorem seqBefore_iff {lo a b : BitVec 32} (ha : (a - lo).toNat < 2 ^ 31) (hb : (b - lo).toNat < 2 ^ 31) :
    seqBefore a b = true ↔ (a - lo).toNat < (b - lo).toNat := by
  rw [← Serial.place_toNat_sub lo a, ← Serial.place_toNat_sub lo b, seqBefore_place (by omega) (by omega),
    Serial.place_toNat_sub, Serial.place_toNat_sub, decide_eq_true_eq]

/-- `SeqInRange` is a bound on the offset, and on an interval shorter than half the number space `SeqBefore` is a strict
total order, that of the offsets. -/
theorem seqBefore_orders_windows :
    (∀ (lo seq : BitVec 32) (w : Nat), w ≤ 2 ^ 31 →
      (seqInRange seq lo (lo + BitVec.ofNat 32 w) = true ↔ (seq - lo).toNat < w)) ∧
    ∀ (S : Finset (BitVec 32)) (lo : BitVec 32) (n : Nat), n < 2 ^ 31 → (∀ s ∈ S, (s - lo).toNat < n) →
      (∀ a ∈ S, ∀ b ∈ S, seqBefore a b = true ↔ (a - lo).toNat < (b - lo).toNat) ∧
        IsStrictTotalOrder S fun a b => seqBefore a b = true := by
  refine ⟨fun lo seq w hw => seqInRange_iff lo seq hw, fun S lo n hn hS => ?_⟩
  have horder : ∀ a ∈ S, ∀ b ∈ S, seqBefore a b = true ↔ (a - lo).toNat < (b - lo).toNat := by
    intro a ha b hb
    exact seqBefore_iff ((hS a ha).trans hn) ((hS b hb).trans hn)
  refine ⟨horder, { trichotomous := ?_, irrefl := ?_, trans := ?_ }⟩
  · intro a b hab hba
    rw [horder a a.2 b b.2] at hab
    rw [horder b b.2 a a.2] at hba
    apply Subtype.ext
    bv_omega
  · intro a
    rw [horder a a.2 a a.2]
    exact Nat.lt_irrefl _
  · intro a b c
    rw [horder a a.2 b b.2, horder b b.2 c c.2, horder a a.2 c c.2]
    exact Nat.lt_trans

end Libp2px.Vtcp
