import Mathlib

/-!
# Serial numbers

Numbers of a fixed width `w` that wrap around and are compared by the sign of their difference.  `place base x` is
the serial number `x` steps after `base`; the natural number `x` is the position the serial number stands for.  Two
positions that lie less than half the number space apart are ordered, compared and subtracted as natural numbers
(`toInt_place_sub`, `toNat_place_sub`), whatever `base` is and however often the numbers have wrapped.
-/

namespace Serial

variable {w : Nat}

/-- The serial number `x` steps after `base`. -/
def place (base : BitVec w) (x : Nat) : BitVec w := base + BitVec.ofNat w x

@[simp] theorem place_zero (base : BitVec w) : place base 0 = base := by
  simp [place]

theorem place_add (base : BitVec w) (x k : Nat) :
    place base (x + k) = place base x + BitVec.ofNat w k := by
  simp only [place, BitVec.ofNat_add, BitVec.add_assoc]

theorem place_place (base : BitVec w) (x k : Nat) : place (place base x) k = place base (x + k) := by
  rw [place_add]; rfl

theorem place_sub_place (base : BitVec w) (x y : Nat) :
    place base x - place base y = BitVec.ofInt w ((x : Int) - y) := by
  apply BitVec.eq_of_toInt_eq
  simp [place, BitVec.toInt_sub, BitVec.toInt_ofInt, BitVec.toInt_ofNat']

theorem toInt_place_sub {base : BitVec w} {x y : Nat} (hlo : -2 ^ w ≤ 2 * ((x : Int) - y))
    (hhi : 2 * ((x : Int) - y) < 2 ^ w) :
    (place base x - place base y).toInt = (x : Int) - y := by
  rw [place_sub_place, BitVec.toInt_ofInt]
  apply Int.bmod_eq_of_le_mul_two <;> push_cast <;> omega

theorem toNat_place_sub {base : BitVec w} {x y : Nat} (h : y ≤ x) (hlt : x - y < 2 ^ w) :
    (place base x - place base y).toNat = x - y := by
  obtain ⟨k, rfl⟩ := Nat.exists_eq_add_of_le h
  have e : place base (y + k) - place base y = BitVec.ofNat w k := by
    rw [place_add, BitVec.add_comm, BitVec.add_sub_cancel]
  rw [e, BitVec.toNat_ofNat]
  simp only [Nat.add_sub_cancel_left] at hlt ⊢
  exact Nat.mod_eq_of_lt hlt

theorem place_inj {base : BitVec w} {x y : Nat} (hlo : (x : Int) - y < 2 ^ w) (hhi : (y : Int) - x < 2 ^ w) :
    place base x = place base y ↔ x = y := by
  refine ⟨fun h => ?_, fun h => by rw [h]⟩
  have key : ∀ {a b : Nat}, b ≤ a → (a : Int) - b < 2 ^ w → place base a = place base b → a = b := by
    intro a b hba hlt hab
    have h2 : a - b < 2 ^ w := by
      have : ((a - b : Nat) : Int) < ((2 ^ w : Nat) : Int) := by push_cast [Nat.cast_sub hba]; exact hlt
      exact_mod_cast this
    have h1 : (place base a - place base b).toNat = a - b := toNat_place_sub hba h2
    rw [hab] at h1
    simp at h1
    omega
  rcases Nat.le_total y x with hyx | hxy
  · exact key hyx hlo h
  · exact (key hxy hhi h.symm).symm

theorem place_toNat_sub (base s : BitVec w) : place base (s - base).toNat = s := by
  rw [place, BitVec.ofNat_toNat, BitVec.setWidth_eq, BitVec.add_comm, BitVec.sub_add_cancel]

end Serial
