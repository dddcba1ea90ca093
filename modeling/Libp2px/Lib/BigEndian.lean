import Mathlib.Data.List.Induction
import Mathlib.Data.Nat.ModEq
import Mathlib.Tactic.Ring

/-!
# Big-endian numbers

A number in a fixed count of bytes, the most significant byte first, as network formats have it.
-/

namespace BigEndian

/-- The last `w` bytes of a number, most significant first. -/
def encode : Nat → Nat → List (BitVec 8)
  | 0, _ => []
  | w + 1, n => encode w (n / 256) ++ [BitVec.ofNat 8 n]

/-- The number that bytes stand for. -/
def decode (l : List (BitVec 8)) : Nat := l.foldl (fun acc b => acc * 256 + b.toNat) 0

@[simp] theorem length_encode (w n : Nat) : (encode w n).length = w := by
  induction w generalizing n with
  | zero => rfl
  | succ w ih => simp [encode, ih]

theorem decode_append_singleton (l : List (BitVec 8)) (b : BitVec 8) :
    decode (l ++ [b]) = decode l * 256 + b.toNat := by
  simp [decode, List.foldl_append]

theorem decode_encode (w n : Nat) : decode (encode w n) = n % 256 ^ w := by
  induction w generalizing n with
  | zero => simp [encode, decode, Nat.mod_one]
  | succ w ih =>
    have hlow : (BitVec.ofNat 8 n).toNat = n % 256 := BitVec.toNat_ofNat n 8
    rw [encode, decode_append_singleton, ih, hlow, pow_succ', Nat.mod_mul, Nat.add_comm, Nat.mul_comm]

theorem decode_encode_of_lt {w n : Nat} (h : n < 256 ^ w) : decode (encode w n) = n := by
  rw [decode_encode, Nat.mod_eq_of_lt h]

theorem decode_lt (l : List (BitVec 8)) : decode l < 256 ^ l.length := by
  induction l using List.reverseRecOn with
  | nil => simp [decode]
  | append_singleton l b ih =>
    have hb : b.toNat < 256 := b.isLt
    rw [decode_append_singleton, List.length_append, List.length_singleton, pow_succ]
    omega

end BigEndian
