import Mathlib.Data.List.Basic
import Mathlib.Tactic.Ring

/-!
# Chunks of a list

A list cut into pieces of one length; the last piece may be shorter.
-/

namespace Chunks

variable {α : Type}

def chunk (c : Nat) (l : List α) (j : Nat) : List α := (l.drop (j * c)).take c

def count (c n : Nat) : Nat := n / c + if n % c ≠ 0 then 1 else 0

variable {c : Nat}

theorem lt_count_iff (hc : 0 < c) {n j : Nat} : j < count c n ↔ j * c < n := by
  have hdiv := Nat.div_add_mod n c
  have hmod := Nat.mod_lt n hc
  have hmul : c * (n / c) = n / c * c := Nat.mul_comm _ _
  unfold count
  constructor
  · intro h
    split at h
    · have hle : j * c ≤ n / c * c := Nat.mul_le_mul_right c (by omega)
      omega
    · have hle : (j + 1) * c ≤ n / c * c := Nat.mul_le_mul_right c (by omega)
      have hexp : (j + 1) * c = j * c + c := by ring
      omega
  · intro h
    by_contra hlt
    split at hlt
    · have hle : (n / c + 1) * c ≤ j * c := Nat.mul_le_mul_right c (by omega)
      have hexp : (n / c + 1) * c = n / c * c + c := by ring
      omega
    · have hle : n / c * c ≤ j * c := Nat.mul_le_mul_right c (by omega)
      omega

theorem le_count_mul (hc : 0 < c) (n : Nat) : n ≤ count c n * c := by
  by_contra h
  exact absurd ((lt_count_iff hc).2 (Nat.not_le.1 h)) (Nat.lt_irrefl _)

theorem count_le (hc : 0 < c) (n : Nat) : count c n ≤ n := by
  by_contra h
  have hlt := (lt_count_iff hc).1 (Nat.not_le.1 h)
  have hle := Nat.le_mul_of_pos_right n hc
  omega

theorem take_append_chunk (c : Nat) (l : List α) (j : Nat) : l.take (j * c) ++ chunk c l j = l.take ((j + 1) * c) := by
  have hexp : (j + 1) * c = j * c + c := by ring
  rw [hexp, List.take_add]
  rfl

theorem length_chunk (c : Nat) (l : List α) (j : Nat) : (chunk c l j).length = min c (l.length - j * c) := by
  rw [chunk, List.length_take, List.length_drop]

theorem length_chunk_of_lt (hc : 0 < c) {l : List α} {j : Nat} (h : j + 1 < count c l.length) :
    (chunk c l j).length = c := by
  have hlt := (lt_count_iff hc).1 h
  have hexp : (j + 1) * c = j * c + c := by ring
  rw [length_chunk]
  omega

theorem chunk_ne_nil (hc : 0 < c) {l : List α} {j : Nat} (h : j < count c l.length) : chunk c l j ≠ [] := by
  intro hnil
  have hlt := (lt_count_iff hc).1 h
  have hlen := length_chunk c l j
  rw [hnil, List.length_nil] at hlen
  omega

end Chunks
