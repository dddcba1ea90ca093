import Mathlib.Data.List.Basic
import Mathlib.Tactic.Ring

/-!
# Slices

A slice is a part of an array: what it holds, and what the array holds after it, as far as its capacity goes.  An index that
is not below the length panics; so does a slice expression whose ends are out of order or beyond the capacity.  What a slice
expression can reach is thus more than what the slice holds.
-/

namespace Slices

inductive Panic
  | index (i : Int) (len : Nat)
  | bounds (lo hi : Int) (cap : Nat)
  deriving DecidableEq, Repr

/-- A slice; lengths are numbers of the type `int`. -/
structure Slice (α : Type) where
  elems : List α
  spare : List α
  cap_lt : elems.length + spare.length < 2 ^ 63

namespace Slice

variable {α : Type}

def len (s : Slice α) : Nat := s.elems.length

def cap (s : Slice α) : Nat := s.elems.length + s.spare.length

def index (s : Slice α) (i : Int) : Except Panic α :=
  if h : 0 ≤ i ∧ i.toNat < s.elems.length then .ok (s.elems.get ⟨i.toNat, h.2⟩) else .error (.index i s.len)

def sub (s : Slice α) (lo hi : Int) : Except Panic (Slice α) :=
  if h : 0 ≤ lo ∧ lo ≤ hi ∧ hi ≤ s.cap then
    .ok ⟨((s.elems ++ s.spare).take hi.toNat).drop lo.toNat, (s.elems ++ s.spare).drop hi.toNat, by
      have hcap := s.cap_lt
      simp only [cap] at h
      simp only [List.length_drop, List.length_take, List.length_append]
      omega⟩
  else .error (.bounds lo hi s.cap)

def drop (s : Slice α) (lo : Int) : Except Panic (Slice α) := s.sub lo s.len

theorem len_le_cap (s : Slice α) : s.len ≤ s.cap := Nat.le_add_right ..

theorem index_eq {s : Slice α} {i : Int} (h₀ : 0 ≤ i) (hi : i < s.len) :
    ∃ a, s.index i = .ok a ∧ s.elems[i.toNat]? = some a := by
  have hlt : i.toNat < s.elems.length := by
    simp only [len] at hi
    omega
  rw [index, dif_pos ⟨h₀, hlt⟩]
  exact ⟨_, rfl, List.getElem?_eq_getElem hlt⟩

theorem index_error {s : Slice α} {i : Int} (h : s.len ≤ i) : s.index i = .error (.index i s.len) := by
  rw [index, dif_neg]
  simp only [len] at h
  omega

theorem isOk_sub_iff (s : Slice α) (lo hi : Int) : (∃ t, s.sub lo hi = .ok t) ↔ 0 ≤ lo ∧ lo ≤ hi ∧ hi ≤ s.cap := by
  unfold sub
  split
  · rename_i h
    exact iff_of_true ⟨_, rfl⟩ h
  · rename_i h
    exact iff_of_false (fun ⟨_, ht⟩ => by cases ht) h

theorem sub_eq (s : Slice α) (lo hi : Int) (h₀ : 0 ≤ lo) (hlo : lo ≤ hi) (hhi : hi ≤ s.len) :
    ∃ t, s.sub lo hi = .ok t ∧ t.elems = (s.elems.take hi.toNat).drop lo.toNat := by
  have hcap := s.len_le_cap
  rw [sub, dif_pos ⟨h₀, hlo, by omega⟩]
  refine ⟨_, rfl, ?_⟩
  simp only
  rw [List.take_append_of_le_length (by simp only [len] at hhi; omega)]

theorem drop_eq (s : Slice α) (lo : Int) (h₀ : 0 ≤ lo) (h : lo ≤ s.len) :
    ∃ t, s.drop lo = .ok t ∧ t.elems = s.elems.drop lo.toNat := by
  obtain ⟨t, ht, helems⟩ := s.sub_eq lo s.len h₀ h (Int.le_refl s.len)
  exact ⟨t, ht, by rw [helems, Int.toNat_natCast, len, List.take_length]⟩

end Slice

end Slices
