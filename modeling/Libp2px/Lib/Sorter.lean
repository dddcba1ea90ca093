import Mathlib.Data.List.Sort
import Mathlib.Data.List.Perm.Subperm

/-!
# Sorting with any order of ties

A library sort that is not stable may put elements that compare equal in any order, and may do so differently at each
call.  A `Sorter` is such a sort: a rearrangement of its list that is ascending when the comparison is one of keys.
The second part counts what is left of a list without duplicates when a part of it is taken out.
-/

/-- A sort by a "less" test. -/
structure Sorter (α : Type) where
  sort : (α → α → Bool) → List α → List α
  perm : ∀ less l, (sort less l).Perm l
  ascending : ∀ {κ : Type} [LinearOrder κ] (key : α → κ) (l : List α),
    (sort (fun a b => decide (key a < key b)) l).Pairwise fun a b => key a ≤ key b

namespace Sorter

variable {α : Type}

theorem length_sort (srt : Sorter α) (less : α → α → Bool) (l : List α) : (srt.sort less l).length = l.length :=
  (srt.perm less l).length_eq

theorem subperm_take (srt : Sorter α) (less : α → α → Bool) (l : List α) (k : Nat) :
    ((srt.sort less l).take k).Subperm l :=
  (List.take_sublist k _).subperm.trans (srt.perm less l).subperm

theorem subperm_drop (srt : Sorter α) (less : α → α → Bool) (l : List α) (k : Nat) :
    ((srt.sort less l).drop k).Subperm l :=
  (List.drop_sublist k _).subperm.trans (srt.perm less l).subperm

theorem mem_drop_of_not_mem_take (srt : Sorter α) {less : α → α → Bool} {l : List α} {k : Nat} {a : α} (ha : a ∈ l)
    (hk : a ∉ (srt.sort less l).take k) : a ∈ (srt.sort less l).drop k := by
  have hmem : a ∈ (srt.sort less l).take k ++ (srt.sort less l).drop k := by
    rw [List.take_append_drop]
    exact (srt.perm less l).mem_iff.2 ha
  exact (List.mem_append.1 hmem).resolve_left hk

theorem key_take_le {κ : Type} [LinearOrder κ] (srt : Sorter α) (key : α → κ) {l : List α} {k : Nat} {a b : α}
    (ha : a ∈ (srt.sort (fun a b => decide (key a < key b)) l).take k) (hb : b ∈ l)
    (hk : b ∉ (srt.sort (fun a b => decide (key a < key b)) l).take k) : key a ≤ key b := by
  have hasc := srt.ascending key l
  rw [← List.take_append_drop k (srt.sort _ l), List.pairwise_append] at hasc
  exact hasc.2.2 a ha b (srt.mem_drop_of_not_mem_take hb hk)

theorem not_mem_take_of_mem_drop (srt : Sorter α) {less : α → α → Bool} {l : List α} (hl : l.Nodup) {k : Nat} {a : α}
    (ha : a ∈ (srt.sort less l).drop k) : a ∉ (srt.sort less l).take k := by
  have hnodup : (srt.sort less l).Nodup := (srt.perm less l).nodup_iff.2 hl
  rw [← List.take_append_drop k (srt.sort less l), List.nodup_append] at hnodup
  exact fun hmem => hnodup.2.2 a hmem a ha rfl

def insertion : Sorter α where
  sort less l := l.insertionSort fun a b => less b a = false
  perm less l := List.perm_insertionSort _ l
  ascending key l := by
    have : Std.Total (fun a b => decide (key b < key a) = false) :=
      ⟨fun a b => by simpa using le_total (key a) (key b)⟩
    have : IsTrans α (fun a b => decide (key b < key a) = false) :=
      ⟨fun a b c => by simpa using le_trans⟩
    refine (List.pairwise_insertionSort (fun a b => decide (key b < key a) = false) l).imp ?_
    intro a b h
    simpa using h

end Sorter

namespace List

variable {α : Type} [DecidableEq α]

theorem Nodup.length_filter_notMem_add {l part : List α} (hl : l.Nodup) (h : part.Subperm l) :
    (l.filter (· ∉ part)).length + part.length = l.length := by
  have hperm : (part ++ l.diff part).Perm l :=
    List.subperm_append_diff_self_of_count_le (List.subperm_ext_iff.1 h)
  rw [← hperm.length_eq, List.length_append, hl.sdiff_eq_filter, Nat.add_comm]

end List
