import Mathlib.Data.List.Basic

/-!
# Histories

A history is the list of what happened, the oldest entry first.  `Each P l` says that every entry of `l` meets `P`, which
may look at the entries before it; a history that grows by one entry has to be checked for that entry only.
-/

namespace Histories

variable {α : Type*} {P Q : List α → α → Prop} {l l' : List α}

/-- Every entry meets `P`, given the entries before it. -/
def Each (P : List α → α → Prop) (l : List α) : Prop := ∀ before a after, l = before ++ a :: after → P before a

theorem each_nil : Each P [] := by
  intro before a after h
  simp at h

theorem each_concat {a : α} : Each P (l ++ [a]) ↔ Each P l ∧ P l a := by
  constructor
  · intro h
    refine ⟨fun before b after hl => h before b (after ++ [a]) (by rw [hl]; simp), h l a [] rfl⟩
  · rintro ⟨hl, ha⟩ before b after h
    rcases List.eq_nil_or_concat after with rfl | ⟨after, c, rfl⟩
    · obtain ⟨rfl, hab⟩ := List.append_inj' h rfl
      cases hab
      exact ha
    · have h' : l ++ [a] = (before ++ b :: after) ++ [c] := by simpa using h
      obtain ⟨rfl, -⟩ := List.append_inj' h' rfl
      exact hl before b after rfl

theorem Each.left (h : Each P (l ++ l')) : Each P l :=
  fun before a after hl => h before a (after ++ l') (by rw [hl]; simp)

end Histories
