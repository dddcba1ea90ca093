import Mathlib

/-!
# Reassembly from intervals

The positions of a linear order arrive in half-open intervals, in any order and with overlaps.  A `Tracker` knows what has
arrived: everything before `next`, and beyond it a list of intervals in increasing order that do not overlap.  An interval
that reaches `next` moves it on, together with the held intervals that are then in line (`drain`); any other interval is
merged into the list (`insert`).  What a tracker covers is exactly what arrived (`Tracker.covers_add`), and `next` is the
first position that did not (`Tracker.not_covers_next`).
-/

namespace Intervals

structure Span (α : Type*) where
  lo : α
  hi : α
  deriving DecidableEq, Repr

variable {α : Type*} [LinearOrder α] {p q : Span α} {ps : List (Span α)} {i n : α}

def Span.Contains (p : Span α) (i : α) : Prop := p.lo ≤ i ∧ i < p.hi

def Span.hull (p q : Span α) : Span α := ⟨min p.lo q.lo, max p.hi q.hi⟩

theorem Span.contains_hull (h₁ : q.lo < p.hi) (h₂ : p.lo < q.hi) :
    (q.hull p).Contains i ↔ p.Contains i ∨ q.Contains i := by
  simp only [Contains, hull, min_le_iff, lt_max_iff]
  constructor
  · rintro ⟨hlo, hhi⟩
    by_cases hp : p.lo ≤ i ∧ i < p.hi
    · exact .inl hp
    · right
      rcases lt_or_ge i p.lo with hi | hi
      · exact ⟨hlo.resolve_right (not_le.2 hi), hi.trans h₂⟩
      · have hpi : p.hi ≤ i := not_lt.1 fun h => hp ⟨hi, h⟩
        exact ⟨h₁.le.trans hpi, hhi.resolve_right (not_lt.2 hpi)⟩
  · rintro (⟨hlo, hhi⟩ | ⟨hlo, hhi⟩)
    · exact ⟨.inr hlo, .inr hhi⟩
    · exact ⟨.inl hlo, .inl hhi⟩

def Covers (ps : List (Span α)) (i : α) : Prop := ∃ p ∈ ps, p.Contains i

@[simp] theorem covers_nil : ¬Covers [] i := by simp [Covers]

@[simp] theorem covers_cons : Covers (p :: ps) i ↔ p.Contains i ∨ Covers ps i := by simp [Covers]

def Ordered : List (Span α) → Prop
  | [] => True
  | p :: ps => p.lo < p.hi ∧ (∀ q ∈ ps, p.hi ≤ q.lo) ∧ Ordered ps

theorem Ordered.lt (h : Ordered ps) (hp : p ∈ ps) : p.lo < p.hi := by
  induction ps with
  | nil => cases hp
  | cons q qs ih =>
    rcases List.mem_cons.1 hp with rfl | hp
    · exact h.1
    · exact ih h.2.2 hp

theorem Ordered.pairwise (h : Ordered ps) : ps.Pairwise fun p q => p.hi ≤ q.lo := by
  induction ps with
  | nil => exact List.Pairwise.nil
  | cons p ps ih => exact List.Pairwise.cons h.2.1 (ih h.2.2)

/-! ### Insertion -/

/-- An interval joins a list in order; it takes over the intervals that it overlaps. -/
def insert (p : Span α) : List (Span α) → List (Span α)
  | [] => [p]
  | q :: qs =>
    if p.hi ≤ q.lo then p :: q :: qs
    else if q.hi ≤ p.lo then q :: insert p qs
    else insert (q.hull p) qs

theorem covers_insert (p : Span α) (ps : List (Span α)) :
    Covers (insert p ps) i ↔ p.Contains i ∨ Covers ps i := by
  induction ps generalizing p with
  | nil => simp [insert]
  | cons q qs ih =>
    unfold insert
    split
    · simp
    · rename_i hbefore
      split
      · rw [covers_cons, covers_cons, ih]
        tauto
      · rename_i hafter
        rw [ih, Span.contains_hull (not_le.1 hbefore) (not_le.1 hafter), covers_cons, or_assoc]

theorem forall_insert {P Q : α → Prop} (hp : P p.lo ∧ Q p.hi) (hps : ∀ q ∈ ps, P q.lo ∧ Q q.hi) :
    ∀ q ∈ insert p ps, P q.lo ∧ Q q.hi := by
  induction ps generalizing p with
  | nil => simpa [insert] using hp
  | cons r rs ih =>
    have hr := hps r (by simp)
    have hrs : ∀ q ∈ rs, P q.lo ∧ Q q.hi := fun q hq => hps q (by simp [hq])
    unfold insert
    split
    · intro q hq
      rcases List.mem_cons.1 hq with rfl | hq
      · exact hp
      · exact hps q hq
    · split
      · intro q hq
        rcases List.mem_cons.1 hq with rfl | hq
        · exact hr
        · exact ih hp hrs q hq
      · refine ih ⟨?_, ?_⟩ hrs
        · rcases min_choice r.lo p.lo with h | h <;> rw [Span.hull, h]
          · exact hr.1
          · exact hp.1
        · rcases max_choice r.hi p.hi with h | h <;> rw [Span.hull, h]
          · exact hr.2
          · exact hp.2

theorem ordered_insert (hp : p.lo < p.hi) (hps : Ordered ps) : Ordered (insert p ps) := by
  induction ps generalizing p with
  | nil => exact ⟨hp, by simp, trivial⟩
  | cons q qs ih =>
    obtain ⟨hq, hqs, hrest⟩ := hps
    unfold insert
    split
    · rename_i hbefore
      refine ⟨hp, ?_, hq, hqs, hrest⟩
      intro r hr
      rcases List.mem_cons.1 hr with rfl | hr
      · exact hbefore
      · exact (hbefore.trans hq.le).trans (hqs r hr)
    · split
      · rename_i hafter
        have hlo := forall_insert (P := fun x => q.hi ≤ x) (Q := fun _ => True) ⟨hafter, trivial⟩
          fun r hr => ⟨hqs r hr, trivial⟩
        exact ⟨hq, fun r hr => (hlo r hr).1, ih hp hrest⟩
      · exact ih ((min_le_right _ _).trans_lt (hp.trans_le (le_max_right _ _))) hrest

theorem length_insert_le (p : Span α) (ps : List (Span α)) : (insert p ps).length ≤ ps.length + 1 := by
  induction ps generalizing p with
  | nil => exact le_rfl
  | cons q qs ih =>
    unfold insert
    split
    · exact le_rfl
    · split
      · have := ih p
        simp only [List.length_cons]
        omega
      · have := ih (q.hull p)
        simp only [List.length_cons]
        omega

/-! ### Draining -/

/-- The intervals in line after the position `n`: how far they lead, and what is left. -/
def drain (n : α) : List (Span α) → α × List (Span α)
  | [] => (n, [])
  | p :: ps => if n < p.lo then (n, p :: ps) else if n < p.hi then drain p.hi ps else drain n ps

theorem drain_of_lt (h : ∀ q ∈ ps, n < q.lo) : drain n ps = (n, ps) := by
  cases ps with
  | nil => rfl
  | cons p ps => rw [drain, if_pos (h p (by simp))]

theorem covers_drain (n : α) (ps : List (Span α)) :
    (i < (drain n ps).1 ∨ Covers (drain n ps).2 i) ↔ (i < n ∨ Covers ps i) := by
  induction ps generalizing n with
  | nil => rfl
  | cons p ps ih =>
    unfold drain
    split
    · rfl
    · rename_i hlo
      have hlo' : p.lo ≤ n := not_lt.1 hlo
      split
      · rename_i hhi
        rw [ih, covers_cons, Span.Contains]
        constructor
        · rintro (h | h)
          · rcases lt_or_ge i n with hi | hi
            · exact .inl hi
            · exact .inr (.inl ⟨hlo'.trans hi, h⟩)
          · exact .inr (.inr h)
        · rintro (h | h | h)
          · exact .inl (h.trans hhi)
          · exact .inl h.2
          · exact .inr h
      · rename_i hhi
        rw [ih, covers_cons, Span.Contains]
        constructor
        · rintro (h | h)
          · exact .inl h
          · exact .inr (.inr h)
        · rintro (h | h | h)
          · exact .inl h
          · exact .inl (h.2.trans_le (not_lt.1 hhi))
          · exact .inr h

theorem le_drain (n : α) (ps : List (Span α)) : n ≤ (drain n ps).1 := by
  induction ps generalizing n with
  | nil => exact le_rfl
  | cons p ps ih =>
    unfold drain
    split
    · exact le_rfl
    · split
      · rename_i hhi
        exact hhi.le.trans (ih p.hi)
      · exact ih n

theorem drain_subset (n : α) (ps : List (Span α)) : ∀ q ∈ (drain n ps).2, q ∈ ps := by
  induction ps generalizing n with
  | nil => simp [drain]
  | cons p ps ih =>
    intro q hq
    unfold drain at hq
    split at hq
    · exact hq
    · split at hq
      · exact List.mem_cons_of_mem _ (ih p.hi q hq)
      · exact List.mem_cons_of_mem _ (ih n q hq)

theorem drain_le {m : α} (hn : n ≤ m) (hps : ∀ q ∈ ps, q.hi ≤ m) : (drain n ps).1 ≤ m := by
  induction ps generalizing n with
  | nil => exact hn
  | cons p ps ih =>
    have hrest : ∀ q ∈ ps, q.hi ≤ m := fun q hq => hps q (by simp [hq])
    unfold drain
    split
    · exact hn
    · split
      · exact ih (hps p (by simp)) hrest
      · exact ih hn hrest

theorem ordered_drain (hps : Ordered ps) : Ordered (drain n ps).2 ∧ ∀ q ∈ (drain n ps).2, (drain n ps).1 < q.lo := by
  induction ps generalizing n with
  | nil => exact ⟨trivial, by simp [drain]⟩
  | cons p ps ih =>
    obtain ⟨hp, hlo, hrest⟩ := hps
    unfold drain
    split
    · rename_i hn
      refine ⟨⟨hp, hlo, hrest⟩, ?_⟩
      intro q hq
      rcases List.mem_cons.1 hq with rfl | hq
      · exact hn
      · exact (hn.trans hp).trans_le (hlo q hq)
    · split
      · exact ih hrest
      · exact ih hrest

theorem length_drain_le (n : α) (ps : List (Span α)) : (drain n ps).2.length ≤ ps.length := by
  induction ps generalizing n with
  | nil => exact le_rfl
  | cons p ps ih =>
    unfold drain
    split
    · exact le_rfl
    · split
      · exact (ih p.hi).trans (Nat.le_succ _)
      · exact (ih n).trans (Nat.le_succ _)

/-! ### Trackers -/

/-- What has arrived: everything before `next`, and the intervals held beyond it. -/
structure Tracker (α : Type*) [LinearOrder α] where
  next : α
  held : List (Span α)
  ordered : Ordered held
  beyond : ∀ p ∈ held, next < p.lo

namespace Tracker

def start (n : α) : Tracker α where
  next := n
  held := []
  ordered := trivial
  beyond := by simp

def Covers (t : Tracker α) (i : α) : Prop := i < t.next ∨ Intervals.Covers t.held i

theorem not_covers_next (t : Tracker α) : ¬t.Covers t.next := by
  rintro (h | ⟨p, hp, hlo, -⟩)
  · exact lt_irrefl _ h
  · exact absurd hlo (not_le.2 (t.beyond p hp))

theorem le_next_iff (t : Tracker α) (m : α) : m ≤ t.next ↔ ∀ i < m, t.Covers i := by
  constructor
  · intro h i hi
    exact .inl (hi.trans_le h)
  · intro h
    by_contra hlt
    exact t.not_covers_next (h _ (not_le.1 hlt))

def add (p : Span α) (t : Tracker α) : Tracker α :=
  if p.hi ≤ t.next then t
  else if p.lo ≤ t.next then
    { next := (drain p.hi t.held).1
      held := (drain p.hi t.held).2
      ordered := (ordered_drain t.ordered).1
      beyond := (ordered_drain t.ordered).2 }
  else if hp : t.next < p.lo ∧ p.lo < p.hi then
    { next := t.next
      held := insert p t.held
      ordered := ordered_insert hp.2 t.ordered
      beyond := fun q hq =>
        (forall_insert (P := fun x => t.next < x) (Q := fun _ => True) ⟨hp.1, trivial⟩
          (fun r hr => ⟨t.beyond r hr, trivial⟩) q hq).1 }
  else t

variable {t : Tracker α}

theorem add_eq_self (h : p.hi ≤ p.lo ∨ p.hi ≤ t.next) : t.add p = t := by
  unfold add
  split
  · rfl
  · rename_i hnew
    have hempty := h.resolve_right hnew
    rw [if_neg fun hlo => hnew (hempty.trans hlo), dif_neg fun hp => absurd hp.2 (not_lt.2 hempty)]

theorem add_reaching (hlo : p.lo ≤ t.next) (hhi : t.next < p.hi) :
    (t.add p).next = (drain p.hi t.held).1 ∧ (t.add p).held = (drain p.hi t.held).2 := by
  unfold add
  rw [if_neg (not_le.2 hhi), if_pos hlo]
  exact ⟨rfl, rfl⟩

theorem add_beyond (hlo : t.next < p.lo) (hp : p.lo < p.hi) :
    (t.add p).next = t.next ∧ (t.add p).held = insert p t.held := by
  unfold add
  rw [if_neg (not_le.2 (hlo.trans hp)), if_neg (not_le.2 hlo), dif_pos ⟨hlo, hp⟩]
  exact ⟨rfl, rfl⟩

theorem add_cut {lo hi : α} (h : lo ≤ t.next) : t.add ⟨t.next, hi⟩ = t.add ⟨lo, hi⟩ := by
  unfold add
  simp only [le_refl, h, if_true]

theorem covers_add (p : Span α) (t : Tracker α) (i : α) : (t.add p).Covers i ↔ p.Contains i ∨ t.Covers i := by
  unfold add
  split
  · rename_i hdup
    refine ⟨.inr, ?_⟩
    rintro (h | h)
    · exact .inl (h.2.trans_le hdup)
    · exact h
  · rename_i hnew
    split
    · rename_i hlo
      show (i < (drain p.hi t.held).1 ∨ Intervals.Covers (drain p.hi t.held).2 i) ↔ _
      rw [covers_drain, Covers, Span.Contains]
      constructor
      · rintro (h | h)
        · rcases lt_or_ge i t.next with hi | hi
          · exact .inr (.inl hi)
          · exact .inl ⟨hlo.trans hi, h⟩
        · exact .inr (.inr h)
      · rintro (h | h | h)
        · exact .inl h.2
        · exact .inl (h.trans (not_le.1 hnew))
        · exact .inr h
    · rename_i hlo
      split
      · show (i < t.next ∨ Intervals.Covers (insert p t.held) i) ↔ _
        rw [covers_insert, Covers]
        tauto
      · rename_i hp
        refine ⟨.inr, ?_⟩
        rintro (h | h)
        · exact absurd ⟨not_le.1 hlo, h.1.trans_lt h.2⟩ hp
        · exact h

theorem next_le_add (p : Span α) (t : Tracker α) : t.next ≤ (t.add p).next := by
  unfold add
  split
  · exact le_rfl
  · rename_i hnew
    split
    · exact (not_le.1 hnew).le.trans (le_drain _ _)
    · split <;> exact le_rfl

theorem length_held_add_le (p : Span α) (t : Tracker α) :
    (t.add p).held.length ≤ t.held.length ∨ t.next < p.lo ∧ (t.add p).held.length ≤ t.held.length + 1 := by
  unfold add
  split
  · exact .inl le_rfl
  · split
    · exact .inl (length_drain_le _ _)
    · split
      · rename_i hp
        exact .inr ⟨hp.1, length_insert_le _ _⟩
      · exact .inl le_rfl

/-- Nothing has arrived from the position `m` on. -/
def Below (m : α) (t : Tracker α) : Prop := t.next ≤ m ∧ ∀ p ∈ t.held, p.hi ≤ m

theorem Below.mono {m m' : α} (h : t.Below m) (hm : m ≤ m') : t.Below m' :=
  ⟨h.1.trans hm, fun p hp => (h.2 p hp).trans hm⟩

theorem Below.add {m : α} (h : t.Below m) (hp : p.hi ≤ m) : (t.add p).Below m := by
  unfold Tracker.add
  split
  · exact h
  · split
    · exact ⟨drain_le hp h.2, fun q hq => h.2 q (drain_subset _ _ q hq)⟩
    · split
      · refine ⟨h.1, fun q hq => ?_⟩
        exact (forall_insert (P := fun _ => True) (Q := fun x => x ≤ m) ⟨trivial, hp⟩
          (fun r hr => ⟨trivial, h.2 r hr⟩) q hq).2
      · exact h

end Tracker

end Intervals
