import Mathlib.Data.List.Nodup

/-!
# Pools of workers with a stop channel

A worker runs a loop in the background; its stop channel is made with it, is closed to end the loop, and is never made
anew.  A pool is a map from keys to workers.  A worker that has been taken out of the pool is remembered, since its loop
ends some time later.  Closing a channel that is closed is a panic (`none`).
-/

namespace Workers

variable {κ : Type*}

/-- A worker: whether it is in the pool, whether its stop channel is closed, and how many of its loops run. -/
structure Worker (κ : Type*) where
  key : κ
  member : Bool := true
  closed : Bool := false
  loops : Nat := 0
  deriving DecidableEq

def keys (ws : List (Worker κ)) : List κ := ws.filterMap fun w => if w.member then some w.key else none

theorem keys_modify {f : Worker κ → Worker κ} (hf : ∀ w, (f w).key = w.key ∧ (f w).member = w.member)
    (ws : List (Worker κ)) (i : Nat) : keys (ws.modify i f) = keys ws := by
  induction ws generalizing i with
  | nil => simp [keys]
  | cons w ws ih =>
    cases i with
    | zero => simp only [keys, List.modify_zero_cons, List.filterMap_cons, hf w]
    | succ i =>
      have hrest := ih i
      unfold keys at hrest ⊢
      rw [List.modify_succ_cons, List.filterMap_cons, List.filterMap_cons, hrest]

/-- The workers made so far; those in the pool have distinct keys. -/
structure Pool (κ : Type*) where
  workers : List (Worker κ)
  distinct : (keys workers).Nodup
  deriving DecidableEq

namespace Pool

def empty : Pool κ := ⟨[], List.nodup_nil⟩

/-- A change of the workers that keeps their keys and brings none into the pool. -/
def update (f : Worker κ → Worker κ) (hkey : ∀ w, (f w).key = w.key) (hmem : ∀ w, (f w).member = true → w.member = true)
    (p : Pool κ) : Pool κ where
  workers := p.workers.map f
  distinct := by
    refine p.distinct.sublist ?_
    induction p.workers with
    | nil => exact List.Sublist.refl _
    | cons w ws ih =>
      simp only [keys, List.map_cons, List.filterMap_cons]
      by_cases hw : w.member = true
      · by_cases hfw : (f w).member = true
        · simp only [hw, hfw, if_true, hkey]
          exact ih.cons_cons _
        · simp only [hw, hfw, if_true, if_false, Bool.false_eq_true]
          exact ih.cons _
      · have hfw : ¬(f w).member = true := fun h => hw (hmem w h)
        simp only [hw, hfw, if_false, Bool.false_eq_true]
        exact ih

def startAll (p : Pool κ) : Pool κ :=
  p.update (fun w => if w.member then { w with loops := w.loops + 1 } else w)
    (by intro w; split <;> rfl) (by intro w; split <;> exact id)

def closeAll (p : Pool κ) : Option (Pool κ) :=
  if ∀ w ∈ p.workers, w.member = true → w.closed = false then
    some (p.update (fun w => if w.member then { w with closed := true } else w)
      (by intro w; split <;> rfl) (by intro w; split <;> exact id))
  else none

/-- A loop of the `i`-th worker sees that its stop channel is closed, and ends. -/
def loopEnds (i : Nat) (p : Pool κ) : Option (Pool κ) :=
  if p.workers[i]?.any fun w => w.closed && decide (0 < w.loops) then
    some ⟨p.workers.modify i fun w => { w with loops := w.loops - 1 }, by
      rw [keys_modify]
      · exact p.distinct
      · exact fun _ => ⟨rfl, rfl⟩⟩
  else none

variable [DecidableEq κ]

def has (k : κ) (p : Pool κ) : Bool := decide (k ∈ keys p.workers)

def add (k : κ) (loops : Nat) (p : Pool κ) (hnew : p.has k = false) : Pool κ where
  workers := p.workers ++ [{ key := k, loops := loops }]
  distinct := by
    have hnot : k ∉ keys p.workers := of_decide_eq_false hnew
    have happ : keys (p.workers ++ [{ key := k, loops := loops }]) = keys p.workers ++ [k] := by
      simp [keys]
    rw [happ, List.nodup_append]
    refine ⟨p.distinct, List.nodup_singleton _, ?_⟩
    rintro a ha b hb rfl
    exact hnot (List.mem_singleton.1 hb ▸ ha)

/-- The stop channel of the worker with the key is closed, and the worker leaves the pool. -/
def remove (k : κ) (p : Pool κ) : Option (Pool κ) :=
  if ∀ w ∈ p.workers, w.member = true → w.key = k → w.closed = false then
    some (p.update (fun w => if w.member && decide (w.key = k) then { w with member := false, closed := true } else w)
      (by intro w; split <;> rfl) (by intro w; split <;> simp))
  else none

/-! ### What the calls do to the workers -/

section calls

variable {p q : Pool κ} {P : Worker κ → Prop}

omit [DecidableEq κ] in
theorem forall_startAll :
    (∀ w ∈ p.startAll.workers, P w) ↔
      ∀ w ∈ p.workers, P (if w.member then { w with loops := w.loops + 1 } else w) := List.forall_mem_map

omit [DecidableEq κ] in
theorem closeAll_eq_none : p.closeAll = none ↔ ∃ w ∈ p.workers, w.member = true ∧ w.closed = true := by
  unfold closeAll
  split
  · rename_i h
    simp only [reduceCtorEq, false_iff]
    rintro ⟨w, hw, hmem, hclosed⟩
    rw [h w hw hmem] at hclosed
    cases hclosed
  · rename_i h
    simpa using h

omit [DecidableEq κ] in
theorem forall_closeAll (h : p.closeAll = some q) :
    (∀ w ∈ q.workers, P w) ↔ ∀ w ∈ p.workers, P (if w.member then { w with closed := true } else w) := by
  unfold closeAll at h
  split at h
  · obtain rfl := Option.some.inj h
    exact List.forall_mem_map
  · cases h

omit [DecidableEq κ] in
theorem forall_loopEnds {i : Nat} (h : p.loopEnds i = some q) (hall : ∀ w ∈ p.workers, P w)
    (hend : ∀ w, w.closed = true → P w → P { w with loops := w.loops - 1 }) : ∀ w ∈ q.workers, P w := by
  unfold loopEnds at h
  split at h
  · rename_i hget
    obtain rfl := Option.some.inj h
    intro w hw
    obtain ⟨j, hj⟩ := List.getElem?_of_mem hw
    rw [List.getElem?_modify] at hj
    obtain ⟨w', hw', rfl⟩ := Option.map_eq_some_iff.1 hj
    have hP := hall w' (List.mem_of_getElem? hw')
    by_cases hij : i = j
    · rw [hij, hw'] at hget
      simp only [if_pos hij]
      exact hend w' (Bool.and_eq_true_iff.1 hget).1 hP
    · simp only [if_neg hij]
      exact hP
  · cases h

theorem forall_add {k : κ} {loops : Nat} (hnew : p.has k = false) :
    (∀ w ∈ (p.add k loops hnew).workers, P w) ↔ (∀ w ∈ p.workers, P w) ∧ P { key := k, loops := loops } := by
  simp only [add, List.forall_mem_append, List.forall_mem_singleton]

theorem remove_eq_none {k : κ} :
    p.remove k = none ↔ ∃ w ∈ p.workers, w.member = true ∧ w.key = k ∧ w.closed = true := by
  unfold remove
  split
  · rename_i h
    simp only [reduceCtorEq, false_iff]
    rintro ⟨w, hw, hmem, hkey, hclosed⟩
    rw [h w hw hmem hkey] at hclosed
    cases hclosed
  · rename_i h
    simpa using h

theorem forall_remove {k : κ} (h : p.remove k = some q) :
    (∀ w ∈ q.workers, P w) ↔ ∀ w ∈ p.workers,
      P (if w.member && decide (w.key = k) then { w with member := false, closed := true } else w) := by
  unfold remove at h
  split at h
  · obtain rfl := Option.some.inj h
    exact List.forall_mem_map
  · cases h

end calls

end Pool

end Workers
