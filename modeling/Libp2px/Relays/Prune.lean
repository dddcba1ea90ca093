import Libp2px.Relays.Pool

/-!
# Which items `prune` evicts

A pool with more than `highWater` items is pruned in three passes: the oldest items of probation up to a quota, the worst
of the main items that no round protects, and the oldest of what is left of probation for the part of the quota that main
could not give (`prune_eq`).  So `prune` reaches `lowWater` unless it runs out of probation items (`prune_target`), and it
evicts the items that the rules of the rounds name (`prune_evicts`).
-/

namespace Libp2px.Relays

namespace RelayPool

variable {ι : Type} [DecidableEq ι]

/-- Of a pool above `highWater`, `prune` leaves exactly `lowWater` items, unless no item of probation is left, and
never fewer; a pool within `highWater` it leaves alone. -/
theorem prune_target (p : RelayPool ι) (now : Int) (weigh : RelayItem ι → ℚ) (srt : Sorter (RelayItem ι)) :
    if p.highWater < p.items.length then
      ((p.prune now weigh srt).items.length = p.lowWater ∨ (p.prune now weigh srt).probation = []) ∧
        p.lowWater ≤ (p.prune now weigh srt).items.length
    else p.prune now weigh srt = p := by
  split
  · rename_i h
    obtain ⟨-, hexact | ⟨hnone, hmore⟩⟩ := p.prune_spec now weigh srt h
    · exact ⟨.inl hexact, hexact.ge⟩
    · exact ⟨.inr hnone, hmore⟩
  · rename_i h
    rw [prune, if_pos (not_lt.1 h)]

/-! ### The passes -/

theorem evictItems_nil (p : RelayPool ι) : p.evictItems [] = p := by
  simp [evictItems, evict]

def firstOut (p : RelayPool ι) (srt : Sorter (RelayItem ι)) : List (RelayItem ι) := oldest srt p.probation p.quota.1

def mainOut (p : RelayPool ι) (now : Int) (weigh : RelayItem ι → ℚ) (srt : Sorter (RelayItem ι)) :
    List (RelayItem ι) :=
  (p.candidates now weigh srt).take p.quota.2

def lastOut (p : RelayPool ι) (now : Int) (weigh : RelayItem ι → ℚ) (srt : Sorter (RelayItem ι)) :
    List (RelayItem ι) :=
  oldest srt (p.pruneProbation srt).probation (p.quota.2 - (p.mainOut now weigh srt).length)

omit [DecidableEq ι] in
theorem firstOut_subperm (p : RelayPool ι) (srt : Sorter (RelayItem ι)) : (p.firstOut srt).Subperm p.probation :=
  subperm_oldest srt _ _

variable {p : RelayPool ι}

theorem idle_evictItems {l : List (RelayItem ι)} (h : l.Subperm p.probation) (now : Int) :
    (p.evictItems l).idle now = p.idle now := by
  unfold idle
  rw [(evict_probation h).1]
  apply List.filter_congr
  intro it hit
  have hmain := List.mem_filter.1 hit
  have hkept : it.peerID ∉ l.map (·.peerID) := by
    rw [mem_iff_peerID_mem (h.trans p.probation_subperm) hmain.1]
    intro hmem
    have hprob := (List.mem_filter.1 (h.subset hmem)).2
    rw [hmain.2] at hprob
    cases hprob
  simp only [evictItems, evict, List.mem_filter, hkept, not_false_eq_true, decide_true, and_true]

theorem candidates_evictItems {l : List (RelayItem ι)} (h : l.Subperm p.probation) (now : Int)
    (weigh : RelayItem ι → ℚ) (srt : Sorter (RelayItem ι)) :
    (p.evictItems l).candidates now weigh srt = p.candidates now weigh srt := by
  rw [candidates, candidates, idle_evictItems h]

theorem mainOut_subperm (p : RelayPool ι) (now : Int) (weigh : RelayItem ι → ℚ) (srt : Sorter (RelayItem ι)) :
    (p.mainOut now weigh srt).Subperm p.main :=
  (List.take_sublist _ _).subperm.trans (p.subperm_candidates now weigh srt)

theorem pruneMain_eq (p : RelayPool ι) (now : Int) (weigh : RelayItem ι → ℚ) (srt : Sorter (RelayItem ι)) (k : Nat) :
    p.pruneMain now weigh srt k =
      (p.evictItems ((p.candidates now weigh srt).take k)).evictItems
        (oldest srt p.probation (k - ((p.candidates now weigh srt).take k).length)) := by
  have hvictims : ((p.candidates now weigh srt).take k).Subperm p.main :=
    (List.take_sublist k _).subperm.trans (p.subperm_candidates now weigh srt)
  simp only [pruneMain]
  generalize (p.candidates now weigh srt).take k = victims at hvictims ⊢
  rw [(evict_main hvictims).1]
  split
  · rfl
  · rename_i hdone
    rw [show k - victims.length = 0 by omega, oldest, List.take_zero, evictItems_nil]

theorem prune_eq (p : RelayPool ι) (now : Int) (weigh : RelayItem ι → ℚ) (srt : Sorter (RelayItem ι))
    (h : p.highWater < p.items.length) :
    p.prune now weigh srt =
      ((p.evictItems (p.firstOut srt)).evictItems (p.mainOut now weigh srt)).evictItems (p.lastOut now weigh srt) := by
  have hcand : (p.pruneProbation srt).candidates now weigh srt = p.candidates now weigh srt :=
    candidates_evictItems (p.firstOut_subperm srt) now weigh srt
  have hpasses : (p.pruneProbation srt).pruneMain now weigh srt p.quota.2 =
      ((p.evictItems (p.firstOut srt)).evictItems (p.mainOut now weigh srt)).evictItems (p.lastOut now weigh srt) := by
    rw [pruneMain_eq, hcand]
    rfl
  rw [← hpasses, prune, if_neg (not_le.2 h)]
  split
  · rfl
  · rename_i hnone
    rw [pruneMain_eq, show p.quota.2 = 0 by omega, List.take_zero, evictItems_nil, List.length_nil, oldest,
      List.take_zero, evictItems_nil]

theorem lastOut_subperm (p : RelayPool ι) (now : Int) (weigh : RelayItem ι → ℚ) (srt : Sorter (RelayItem ι)) :
    (p.lastOut now weigh srt).Subperm (p.pruneProbation srt).probation :=
  subperm_oldest srt _ _

theorem mem_probation_pruneProbation (p : RelayPool ι) (srt : Sorter (RelayItem ι)) {it : RelayItem ι} :
    it ∈ (p.pruneProbation srt).probation ↔ it ∈ p.probation ∧ it ∉ p.firstOut srt := by
  have hmem : it ∈ (p.evictItems (p.firstOut srt)).items ↔ it ∈ p.items ∧ it ∉ p.firstOut srt :=
    mem_evictItems ((p.firstOut_subperm srt).trans p.probation_subperm)
  simp only [probation, List.mem_filter] at hmem ⊢
  rw [pruneProbation, ← firstOut, hmem]
  tauto

theorem mem_prune (now : Int) (weigh : RelayItem ι → ℚ) (srt : Sorter (RelayItem ι))
    (h : p.highWater < p.items.length) {it : RelayItem ι} :
    it ∈ (p.prune now weigh srt).items ↔ it ∈ p.items ∧ it ∉ p.firstOut srt ∧ it ∉ p.mainOut now weigh srt ∧
      it ∉ p.lastOut now weigh srt := by
  have hfirst := p.firstOut_subperm srt
  have hmain : (p.mainOut now weigh srt).Subperm (p.evictItems (p.firstOut srt)).main := by
    rw [(evict_probation hfirst).1]
    exact p.mainOut_subperm now weigh srt
  have hlast : (p.lastOut now weigh srt).Subperm
      ((p.evictItems (p.firstOut srt)).evictItems (p.mainOut now weigh srt)).probation := by
    rw [(evict_main hmain).1]
    exact p.lastOut_subperm now weigh srt
  rw [prune_eq p now weigh srt h, mem_evictItems (hlast.trans (probation_subperm _)),
    mem_evictItems (hmain.trans (main_subperm _)), mem_evictItems (hfirst.trans (probation_subperm _))]
  tauto

/-! ### The rounds of protection -/

def best (srt : Sorter (RelayItem ι)) (weigh : RelayItem ι → ℚ) (l : List (RelayItem ι)) : List (RelayItem ι) :=
  (srt.sort (fun a b => decide (a.calcScore weigh > b.calcScore weigh)) l).take ((l.length + 4) / 5)

section rounds

variable {srt : Sorter (RelayItem ι)} {weigh : RelayItem ι → ℚ} {l : List (RelayItem ι)} {it it' : RelayItem ι}

omit [DecidableEq ι]

theorem dropBest_eq (srt : Sorter (RelayItem ι)) (weigh : RelayItem ι → ℚ) (l : List (RelayItem ι)) :
    dropBest srt weigh l =
      (srt.sort (fun a b => decide (a.calcScore weigh > b.calcScore weigh)) l).drop ((l.length + 4) / 5) := by
  have hlen := srt.length_sort (fun a b => decide (a.calcScore weigh > b.calcScore weigh)) l
  simp only [dropBest]
  split
  · rfl
  · rw [if_pos (by omega), eq_comm, List.drop_eq_nil_iff]
    omega

theorem dropOldest_eq (srt : Sorter (RelayItem ι)) (l : List (RelayItem ι)) :
    dropOldest srt l =
      (srt.sort (fun a b => decide (a.connectedSince < b.connectedSince)) l).drop (min 10 l.length) := by
  have hlen := srt.length_sort (fun a b => decide (a.connectedSince < b.connectedSince)) l
  simp only [dropOldest]
  split
  · split
    · rfl
    · rw [if_pos (by omega), eq_comm, List.drop_eq_nil_iff]
      omega
  · rename_i hempty
    obtain rfl : l = [] := List.length_eq_zero_iff.1 (by omega)
    rw [eq_comm, List.drop_eq_nil_iff]
    omega

theorem calcScore_le_of_mem_best (h : it ∈ best srt weigh l) (h' : it' ∈ l) (hnot : it' ∉ best srt weigh l) :
    it'.calcScore weigh ≤ it.calcScore weigh := by
  have hless : (fun a b : RelayItem ι => decide (a.calcScore weigh > b.calcScore weigh)) =
      fun a b => decide (-a.calcScore weigh < -b.calcScore weigh) := by
    funext a b
    exact decide_eq_decide.2 neg_lt_neg_iff.symm
  rw [best, hless] at h hnot
  exact neg_le_neg_iff.1 (srt.key_take_le (fun a => -a.calcScore weigh) h h' hnot)

theorem connectedSince_le_of_mem_oldest {k : Nat} (h : it ∈ oldest srt l k) (h' : it' ∈ l) (hnot : it' ∉ oldest srt l k) :
    it.connectedSince ≤ it'.connectedSince :=
  srt.key_take_le (fun a => a.connectedSince) h h' hnot

end rounds

omit [DecidableEq ι] in
theorem nodup_items (p : RelayPool ι) : p.items.Nodup := p.nodup.of_map _

variable {it : RelayItem ι}

theorem idle_subset_main (p : RelayPool ι) (now : Int) (h : it ∈ p.idle now) : it ∈ p.main :=
  (List.mem_filter.1 h).1

theorem nodup_idle (p : RelayPool ι) (now : Int) : (p.idle now).Nodup :=
  p.nodup_items.sublist (List.filter_sublist.trans List.filter_sublist)

theorem mem_candidates (p : RelayPool ι) (now : Int) (weigh : RelayItem ι → ℚ) (srt : Sorter (RelayItem ι)) :
    it ∈ p.candidates now weigh srt ↔
      it ∈ p.idle now ∧ it ∉ best srt weigh (p.idle now) ∧ it ∉ oldest srt (dropBest srt weigh (p.idle now)) 10 := by
  have hrest : ∀ it, it ∈ dropBest srt weigh (p.idle now) ↔ it ∈ p.idle now ∧ it ∉ best srt weigh (p.idle now) := by
    intro it
    constructor
    · intro hit
      rw [dropBest_eq] at hit
      exact ⟨(srt.subperm_drop _ _ _).subset hit, srt.not_mem_take_of_mem_drop (p.nodup_idle now) hit⟩
    · rintro ⟨hit, hnot⟩
      rw [dropBest_eq]
      exact srt.mem_drop_of_not_mem_take hit hnot
  have hnodup : (dropBest srt weigh (p.idle now)).Nodup := by
    rw [dropBest_eq]
    exact ((srt.perm _ _).nodup_iff.2 (p.nodup_idle now)).sublist (List.drop_sublist _ _)
  generalize hl : dropBest srt weigh (p.idle now) = l at hrest hnodup
  have hold : oldest srt l 10 =
      (srt.sort (fun a b => decide (a.connectedSince < b.connectedSince)) l).take (min 10 l.length) := by
    rw [oldest, ← srt.length_sort (fun a b => decide (a.connectedSince < b.connectedSince)) l, List.take_eq_take_min]
  rw [candidates, (srt.perm _ _).mem_iff, hl, dropOldest_eq, hold, ← and_assoc, ← hrest]
  constructor
  · intro hit
    exact ⟨(srt.subperm_drop _ _ _).subset hit, srt.not_mem_take_of_mem_drop hnodup hit⟩
  · rintro ⟨hit, hnot⟩
    exact srt.mem_drop_of_not_mem_take hit hnot

theorem mem_mainOut_of_not_mem_prune {p : RelayPool ι} {now : Int} {weigh : RelayItem ι → ℚ} {srt : Sorter (RelayItem ι)}
    (hit : it ∈ p.main) :
    it ∉ (p.prune now weigh srt).items ↔ p.highWater < p.items.length ∧ it ∈ p.mainOut now weigh srt := by
  obtain ⟨hitems, hmain⟩ := List.mem_filter.1 hit
  have hprob : it ∉ p.probation := by
    intro hmem
    have := (List.mem_filter.1 hmem).2
    rw [hmain] at this
    cases this
  by_cases h : p.highWater < p.items.length
  · have hfirst : it ∉ p.firstOut srt := fun hmem => hprob ((p.firstOut_subperm srt).subset hmem)
    have hlast : it ∉ p.lastOut now weigh srt := fun hmem =>
      hprob ((p.mem_probation_pruneProbation srt).1 ((p.lastOut_subperm now weigh srt).subset hmem)).1
    rw [mem_prune now weigh srt h]
    simp [hitems, hfirst, hlast, h]
  · rw [prune, if_pos (not_lt.1 h)]
    simp [hitems, h]

theorem mem_probation_of_not_mem_prune {p : RelayPool ι} {now : Int} {weigh : RelayItem ι → ℚ}
    {srt : Sorter (RelayItem ι)} (hit : it ∈ p.probation) :
    it ∉ (p.prune now weigh srt).items ↔ p.highWater < p.items.length ∧
      (it ∈ p.firstOut srt ∨ it ∈ p.lastOut now weigh srt) := by
  obtain ⟨hitems, hprob⟩ := List.mem_filter.1 hit
  by_cases h : p.highWater < p.items.length
  · have hmain : it ∉ p.mainOut now weigh srt := by
      intro hmem
      have := (List.mem_filter.1 ((p.mainOut_subperm now weigh srt).subset hmem)).2
      rw [this] at hprob
      cases hprob
    rw [mem_prune now weigh srt h]
    simp only [hitems, hmain, h, not_false_eq_true, true_and]
    tauto
  · rw [prune, if_pos (not_lt.1 h)]
    simp [hitems, h]

/-- `prune` evicts by its rules. No main item goes that is protected or had a result in the last five minutes; of the
idle ones, the best fifth and the ten that are longest in the pool stay. The items of probation that go are at least
as old as those that stay. -/
theorem prune_evicts (p : RelayPool ι) (now : Int) (weigh : RelayItem ι → ℚ) (srt : Sorter (RelayItem ι)) :
    (∀ it ∈ p.main, it ∉ (p.prune now weigh srt).items →
      it.peerID ∉ p.protectedIDs ∧ 5 * minute ≤ now - it.lastResult) ∧
    (∃ top old : List (RelayItem ι),
      top.Subperm (p.idle now) ∧ top.length = ((p.idle now).length + 4) / 5 ∧
      (∀ a ∈ top, ∀ b ∈ p.idle now, b ∉ top → b.calcScore weigh ≤ a.calcScore weigh) ∧
      old.Subperm (p.idle now) ∧ (∀ a ∈ old, a ∉ top) ∧ old.length = min 10 ((p.idle now).length - top.length) ∧
      (∀ a ∈ old, ∀ b ∈ p.idle now, b ∉ top → b ∉ old → a.connectedSince ≤ b.connectedSince) ∧
      (∀ a ∈ top ++ old, a ∈ (p.prune now weigh srt).items) ∧
      (∀ a ∈ p.main, a ∉ (p.prune now weigh srt).items → ∀ b ∈ p.idle now, b ∈ (p.prune now weigh srt).items →
        b ∉ top → b ∉ old → a.calcScore weigh ≤ b.calcScore weigh)) ∧
    ∀ a ∈ p.probation, a ∉ (p.prune now weigh srt).items → ∀ b ∈ p.probation, b ∈ (p.prune now weigh srt).items →
      a.connectedSince ≤ b.connectedSince := by
  have hgone : ∀ it ∈ p.main, it ∉ (p.prune now weigh srt).items → it ∈ p.candidates now weigh srt := fun it hit hnot =>
    List.mem_of_mem_take ((mem_mainOut_of_not_mem_prune hit).1 hnot).2
  have hstays : ∀ it ∈ p.idle now, it ∉ p.candidates now weigh srt → it ∈ (p.prune now weigh srt).items := by
    intro it hit hnot
    by_contra hgone'
    exact hnot (hgone it (p.idle_subset_main now hit) hgone')
  have hrest : (dropBest srt weigh (p.idle now)).Subperm (p.idle now) := subperm_dropBest srt weigh _
  refine ⟨?_, ⟨best srt weigh (p.idle now), oldest srt (dropBest srt weigh (p.idle now)) 10, srt.subperm_take _ _ _, ?_,
    fun a ha b hb hnot => calcScore_le_of_mem_best ha hb hnot, (subperm_oldest srt _ _).trans hrest, ?_, ?_, ?_, ?_, ?_⟩, ?_⟩
  · intro it hit hnot
    have hidle := ((p.mem_candidates now weigh srt).1 (hgone it hit hnot)).1
    have := of_decide_eq_true (List.mem_filter.1 hidle).2
    exact ⟨this.1, not_lt.1 this.2⟩
  · rw [best, List.length_take, srt.length_sort]
    omega
  · intro a ha
    have hmem := (subperm_oldest srt _ _).subset ha
    rw [dropBest_eq] at hmem
    exact srt.not_mem_take_of_mem_drop (p.nodup_idle now) hmem
  · rw [length_oldest, dropBest_eq, best, List.length_drop, List.length_take, srt.length_sort]
    omega
  · intro a ha b hb hnot hnot'
    refine connectedSince_le_of_mem_oldest ha ?_ hnot'
    rw [dropBest_eq]
    exact srt.mem_drop_of_not_mem_take hb hnot
  · intro a ha
    rcases List.mem_append.1 ha with ha | ha
    · exact hstays a ((srt.subperm_take _ _ _).subset ha) fun hc => ((p.mem_candidates now weigh srt).1 hc).2.1 ha
    · exact hstays a (hrest.subset ((subperm_oldest srt _ _).subset ha)) fun hc =>
        ((p.mem_candidates now weigh srt).1 hc).2.2 ha
  · intro a ha hnot b hb hstay htop hold
    have hout := (mem_mainOut_of_not_mem_prune ha).1 hnot
    have hbout : b ∉ p.mainOut now weigh srt := fun hmem =>
      (mem_mainOut_of_not_mem_prune (p.idle_subset_main now hb)).2 ⟨hout.1, hmem⟩ hstay
    have hcand := (p.mem_candidates now weigh srt).2 ⟨hb, htop, hold⟩
    exact srt.key_take_le (fun a => a.calcScore weigh) hout.2 ((srt.perm _ _).mem_iff.1 hcand) hbout
  · intro a ha hnot b hb hstay
    obtain ⟨hhigh, hout⟩ := (mem_probation_of_not_mem_prune ha).1 hnot
    have hbout : ¬(b ∈ p.firstOut srt ∨ b ∈ p.lastOut now weigh srt) := fun hmem =>
      (mem_probation_of_not_mem_prune hb).2 ⟨hhigh, hmem⟩ hstay
    obtain ⟨hbfirst, hblast⟩ := not_or.1 hbout
    rcases hout with hout | hout
    · exact connectedSince_le_of_mem_oldest hout hb hbfirst
    · exact connectedSince_le_of_mem_oldest hout ((p.mem_probation_pruneProbation srt).2 ⟨hb, hbfirst⟩) hblast

end RelayPool

end Libp2px.Relays
