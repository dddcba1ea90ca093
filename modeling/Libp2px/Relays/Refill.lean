import Libp2px.Relays.Pool
import Mathlib.Data.Finset.Card

/-!
# Refilling the managed relays

A tick of `relayPoolManager` in `p2put/libp2p_bs.go`: managed relays that are not connected any more, or whose circuit is
open, are dropped, and if fewer than `k` are left, as many as are missing are selected by score.  The selection does not
know which relays are connected, and those are skipped afterwards; so relays that could be taken stay out if connected ones
rank above them (`refill_iff`).

Whether a relay is connected is an argument; the results of the reservations are left out.
-/

namespace Libp2px.Relays.RelayPool

variable {ι : Type} [DecidableEq ι]

def isCircuitOpen (p : RelayPool ι) (pid : ι) : Bool := p.items.any fun it => it.peerID == pid && it.circuitOpen

def selectN (p : RelayPool ι) (weigh : RelayItem ι → ℚ) (srt : Sorter (RelayItem ι)) (n : Nat) : List (RelayItem ι) :=
  (srt.sort (fun a b => decide (b.calcScore weigh < a.calcScore weigh)) (p.items.filter (!·.circuitOpen))).take n

/-- The loop over the selected relays. -/
def addUnconnected (connected : ι → Bool) (managed : Finset ι) (l : List (RelayItem ι)) : Finset ι :=
  l.foldl (fun m it => if connected it.peerID then m else Insert.insert it.peerID m) managed

def tick (p : RelayPool ι) (weigh : RelayItem ι → ℚ) (srt : Sorter (RelayItem ι)) (connected : ι → Bool) (k : Nat)
    (managed : Finset ι) : Finset ι :=
  let kept := managed.filter fun pid => connected pid = true ∧ p.isCircuitOpen pid = false
  if kept.card < k then addUnconnected connected kept (p.selectN weigh srt (k - kept.card)) else kept

/-- The items with a closed circuit that are neither managed nor connected. -/
def free (p : RelayPool ι) (connected : ι → Bool) (managed : Finset ι) : List (RelayItem ι) :=
  p.items.filter fun it => !it.circuitOpen && !connected it.peerID && decide (it.peerID ∉ managed)

theorem card_addUnconnected {l : List (RelayItem ι)} (connected : ι → Bool) (managed : Finset ι)
    (hl : (l.map (·.peerID)).Nodup) (hm : ∀ it ∈ l, connected it.peerID = false → it.peerID ∉ managed) :
    (addUnconnected connected managed l).card = managed.card + l.countP (!connected ·.peerID) := by
  induction l generalizing managed with
  | nil => simp [addUnconnected]
  | cons it l ih =>
    obtain ⟨hit, hl⟩ := List.nodup_cons.1 hl
    have hrest := fun m => ih m hl
    simp only [addUnconnected, List.foldl_cons] at hrest ⊢
    cases hc : connected it.peerID with
    | true =>
      rw [if_pos rfl, hrest managed fun it' h => hm it' (List.mem_cons_of_mem it h)]
      simp [hc]
    | false =>
      rw [if_neg Bool.false_ne_true, hrest, Finset.card_insert_of_notMem (hm it List.mem_cons_self hc)]
      · simp [hc]
        omega
      · intro it' hit' hc'
        rw [Finset.mem_insert, not_or]
        refine ⟨fun heq => hit (List.mem_map.2 ⟨it', hit', heq⟩), hm it' (List.mem_cons_of_mem it hit') hc'⟩

/-- For managed relays that are all connected with a closed circuit, fewer than `k`: a tick ends with `k` of them, or with
all that are free, if and only if as many free ones are among the selected. -/
theorem refill_iff (p : RelayPool ι) (connected : ι → Bool) (managed : Finset ι) (weigh : RelayItem ι → ℚ)
    (srt : Sorter (RelayItem ι)) {k : Nat} (hM : ∀ pid ∈ managed, connected pid = true ∧ p.isCircuitOpen pid = false) (hk : managed.card < k) :
    (p.tick weigh srt connected k managed).card = min k (managed.card + (p.free connected managed).length) ↔
      min (k - managed.card) (p.free connected managed).length ≤
        (p.selectN weigh srt (k - managed.card)).countP fun it => !connected it.peerID && decide (it.peerID ∉ managed) := by
  have hkept : (managed.filter fun pid => connected pid = true ∧ p.isCircuitOpen pid = false) = managed :=
    Finset.filter_true_of_mem hM
  -- a managed relay is connected
  have hnot : ∀ it : RelayItem ι, (!connected it.peerID && decide (it.peerID ∉ managed)) = !connected it.peerID := by
    intro it
    cases hc : connected it.peerID with
    | true => rfl
    | false =>
      have hno : it.peerID ∉ managed := fun hmem => by simp [(hM _ hmem).1] at hc
      simp [hno]
  have hsub := srt.subperm_take (fun a b => decide (b.calcScore weigh < a.calcScore weigh))
    (p.items.filter (!·.circuitOpen)) (k - managed.card)
  have hfree : (p.free connected managed).length = (p.items.filter (!·.circuitOpen)).countP (!connected ·.peerID) := by
    simp only [free, Bool.and_assoc, hnot, List.countP_eq_length_filter, List.filter_filter, Bool.and_comm]
  have hle : (p.selectN weigh srt (k - managed.card)).countP (!connected ·.peerID) ≤ (p.free connected managed).length :=
    hfree ▸ hsub.countP_le _
  have hlen : (p.selectN weigh srt (k - managed.card)).countP (!connected ·.peerID) ≤ k - managed.card :=
    List.countP_le_length.trans (List.length_take_le _ _)
  have hnodup : ((p.selectN weigh srt (k - managed.card)).map (·.peerID)).Nodup := by
    obtain ⟨l, hperm, hl⟩ := hsub.trans List.filter_sublist.subperm
    exact (hperm.map _).nodup_iff.1 (p.nodup.sublist (hl.map _))
  have hcard := card_addUnconnected connected managed hnodup fun it _ hc hmem => by simp [(hM _ hmem).1] at hc
  simp only [tick, hkept, if_pos hk, hcard, hnot]
  omega

/-- Two relays with closed circuits; the first one has the better score. -/
def twoRelays : RelayPool Nat :=
  ⟨[.new 1 "" 0, .new 2 "" 0], [], poolLowWater, poolHighWater, by decide, (newRelayPool (ι := Nat)).low_le⟩

theorem refill_two_unconnected :
    (twoRelays.tick (fun it => if it.peerID = 1 then 2 else 1) .insertion (fun _ => false) 2 ∅).card = 2 :=
  (refill_iff twoRelays (fun _ => false) ∅ _ .insertion (by simp) (by simp)).2 (by decide +kernel)

/-- The first one is managed: it is selected again, and the second one is not. -/
theorem refill_selects_managed :
    twoRelays.tick (fun it => if it.peerID = 1 then 2 else 1) .insertion (· = 1) 2 {1} = {1} ∧
      (twoRelays.free (· = 1) {1}).length = 1 := by
  decide +kernel

end Libp2px.Relays.RelayPool
