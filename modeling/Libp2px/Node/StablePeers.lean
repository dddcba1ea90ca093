import Mathlib

/-!
# The table of stable peers

`p2put/stable_peers.go`: `handlePeerConnectednessChanged` keeps a table of at most `maxStablePeers` peers.  `evictOne`
looks for the oldest `lastSeen`, and for `firstSeen` where there is none, so a peer that came early and stayed is older
than one that has just gone.
-/

namespace Libp2px.Node.StablePeers

def maxStablePeers : Nat := 32

/-- A time of the clock; `none` is the zero `time.Time`. -/
structure StableInfo where
  firstSeen : Nat
  onlineSince : Option Nat
  totalOnline : Nat := 0
  lastSeen : Option Nat := none
  connCount : Nat
  disconnCount : Nat := 0
  deriving DecidableEq

namespace StableInfo

/-- What `evictOne` compares. -/
def seen (si : StableInfo) : Nat := si.lastSeen.getD si.firstSeen

def isOnline (si : StableInfo) : Bool := si.onlineSince.isSome

def connected (si : StableInfo) (now : Nat) : StableInfo :=
  { si with onlineSince := some (si.onlineSince.getD now), connCount := si.connCount + 1 }

def disconnected (si : StableInfo) (now : Nat) : StableInfo :=
  { si with
    totalOnline := si.totalOnline + (si.onlineSince.map (now - ·)).getD 0
    onlineSince := none, lastSeen := some now, disconnCount := si.disconnCount + 1 }

end StableInfo

variable {P : Type}

/-- `stablePeers`, in the order in which the map is iterated. -/
abbrev Table (P : Type) := List (P × StableInfo)

/-- The loop of `evictOne`: the first of the oldest entries. -/
def victim (order : Table P) : Option (P × StableInfo) := order.argmin (·.2.seen)

theorem le_of_mem_victim {order : Table P} {v x : P × StableInfo} (hv : v ∈ victim order) (hx : x ∈ order) :
    v.2.seen ≤ x.2.seen :=
  List.le_of_mem_argmin (f := fun x : P × StableInfo => x.2.seen) hx hv

variable [DecidableEq P]

def evictOne (order : Table P) : Table P :=
  match victim order with
  | some v => order.filter (·.1 ≠ v.1)
  | none => order

inductive Connectedness
  | notConnected
  | connected
  | canConnect
  | cannotConnect
  | limited

structure Event (P : Type) where
  peer : P
  connectedness : Connectedness
  now : Nat

def handlePeerConnectednessChanged (isBootstrapPeer : P → Bool) (t : Table P) (e : Event P) : Table P :=
  if isBootstrapPeer e.peer then t
  else
    match e.connectedness with
    | .connected =>
      if e.peer ∈ t.map (·.1) then t.map fun x => if x.1 = e.peer then (x.1, x.2.connected e.now) else x
      else
        (if t.length ≥ maxStablePeers then evictOne t else t) ++
          [(e.peer, { firstSeen := e.now, onlineSince := some e.now, connCount := 1 })]
    | .notConnected => t.map fun x => if x.1 = e.peer then (x.1, x.2.disconnected e.now) else x
    | _ => t

/-- The tables that a list of events may lead to, the latest one first; the map may be iterated in any order. -/
inductive Run (isBootstrapPeer : P → Bool) : List (Event P) → Table P → Prop
  | start : Run isBootstrapPeer [] []
  | step {es t order} (e : Event P) (h : Run isBootstrapPeer es t) (ho : order.Perm t) :
      Run isBootstrapPeer (e :: es) (handlePeerConnectednessChanged isBootstrapPeer order e)

variable {isBootstrapPeer : P → Bool} {t order : Table P} {e : Event P} {es : List (Event P)}

theorem length_evictOne_lt (h : order ≠ []) : (evictOne order).length < order.length := by
  unfold evictOne
  cases hv : victim order with
  | none => exact absurd (List.argmin_eq_none.1 hv) h
  | some v => exact List.length_filter_lt_length_iff_exists.2 ⟨v, List.argmin_mem hv, by simp⟩

theorem length_handle (h : t.length ≤ maxStablePeers) (e : Event P) :
    (handlePeerConnectednessChanged isBootstrapPeer t e).length ≤ maxStablePeers := by
  have hmax : maxStablePeers = 32 := rfl
  unfold handlePeerConnectednessChanged
  split
  · exact h
  · split
    · split
      · simpa using h
      · rw [List.length_append, List.length_singleton]
        split
        · have := length_evictOne_lt (List.ne_nil_of_length_pos (show 0 < t.length by omega))
          omega
        · omega
    · simpa using h
    · exact h

theorem Run.length_le (h : Run isBootstrapPeer es t) : t.length ≤ maxStablePeers := by
  induction h with
  | start => exact Nat.zero_le _
  | step e _ ho ih => exact length_handle (ho.length_eq.trans_le ih) e

theorem run_foldr (es : List (Event P)) : Run isBootstrapPeer es
    (es.foldr (fun e t => handlePeerConnectednessChanged isBootstrapPeer t e) []) := by
  induction es with
  | nil => exact .start
  | cons e es ih => exact .step e ih (.refl _)

/-- The peers 0 to 31 have come, and the peer 1 has gone again. -/
def oneGone : List (Event Nat) := ⟨1, .notConnected, 40⟩ :: (List.range 32).reverse.map fun i => ⟨i, .connected, i⟩

/-- The table never holds more than `maxStablePeers` peers.  Whatever the order of the map, `evictOne` takes no peer that is
online while another one is offline, exactly if some offline peer was seen before every peer that is online. -/
theorem evicts_offline_iff (h : Run isBootstrapPeer es t) :
    t.length ≤ maxStablePeers ∧
      ((∀ order, order.Perm t → ∀ v ∈ victim order, v.2.isOnline = true → ∀ x ∈ t, x.2.isOnline = true) ↔
        ∀ v ∈ t, v.2.isOnline = true → ∀ x ∈ t, x.2.isOnline = false →
          ∃ y ∈ t, y.2.isOnline = false ∧ y.2.seen < v.2.seen) := by
  refine ⟨h.length_le, fun hsafe v hv hon x hx hoff => ?_, fun hcond order horder v hv hon x hx => ?_⟩
  · by_contra hno
    push Not at hno
    cases hm : victim t with
    | none => exact absurd (List.argmin_eq_none.1 hm) (List.ne_nil_of_mem hv)
    | some m =>
      by_cases hmon : m.2.isOnline = true
      · exact Bool.false_ne_true (hoff.symm.trans (hsafe t (.refl t) m hm hmon x hx))
      · -- `v` is as old as the oldest, and may come first
        have hmv := hno m (List.argmin_mem hm) (Bool.eq_false_of_not_eq_true hmon)
        have hfirst : v ∈ victim (v :: t.erase v) := by
          refine List.mem_argmin_iff.2 ⟨List.mem_cons_self, fun a ha => ?_, fun a _ _ => by simp⟩
          have hat : a ∈ t := (List.mem_cons.1 ha).elim (fun h => h ▸ hv) List.mem_of_mem_erase
          exact hmv.trans (le_of_mem_victim hm hat)
        exact Bool.false_ne_true (hoff.symm.trans (hsafe _ (List.perm_cons_erase hv).symm v hfirst hon x hx))
  · by_contra hoff
    obtain ⟨y, hy, -, hlt⟩ := hcond v (horder.mem_iff.1 (List.argmin_mem hv)) hon x hx (Bool.eq_false_of_not_eq_true hoff)
    exact absurd (le_of_mem_victim hv (horder.mem_iff.2 hy)) (not_le.2 hlt)

theorem evicts_offline_iff_oneGone :
    (oneGone.foldr (fun e t => handlePeerConnectednessChanged (fun _ => false) t e) []).length ≤ maxStablePeers :=
  (evicts_offline_iff (run_foldr oneGone)).1

theorem evicts_online :
    ∃ t, Run (fun _ => false) oneGone t ∧ t.length = maxStablePeers ∧
      (∃ v ∈ victim t, v.1 = 0 ∧ v.2.isOnline = true) ∧ ∃ x ∈ t, x.2.isOnline = false :=
  ⟨_, run_foldr oneGone, by decide +kernel, by decide +kernel, by decide +kernel⟩

end Libp2px.Node.StablePeers
