import Mathlib.Algebra.Order.Group.Int
import Mathlib.Data.List.AList
import Mathlib.Data.List.Induction

/-!
# The addresses of the host

`AddrManager` of `p2put/addrmgr.go`.  `GetAll` forgets the vouches that have expired and the circuit addresses through
their relays; what is set after that is judged without them.  An address is known by its text, `relay` is
`extractRelayPeerID`, and `GetAll` reads the clock once.
-/

namespace Libp2px.Node

variable {α ι : Type} [DecidableEq ι] (relay : α → Option ι)

structure RelayVouch (α : Type) where
  addrs : List α
  expiration : Int

structure AddrManager (α ι : Type) where
  localAddrs : List α
  relayCircuitAddrs : List α
  relayVouches : AList fun _ : ι => RelayVouch α

def mergeAddrs [DecidableEq α] (existing incoming : List α) : List α := (existing ++ incoming).eraseDups

namespace AddrManager

def new : AddrManager α ι := ⟨[], [], ∅⟩

/-- The relay of a circuit address has no vouch, or one that is still good. -/
def valid (m : AddrManager α ι) (now : Int) (a : α) : Bool :=
  ((relay a).bind m.relayVouches.lookup).all (now < ·.expiration)

/-- What `GetAll` leaves behind. -/
def prune (m : AddrManager α ι) (now : Int) : AddrManager α ι where
  localAddrs := m.localAddrs
  relayCircuitAddrs := m.relayCircuitAddrs.filter (m.valid relay now)
  relayVouches := ⟨m.relayVouches.entries.filter (now < ·.2.expiration),
    m.relayVouches.nodupKeys.sublist List.filter_sublist⟩

def getAll [DecidableEq α] (m : AddrManager α ι) (now : Int) : List α :=
  (m.prune relay now).relayVouches.entries.foldl (fun out e => mergeAddrs out e.2.addrs)
    (mergeAddrs m.localAddrs (m.prune relay now).relayCircuitAddrs)

/-- A call; a `GetAll` may be an additional one, that is made in the first of two sequences only. -/
inductive Call (α ι : Type)
  | setLocal (addrs : List α)
  | setRelayCircuit (addrs : List α)
  | setRelayVouch (id : ι) (v : RelayVouch α)
  | getAll (additional : Bool)

def call (first : Bool) (m : AddrManager α ι) : Int × Call α ι → AddrManager α ι
  | (_, .setLocal addrs) => { m with localAddrs := addrs }
  | (_, .setRelayCircuit addrs) => if addrs.isEmpty then m else { m with relayCircuitAddrs := addrs }
  | (_, .setRelayVouch id v) => { m with relayVouches := m.relayVouches.insert id v }
  | (now, .getAll additional) => if additional && !first then m else m.prune relay now

def run (first : Bool) (calls : List (Int × Call α ι)) : AddrManager α ι := calls.foldl (call relay first) new

/-- No vouch that has expired is replaced, and no circuit address is set through a relay with such a vouch. -/
def Fresh (m : AddrManager α ι) : Int × Call α ι → Prop
  | (now, .setRelayCircuit addrs) => ∀ a ∈ addrs, m.valid relay now a
  | (now, .setRelayVouch id _) => ∀ v ∈ m.relayVouches.lookup id, now < v.expiration
  | _ => True

/-- From `now` on the two managers differ only in what has expired. -/
structure Alike (now : Int) (m m' : AddrManager α ι) : Prop where
  localAddrs : m.localAddrs = m'.localAddrs
  vouches : ∀ id v, now < v.expiration → (v ∈ m.relayVouches.lookup id ↔ v ∈ m'.relayVouches.lookup id)
  circuits : ∀ a, a ∈ m.relayCircuitAddrs ∧ m.valid relay now a ↔ a ∈ m'.relayCircuitAddrs ∧ m'.valid relay now a

variable {relay} {m m' : AddrManager α ι} {now t : Int} {a : α} {id : ι} {v : RelayVouch α}

theorem valid_iff : m.valid relay now a ↔ ∀ id ∈ relay a, ∀ v ∈ m.relayVouches.lookup id, now < v.expiration := by
  cases h : relay a <;> simp [valid, h, Option.all_eq_true]

theorem mem_lookup_prune :
    v ∈ (m.prune relay now).relayVouches.lookup id ↔ v ∈ m.relayVouches.lookup id ∧ now < v.expiration := by
  simp only [AList.mem_lookup_iff, prune, List.mem_filter, decide_eq_true_eq]

theorem mem_getAll [DecidableEq α] : a ∈ m.getAll relay now ↔ a ∈ m.localAddrs ∨
    (a ∈ m.relayCircuitAddrs ∧ m.valid relay now a) ∨
    ∃ id, ∃ v ∈ m.relayVouches.lookup id, now < v.expiration ∧ a ∈ v.addrs := by
  have hmerge : ∀ l l' : List α, a ∈ mergeAddrs l l' ↔ a ∈ l ∨ a ∈ l' := by simp [mergeAddrs]
  have hfold : ∀ (entries : List (Σ _ : ι, RelayVouch α)) out,
      a ∈ entries.foldl (fun out e => mergeAddrs out e.2.addrs) out ↔ a ∈ out ∨ ∃ e ∈ entries, a ∈ e.2.addrs := by
    intro entries
    induction entries with
    | nil => simp
    | cons e entries ih => simp [ih, hmerge, or_assoc]
  simp only [AList.mem_lookup_iff]
  simp [getAll, hfold, hmerge, prune, and_assoc, or_assoc]

namespace Alike

theorem symm (h : Alike relay now m m') : Alike relay now m' m :=
  ⟨h.localAddrs.symm, fun id v hv => (h.vouches id v hv).symm, fun a => (h.circuits a).symm⟩

theorem valid_later (h : Alike relay t m m') (hle : t ≤ now) (ha : a ∈ m.relayCircuitAddrs ∧ m.valid relay now a) :
    a ∈ m'.relayCircuitAddrs ∧ m'.valid relay now a := by
  have hc := h.circuits a
  simp only [valid_iff] at hc ha ⊢
  obtain ⟨ha', hv'⟩ := hc.1 ⟨ha.1, fun id hid v hv => lt_of_le_of_lt hle (ha.2 id hid v hv)⟩
  exact ⟨ha', fun id hid v hv => ha.2 id hid v ((h.vouches id v (hv' id hid v hv)).2 hv)⟩

theorem mono (h : Alike relay t m m') (hle : t ≤ now) : Alike relay now m m' :=
  ⟨h.localAddrs, fun id v hv => h.vouches id v (lt_of_le_of_lt hle hv),
    fun _ => ⟨h.valid_later hle, h.symm.valid_later hle⟩⟩

theorem prune (h : Alike relay now m m') : Alike relay now (m.prune relay now) m' := by
  refine ⟨h.localAddrs, fun id v hv => by rw [mem_lookup_prune, and_iff_left hv, h.vouches id v hv], fun a => ?_⟩
  rw [and_iff_left (valid_iff.2 fun _ _ _ hv => (mem_lookup_prune.1 hv).2), ← h.circuits, AddrManager.prune,
    List.mem_filter]

theorem call {c : Call α ι} (h : Alike relay t m m') (hm : m.Fresh relay (t, c)) (hm' : m'.Fresh relay (t, c)) :
    Alike relay t (m.call relay true (t, c)) (m'.call relay false (t, c)) := by
  cases c with
  | setLocal addrs => exact { h with localAddrs := rfl }
  | setRelayCircuit addrs =>
    simp only [AddrManager.call]
    split
    · exact h
    · exact ⟨h.localAddrs, h.vouches, fun a => and_congr_right fun ha => iff_of_true (hm a ha) (hm' a ha)⟩
  | setRelayVouch id v =>
    have hins : ∀ (m : AddrManager α ι) id', (m.relayVouches.insert id v).lookup id' =
        if id' = id then some v else m.relayVouches.lookup id' := by
      intro m id'
      split
      · rename_i heq
        rw [heq, AList.lookup_insert]
      · rename_i hne
        rw [AList.lookup_insert_ne hne]
    have hcircuits := h.circuits
    have hvouches := h.vouches
    simp only [valid_iff] at hcircuits
    refine ⟨h.localAddrs, ?_, fun a => ?_⟩
    · grind [AddrManager.call]
    · simp only [AddrManager.call, valid_iff, hins]
      grind [AddrManager.Fresh]
  | getAll additional =>
    cases additional with
    | true => exact h.prune
    | false => exact h.prune.symm.prune.symm

theorem run {calls : List (Int × Call α ι)} (hsorted : (calls.map (·.1) ++ [now]).Pairwise (· ≤ ·))
    (hfresh : ∀ first pre c, pre ++ [c] <+: calls → (run relay first pre).Fresh relay c) :
    Alike relay now (run relay true calls) (run relay false calls) := by
  induction calls using List.reverseRecOn generalizing now with
  | nil => exact ⟨rfl, fun _ _ _ => Iff.rfl, fun _ => Iff.rfl⟩
  | append_singleton calls c ih =>
    rw [List.map_append, List.append_assoc, List.pairwise_append] at hsorted
    have hle : c.1 ≤ now := List.rel_of_pairwise_cons hsorted.2.1 (by simp)
    have hbefore := @ih c.1 (by grind)
      fun first pre c' hp => hfresh first pre c' (hp.trans (List.prefix_append _ _))
    have hc := fun first => hfresh first calls c (List.prefix_refl _)
    simp only [AddrManager.run, List.foldl_append] at hbefore hc ⊢
    exact (hbefore.call (hc true) (hc false)).mono hle

end Alike

end AddrManager

end Libp2px.Node
