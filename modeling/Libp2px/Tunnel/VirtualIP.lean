import Libp2px.Lib.Transition

/-!
# Virtual addresses

`peeridByConnIP` of `pbtunnel/pbtunnel.go`: the peer behind a virtual address `10.0.0.x`, where `x` is a hash of the peer's
id.  Addresses that were mapped once stay in `peerips`; a lookup of one that is not there maps all the peers of the cluster
again, in the order of their ids.  Two peers of one hash share an address, and the later one in this order gets it.  So the
lookup of some address can take another one from its peer (`stable_iff`).

What `net.SplitHostPort` makes of an address is an argument, `none` for an error; `hash` is any function of the ids.
-/

namespace Libp2px.Tunnel.VirtualIP

open Transition

variable (hash : String → Fin 253)

def vlanpfx : String := "10.0.0."

def stringToHostPart (id : String) : Nat := (hash id).val + 2

def mappedIP (id : String) : String := vlanpfx ++ toString (stringToHostPart hash id)

/-- The cluster, the map `peerips`, and the peers returned for addresses that are still in the cluster. -/
structure State where
  cluster : List String
  peerips : String → Option String
  returned : List (String × String)

def start : State := { cluster := [], peerips := fun _ => none, returned := [] }

/-- The loop over the ids. -/
def remap (ids : List String) (m : String → Option String) : String → Option String :=
  ids.foldl (fun m id => Function.update m (mappedIP hash id) (some id)) m

namespace State

/-- `peeridByConnIP` after `SplitHostPort`: the map afterwards and the id. -/
def peeridByConnIP (s : State) (host : Option String) : (String → Option String) × String :=
  match host with
  | none => (s.peerips, "")
  | some rawIP =>
    if rawIP = "127.0.0.1" then (s.peerips, "")
    else
      match s.peerips rawIP with
      | some id => (s.peerips, id)
      | none =>
        let m := remap hash (s.cluster.insertionSort (· ≤ ·)) s.peerips
        (m, (m rawIP).getD "")

end State

inductive Act
  | join (id : String)
  | leave (id : String)
  | lookup (host : Option String)
  deriving DecidableEq, Repr

/-- A lookup that returns a peer of the cluster is kept in mind until the peer leaves. -/
def State.next (s : State) : Act → Option State
  | .join id => some { s with cluster := id :: s.cluster }
  | .leave id => some { s with
      cluster := s.cluster.filter (· ≠ id)
      returned := s.returned.filter (·.2 ≠ id) }
  | .lookup host =>
    let r := s.peeridByConnIP hash host
    some { s with
      peerips := r.1
      returned := match host with
        | some rawIP => if r.2 ≠ "" ∧ r.2 ∈ s.cluster then (rawIP, r.2) :: s.returned else s.returned
        | none => s.returned }

/-- A lookup of an address that has returned a peer still in the cluster would return it again. -/
def State.Stable (s : State) : Prop :=
  ∀ e ∈ s.returned, (s.peeridByConnIP hash (some e.1)).2 = e.2

/-- A lookup that maps the peers again finds no peer behind one that was returned, with the same hash. -/
def State.Calm (s : State) : Act → Prop
  | .lookup (some rawIP) => rawIP ≠ "127.0.0.1" → s.peerips rawIP = none →
      ∀ e ∈ s.returned, ∀ id ∈ s.cluster, mappedIP hash id = e.1 → id ≤ e.2
  | _ => True

/-- What holds in any case: the map has ids under their own address, and the addresses of returned peers. -/
structure State.Inv (s : State) : Prop where
  own : ∀ ip id, s.peerips ip = some id → mappedIP hash id = ip
  present : ∀ e ∈ s.returned, e.2 ∈ s.cluster ∧ e.1 ≠ "127.0.0.1" ∧ mappedIP hash e.2 = e.1 ∧ (s.peerips e.1).isSome

variable {hash} {s t : State} {ids : List String} {m : String → Option String} {ip id : String}

theorem remap_eq (ids : List String) (m : String → Option String) (ip : String) :
    remap hash ids m ip = (ids.filter (mappedIP hash · = ip)).getLast?.or (m ip) := by
  induction ids using List.reverseRecOn with
  | nil => rfl
  | append_singleton ids id ih =>
    rw [remap, List.foldl_append, List.foldl_cons, List.foldl_nil, List.filter_append]
    by_cases h : mappedIP hash id = ip
    · simp [h]
    · rw [Function.update_of_ne (Ne.symm h)]
      simpa [remap, h] using ih

theorem getLast?_eq_iff {l : List String} (hs : l.Pairwise (· ≤ ·)) (h : id ∈ l) :
    l.getLast? = some id ↔ ∀ q ∈ l, q ≤ id := by
  induction l using List.reverseRecOn with
  | nil => cases h
  | append_singleton l a ih =>
    have hle : ∀ q ∈ l, q ≤ a := fun q hq => (List.pairwise_append.1 hs).2.2 q hq a (List.mem_singleton_self a)
    simp only [List.getLast?_append, List.getLast?_singleton, Option.some_or, Option.some.injEq, List.mem_append,
      List.mem_singleton]
    constructor
    · rintro rfl q (hq | rfl)
      · exact hle q hq
      · exact le_refl q
    · intro hall
      rcases List.mem_append.1 h with h | h
      · exact le_antisymm (hall a (.inr rfl)) (hle id h)
      · exact (List.mem_singleton.1 h).symm

/-- After the peers have been mapped again, a peer of the cluster has its address if and only if no other one of the
address comes after it. -/
theorem remap_sorted_iff (hash : String → Fin 253) (m : String → Option String) (hid : id ∈ ids) :
    remap hash (ids.insertionSort (· ≤ ·)) m (mappedIP hash id) = some id ↔
      ∀ q ∈ ids, mappedIP hash q = mappedIP hash id → q ≤ id := by
  have hmem : id ∈ (ids.insertionSort (· ≤ ·)).filter (mappedIP hash · = mappedIP hash id) := by simp [hid]
  have hsorted := (List.pairwise_insertionSort (· ≤ ·) ids).filter (mappedIP hash · = mappedIP hash id)
  obtain ⟨last, hlast⟩ := Option.ne_none_iff_exists'.1 (mt List.getLast?_eq_none_iff.1 (List.ne_nil_of_mem hmem))
  have hiff := getLast?_eq_iff hsorted hmem
  rw [remap_eq, hlast, Option.some_or, ← hlast, hiff]
  simp

theorem remap_own (h : ∀ ip id, m ip = some id → mappedIP hash id = ip) (heq : remap hash ids m ip = some id) :
    mappedIP hash id = ip := by
  rw [remap_eq, Option.or_eq_some_iff] at heq
  rcases heq with heq | ⟨-, heq⟩
  · simpa using (List.mem_filter.1 (List.mem_of_getLast? heq)).2
  · exact h ip id heq

theorem isSome_remap (h : (m ip).isSome) : (remap hash ids m ip).isSome := by
  rw [remap_eq, Option.isSome_or, h, Bool.or_true]

namespace State

theorem lookup_mapped (hip : ip ≠ "127.0.0.1") (h : s.peerips ip = some id) :
    s.peeridByConnIP hash (some ip) = (s.peerips, id) := by
  simp [peeridByConnIP, hip, h]

theorem Inv.stable_iff_kept (h : s.Inv hash) : s.Stable hash ↔ ∀ e ∈ s.returned, s.peerips e.1 = some e.2 := by
  refine forall₂_congr fun e he => ?_
  obtain ⟨-, hip, -, hsome⟩ := h.present e he
  obtain ⟨id, hid⟩ := Option.isSome_iff_exists.1 hsome
  simp [lookup_mapped hip hid, hid]

theorem Inv.lookup {rawIP : String} (m : String → Option String) (id : String) (h : s.Inv hash) (hip : rawIP ≠ "127.0.0.1")
    (hown : ∀ ip id, m ip = some id → mappedIP hash id = ip) (hsome : ∀ ip, (s.peerips ip).isSome → (m ip).isSome)
    (hid : id ≠ "" → m rawIP = some id)
    (ht : t = { s with
      peerips := m
      returned := if id ≠ "" ∧ id ∈ s.cluster then (rawIP, id) :: s.returned else s.returned }) :
    t.Inv hash ∧ (t.Stable hash ↔ ∀ e ∈ s.returned, m e.1 = some e.2) := by
  have hret : ∀ e ∈ t.returned, e ∈ s.returned ∨ e = (rawIP, id) ∧ id ∈ s.cluster ∧ m rawIP = some id := by
    subst ht
    intro e he
    simp only at he
    split at he
    · rename_i hne
      rcases List.mem_cons.1 he with rfl | he
      · exact .inr ⟨rfl, hne.2, hid hne.1⟩
      · exact .inl he
    · exact .inl he
  have hsub : ∀ e ∈ s.returned, e ∈ t.returned := by
    subst ht
    intro e he
    simp only
    split <;> simp [he]
  have hm : t.peerips = m := by rw [ht]
  have hc : t.cluster = s.cluster := by rw [ht]
  have hinv : t.Inv hash := by
    refine ⟨fun ip id => by rw [hm]; exact hown ip id, fun e he => ?_⟩
    rw [hm, hc]
    rcases hret e he with he | ⟨rfl, hmem, heq⟩
    · obtain ⟨hmem, hne, hmapped, hs⟩ := h.present e he
      exact ⟨hmem, hne, hmapped, hsome _ hs⟩
    · exact ⟨hmem, hip, hown _ _ heq, by simp [heq]⟩
  refine ⟨hinv, hinv.stable_iff_kept.trans ?_⟩
  rw [hm]
  constructor
  · intro hall e he
    exact hall e (hsub e he)
  · intro hall e he
    rcases hret e he with he | ⟨rfl, -, heq⟩
    · exact hall e he
    · exact heq

theorem Inv.next_iff {a : Act} (h : s.Inv hash) (hst : s.Stable hash) (hn : s.next hash a = some t) :
    t.Inv hash ∧ (t.Stable hash ↔ s.Calm hash a) := by
  have hkept := h.stable_iff_kept.1 hst
  cases a with
  | join id =>
    have ht := (Option.some.inj hn).symm
    have hinv : t.Inv hash := by
      subst ht
      refine ⟨h.own, fun e he => ?_⟩
      obtain ⟨hmem, hrest⟩ := h.present e he
      exact ⟨List.mem_cons_of_mem id hmem, hrest⟩
    refine ⟨hinv, iff_of_true (hinv.stable_iff_kept.2 ?_) trivial⟩
    subst ht
    exact hkept
  | leave id =>
    have ht := (Option.some.inj hn).symm
    have hinv : t.Inv hash := by
      subst ht
      refine ⟨h.own, fun e he => ?_⟩
      obtain ⟨he, hne⟩ := List.mem_filter.1 he
      obtain ⟨hmem, hrest⟩ := h.present e he
      exact ⟨List.mem_filter.2 ⟨hmem, hne⟩, hrest⟩
    refine ⟨hinv, iff_of_true (hinv.stable_iff_kept.2 ?_) trivial⟩
    subst ht
    exact fun e he => hkept e (List.mem_filter.1 he).1
  | lookup host =>
    have ht := (Option.some.inj hn).symm
    rcases host with _ | rawIP
    · subst ht
      exact ⟨h, iff_of_true hst trivial⟩
    by_cases hip : rawIP = "127.0.0.1"
    · have hts : t = s := by simp [ht, peeridByConnIP, hip]
      subst hts
      exact ⟨h, iff_of_true hst fun hne => absurd hip hne⟩
    rcases hmap : s.peerips rawIP with _ | id
    · set m := remap hash (s.cluster.insertionSort (· ≤ ·)) s.peerips with hm
      refine (Inv.lookup m ((m rawIP).getD "") h hip (fun ip id => remap_own h.own) (fun ip => isSome_remap) ?_
        (ht.trans (by simp only [peeridByConnIP, hip, hmap, if_false, ← hm]))).imp_right fun hiff => hiff.trans ?_
      · intro hne
        rcases hr : m rawIP with _ | id
        · simp [hr] at hne
        · rfl
      · simp only [Calm, hmap, ne_eq, hip, not_false_eq_true, forall_const]
        refine forall₂_congr fun e he => ?_
        have hiff := remap_sorted_iff hash s.peerips (h.present e he).1
        rwa [(h.present e he).2.2.1] at hiff
    · refine (Inv.lookup s.peerips id h hip h.own (fun _ hs => hs) (fun _ => hmap)
        (ht.trans (by simp only [lookup_mapped hip hmap]))).imp_right fun hiff => hiff.trans ?_
      exact iff_of_true hkept fun _ hnone => by simp [hmap] at hnone

theorem inv_start : start.Inv hash := by
  constructor
  · intro ip id h
    cases h
  · intro e he
    cases he

end State

/-- After each step the returned peers that are still in the cluster keep their addresses, if and only if each lookup
that maps the peers again is calm. -/
theorem stable_iff (hash : String → Fin 253) (acts : List Act) :
    execMeets (State.next hash) (fun s a => ∀ t, s.next hash a = some t → t.Stable hash) start acts ↔
      execMeets (State.next hash) (State.Calm hash) start acts := by
  have hstart : start.Stable hash := fun e he => by cases he
  refine execMeets_congr (R := anyStep) (I := fun s => s.Inv hash ∧ s.Stable hash) ?_ ?_ ⟨State.inv_start, hstart⟩
    (execMeets_anyStep _ _ _)
  · intro s a hs _
    obtain ⟨t, ht⟩ : ∃ t, s.next hash a = some t := by cases a <;> exact ⟨_, rfl⟩
    rw [← (hs.1.next_iff hs.2 ht).2]
    constructor
    · intro hall
      exact hall t ht
    · intro hstable t' ht'
      rwa [← Option.some.inj (ht.symm.trans ht')]
  · intro s a t hs _ hcalm ht
    have hnext := hs.1.next_iff hs.2 ht
    exact ⟨hnext.1, hnext.2.2 hcalm⟩

/-- Two peers of one hash: the second one joins after a lookup has returned the first, and the lookup of an address that
nobody has takes the address from it. -/
theorem lookup_moves :
    ∃ s, exec (State.next fun _ => 5) start
        [.join "A", .lookup (some "10.0.0.7"), .join "B", .lookup (some "10.0.0.9")] = some s ∧
      s.returned = [("10.0.0.7", "A")] ∧ "A" ∈ s.cluster ∧
      (s.peeridByConnIP (fun _ => 5) (some "10.0.0.7")).2 = "B" :=
  ⟨_, rfl, by decide +kernel, by decide +kernel, by decide +kernel⟩

theorem own_peeridByConnIP (hown : ∀ ip id, s.peerips ip = some id → mappedIP hash id = ip) (host : Option String)
    (h : (s.peeridByConnIP hash host).1 ip = some id) : mappedIP hash id = ip := by
  unfold State.peeridByConnIP at h
  split at h
  · exact hown ip id h
  · split at h
    · exact hown ip id h
    · split at h
      · exact hown ip id h
      · exact remap_own hown h

/-- No lookup leads astray: after any joins, leaves and lookups, the peer that a lookup returns has the address that was
looked up. -/
theorem lookup_own (hr : (System.ofNext (· = start) (State.next hash)).Reach anyStep s) (rawIP : String)
    (hid : (s.peeridByConnIP hash (some rawIP)).2 ≠ "") : mappedIP hash (s.peeridByConnIP hash (some rawIP)).2 = rawIP := by
  have hown := hr.invariant (I := fun s => ∀ ip id, s.peerips ip = some id → mappedIP hash id = ip) ?_ ?_
  · refine own_peeridByConnIP hown (some rawIP) ?_
    by_cases hip : rawIP = "127.0.0.1"
    · simp [State.peeridByConnIP, hip] at hid
    · cases hm : s.peerips rawIP with
      | some id => simp [State.peeridByConnIP, hip, hm]
      | none =>
        simp only [State.peeridByConnIP, hip, hm, if_false] at hid ⊢
        generalize remap hash _ s.peerips rawIP = o at hid ⊢
        cases o with
        | none => exact absurd rfl hid
        | some id => rfl
  · rintro _ rfl ip id h
    cases h
  · intro s a t _ hown _ hn
    cases a with
    | join id | leave id =>
      cases hn
      exact hown
    | lookup host =>
      cases hn
      exact fun _ _ => own_peeridByConnIP hown host

theorem lookup_own_join :
    let s : State := ⟨["A"], fun _ => none, []⟩
    mappedIP (fun _ => 5) (s.peeridByConnIP (fun _ => 5) (some "10.0.0.7")).2 = "10.0.0.7" :=
  lookup_own (.step (l := .join "A") (.init rfl) trivial rfl) "10.0.0.7" (by decide +kernel)

end Libp2px.Tunnel.VirtualIP
