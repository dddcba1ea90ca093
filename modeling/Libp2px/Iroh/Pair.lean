import Libp2px.Lib.Transition
import Libp2px.Iroh.Endpoint

/-!
# Two endpoints

Two endpoints open streams to each other and exchange frames through a relay that keeps their order.  A run is any
interleaving of `OpenStream`, `Write`, `Close`, `Reset`, `AcceptStream`, the delivery of a frame and the notification
that the peer is gone.  `OpenStream` takes its manager in one step and the id in another, `Close` and `Reset` send
their frame in one step and remove the stream in another, and the RESET for a stream that finds the accept queue full
is sent later.

Each stream and each frame is labelled with the call of `OpenStream` that it belongs to.
-/

namespace Libp2px.Iroh

open Transition

inductive Side
  | a
  | b
  deriving DecidableEq, Repr

def Side.other : Side → Side
  | a => b
  | b => a

structure Call where
  side : Side
  k : Nat
  deriving DecidableEq, Repr

/-- A side: its endpoint; the managers that calls of `OpenStream` have taken; the ids still to be removed; the RESET
frames still to be sent; how many calls of `OpenStream` have got their id; and the ids that were removed. -/
structure Party where
  ep : Endpoint Call
  opening : List Nat
  removing : List Nat
  resetting : List (Nat × Call)
  opens : Nat
  removed : List Nat

def Party.start : Party := ⟨.start, [], [], [], 0, []⟩

/-- The two sides; the frames on their way, the oldest first; the calls of `OpenStream` with their ids; and for each
frame that a known stream took, the call of the frame and the call of the stream. -/
structure Pair where
  party : Side → Party
  link : Side → List (Frame × Call)
  opened : List (Call × Nat)
  taken : List (Call × Call)

inductive Act
  | openStart (x : Side)
  | openAlloc (x : Side) (j : Nat)
  | write (x : Side) (h : Nat) (chunk : List Byte) (sent : Bool)
  | close (x : Side) (h : Nat) (sent : Bool)
  | reset (x : Side) (h : Nat) (sent : Bool)
  | remove (x : Side) (j : Nat)
  | deliver (x : Side)
  | accept (x : Side)
  | sendReset (x : Side) (j : Nat) (sent : Bool)
  | gone (x : Side)

namespace Pair

def start : Pair := ⟨fun _ => .start, fun _ => [], [], []⟩

def setParty (s : Pair) (x : Side) (p : Party) : Pair := { s with party := Function.update s.party x p }

def setLink (s : Pair) (x : Side) (l : List (Frame × Call)) : Pair := { s with link := Function.update s.link x l }

def send (s : Pair) (x : Side) (sent : Bool) (f : Frame) (c : Call) : Pair :=
  if sent then s.setLink x.other (s.link x.other ++ [(f, c)]) else s

variable (keys : Side → Pubkey)

def odd (x : Side) : Nat := oddBit (keys x) (keys x.other)

def streamOf (e : Endpoint Call) (sid : Nat) : Option (Stream Call) := (e.lookup sid).bind e.streams

/-- `Close` and `Reset` of a stream: it changes, a frame is sent, and its id will be removed. -/
def finish (s : Pair) (x : Side) (h : Nat) (st : Stream Call) (flags : Byte) (sent : Bool) : Pair :=
  let p := s.party x
  (s.setParty x { p with ep := p.ep.setStream h st, removing := p.removing ++ [st.id] }).send x sent
    ⟨st.id, flags, []⟩ st.label

def next (s : Pair) : Act → Option Pair
  | .openStart x =>
    let p := s.party x
    let (e, i) := p.ep.manager
    some (s.setParty x { p with ep := e, opening := p.opening ++ [i] })
  | .openAlloc x j =>
    let p := s.party x
    (p.opening[j]?).map fun i =>
      let call : Call := ⟨x, p.opens⟩
      { s.setParty x { p with
          ep := p.ep.openStream i (odd keys x) call
          opening := p.opening.eraseIdx j
          opens := p.opens + 1 } with
        opened := s.opened ++ [(call, ((p.ep.managers i).allocID (odd keys x)).1)] }
  | .write x h chunk sent =>
    match (s.party x).ep.streams h with
    | none => none
    | some st =>
      if chunk ≠ [] ∧ chunk.length ≤ maxDatagramPayload then some (s.send x sent ⟨st.id, flagDATA, chunk⟩ st.label)
      else none
  | .close x h sent =>
    match (s.party x).ep.streams h with
    | none => none
    | some st => if st.closed then some s else some (s.finish x h { st with closed := true } flagCLOSE sent)
  | .reset x h sent =>
    match (s.party x).ep.streams h with
    | none => none
    | some st => some (s.finish x h { st with reset := true, rxBuf := [] } flagRESET sent)
  | .remove x j =>
    let p := s.party x
    (p.removing[j]?).map fun sid =>
      s.setParty x { p with
        ep := p.ep.removeStream sid, removing := p.removing.eraseIdx j, removed := sid :: p.removed }
  | .deliver x =>
    match s.link x with
    | [] => none
    | (f, c) :: rest =>
      let p := s.party x
      let r := p.ep.dispatchStreamFrame f c
      some { (s.setParty x { p with
          ep := r.1, resetting := if r.2 then p.resetting ++ [(f.sid, c)] else p.resetting }).setLink x rest with
        taken := match streamOf p.ep f.sid with
          | some st => s.taken ++ [(c, st.label)]
          | none => s.taken }
  | .accept x =>
    let p := s.party x
    p.ep.acceptStream.map fun e => s.setParty x { p with ep := e }
  | .sendReset x j sent =>
    let p := s.party x
    (p.resetting[j]?).map fun (sid, c) =>
      (s.setParty x { p with resetting := p.resetting.eraseIdx j }).send x sent ⟨sid, flagRESET, []⟩ c
  | .gone x =>
    let p := s.party x
    some (s.setParty x { p with ep := p.ep.peerGone })

def system : System Pair Act := .ofNext (· = .start) (next keys)

/-! ### The ids that `OpenStream` gives -/

def Valid (s : Pair) (sid : Nat) (c : Call) : Prop :=
  sid = streamID (odd keys c.side) c.k ∧ c.k < (s.party c.side).opens

/-- The manager in `pmap` has given all the ids of this side, and no call of `OpenStream` holds another. -/
structure Counts (p : Party) : Prop where
  unused : p.ep.counter = none → p.opens = 0 ∧ p.opening = []
  used : ∀ i n, p.ep.counter = some (i, n) → n = streamIDBase + 2 * p.opens ∧ ∀ j ∈ p.opening, j = i

/-- Streams, frames and calls have the id of their call, and with different keys each frame went to a stream of its
call. -/
structure Sound (s : Pair) : Prop where
  wf : ∀ x, (s.party x).ep.WF
  counts : ∀ x, Counts (s.party x)
  streams : ∀ x h sid c, (s.party x).ep.ident h = some (sid, c) → Valid keys s sid c
  frames : ∀ x f c, (f, c) ∈ s.link x → Valid keys s f.sid c
  resetting : ∀ x sid c, (sid, c) ∈ (s.party x).resetting → Valid keys s sid c
  opened : ∀ c sid, (c, sid) ∈ s.opened → Valid keys s sid c
  calls : (s.opened.map (·.1)).Nodup
  taken : keys .a ≠ keys .b → ∀ c c', (c, c') ∈ s.taken → c = c'

theorem odd_le (x : Side) : odd keys x ≤ 1 := by
  unfold odd oddBit
  split <;> omega

variable {keys}

variable {s : Pair} {x : Side}

theorem Valid.unique (hkeys : keys .a ≠ keys .b) {sid : Nat} {c c' : Call} (h : Valid keys s sid c)
    (h' : Valid keys s sid c') : c = c' := by
  obtain ⟨side, k⟩ := c
  obtain ⟨side', k'⟩ := c'
  have hinj := streamID_inj (odd_le keys side) (odd_le keys side') (h.1.symm.trans h'.1)
  obtain ⟨hodd, rfl⟩ : odd keys side = odd keys side' ∧ k = k' := hinj
  have hsum := oddBit_ne hkeys
  cases side with
  | a =>
    cases side' with
    | a => rfl
    | b =>
      simp only [odd, Side.other] at hodd
      omega
  | b =>
    cases side' with
    | a =>
      simp only [odd, Side.other] at hodd
      omega
    | b => rfl

theorem party_setParty_self (s : Pair) (x : Side) (p : Party) : (s.setParty x p).party x = p :=
  Function.update_self ..

theorem party_setParty_of_ne (s : Pair) {x y : Side} (p : Party) (h : y ≠ x) : (s.setParty x p).party y = s.party y :=
  Function.update_of_ne h ..

theorem Valid.setParty {sid : Nat} {c : Call} (h : Valid keys s sid c) {p : Party}
    (hopens : (s.party x).opens ≤ p.opens) : Valid keys (s.setParty x p) sid c := by
  refine ⟨h.1, ?_⟩
  have hk := h.2
  by_cases hx : c.side = x
  · rw [hx] at hk ⊢
    rw [s.party_setParty_self]
    omega
  · rwa [s.party_setParty_of_ne p hx]

theorem Sound.setParty (h : Sound keys s) {p : Party} (hopens : (s.party x).opens ≤ p.opens) (hwf : p.ep.WF)
    (hcounts : Counts p) (hstreams : ∀ k sid c, p.ep.ident k = some (sid, c) → Valid keys (s.setParty x p) sid c)
    (hresetting : ∀ sid c, (sid, c) ∈ p.resetting → Valid keys (s.setParty x p) sid c) :
    Sound keys (s.setParty x p) := by
  have hparty : ∀ {Q : Party → Prop}, Q p → (∀ y, Q (s.party y)) → ∀ y, Q ((s.setParty x p).party y) := by
    intro Q hp hall y
    by_cases hy : y = x
    · subst hy
      rwa [s.party_setParty_self]
    · rw [s.party_setParty_of_ne p hy]
      exact hall y
  exact
    { wf := hparty (Q := fun p => p.ep.WF) hwf h.wf
      counts := hparty (Q := Counts) hcounts h.counts
      streams := hparty (Q := fun q => ∀ k sid c, q.ep.ident k = some (sid, c) → Valid keys (s.setParty x p) sid c)
        hstreams fun y k sid c hk => (h.streams y k sid c hk).setParty hopens
      frames := fun y f c hf => (h.frames y f c hf).setParty hopens
      resetting := hparty (Q := fun q => ∀ sid c, (sid, c) ∈ q.resetting → Valid keys (s.setParty x p) sid c)
        hresetting fun y sid c hc => (h.resetting y sid c hc).setParty hopens
      opened := fun c sid hc => (h.opened c sid hc).setParty hopens
      calls := h.calls
      taken := h.taken }

theorem Sound.setStreams (h : Sound keys s) {p : Party} (hopens : p.opens = (s.party x).opens)
    (hopening : p.opening = (s.party x).opening) (hcounter : p.ep.counter = (s.party x).ep.counter) (hwf : p.ep.WF)
    (hident : p.ep.ident = (s.party x).ep.ident)
    (hresetting : ∀ sid c, (sid, c) ∈ p.resetting → (sid, c) ∈ (s.party x).resetting) : Sound keys (s.setParty x p) := by
  refine h.setParty (Nat.le_of_eq hopens.symm) hwf ⟨?_, ?_⟩ ?_ ?_
  · intro hnone
    rw [hopens, hopening]
    exact (h.counts x).unused (hcounter ▸ hnone)
  · intro i n hi
    rw [hopens, hopening]
    exact (h.counts x).used i n (hcounter ▸ hi)
  · intro k sid c hk
    exact (h.streams x k sid c (hident ▸ hk)).setParty (Nat.le_of_eq hopens.symm)
  · intro sid c hc
    exact (h.resetting x sid c (hresetting sid c hc)).setParty (Nat.le_of_eq hopens.symm)

theorem link_setLink_self (s : Pair) (x : Side) (l : List (Frame × Call)) : (s.setLink x l).link x = l :=
  Function.update_self ..

theorem link_setLink_of_ne (s : Pair) {x y : Side} (l : List (Frame × Call)) (h : y ≠ x) :
    (s.setLink x l).link y = s.link y :=
  Function.update_of_ne h ..

theorem mem_link_of_setLink {x y : Side} {e e' : Frame × Call} {rest : List (Frame × Call)}
    (hlink : s.link x = e' :: rest) (h : e ∈ (s.setLink x rest).link y) : e ∈ s.link y := by
  by_cases hy : y = x
  · subst hy
    rw [s.link_setLink_self] at h
    rw [hlink]
    exact List.mem_cons_of_mem e' h
  · rwa [s.link_setLink_of_ne rest hy] at h

theorem mem_link_send {x y : Side} {sent : Bool} {f : Frame} {c : Call} {e : Frame × Call}
    (h : e ∈ (s.send x sent f c).link y) : e ∈ s.link y ∨ e = (f, c) ∧ y = x.other := by
  unfold Pair.send at h
  split at h
  · by_cases hy : y = x.other
    · subst hy
      rw [s.link_setLink_self] at h
      rcases List.mem_append.1 h with hold | hnew
      · exact .inl hold
      · exact .inr ⟨List.mem_singleton.1 hnew, rfl⟩
    · rw [s.link_setLink_of_ne _ hy] at h
      exact .inl h
  · exact .inl h

theorem party_send (s : Pair) (x : Side) (sent : Bool) (f : Frame) (c : Call) :
    (s.send x sent f c).party = s.party ∧ (s.send x sent f c).opened = s.opened ∧
      (s.send x sent f c).taken = s.taken := by
  unfold Pair.send
  split <;> exact ⟨rfl, rfl, rfl⟩

theorem Sound.send (h : Sound keys s) (x : Side) (sent : Bool) {f : Frame} {c : Call}
    (hvalid : Valid keys s f.sid c) : Sound keys (s.send x sent f c) := by
  obtain ⟨hparty, hopened, htaken⟩ := s.party_send x sent f c
  have hmono : ∀ sid c', Valid keys s sid c' → Valid keys (s.send x sent f c) sid c' := by
    intro sid c' hv
    rwa [Valid, hparty]
  refine ⟨by rw [hparty]; exact h.wf, by rw [hparty]; exact h.counts, ?_, ?_, ?_, ?_, by rw [hopened]; exact h.calls,
    by rw [htaken]; exact h.taken⟩
  · intro y k sid c' hk
    rw [hparty] at hk
    exact hmono sid c' (h.streams y k sid c' hk)
  · intro y f' c' hf
    rcases mem_link_send hf with hold | ⟨hnew, -⟩
    · exact hmono _ c' (h.frames y f' c' hold)
    · cases hnew
      exact hmono _ c hvalid
  · intro y sid c' hc
    rw [hparty] at hc
    exact hmono sid c' (h.resetting y sid c' hc)
  · intro c' sid hc
    rw [hopened] at hc
    exact hmono sid c' (h.opened c' sid hc)

theorem Sound.finish (h : Sound keys s) {k : Nat} {st st' : Stream Call} (flags : Byte)
    (sent : Bool) (hst : (s.party x).ep.streams k = some st) (hid : st'.id = st.id) (hlabel : st'.label = st.label) :
    Sound keys (s.finish x k st' flags sent) := by
  have hvalid : Valid keys s st'.id st'.label := by
    apply h.streams x k
    rw [Endpoint.ident, hst, hid, hlabel]
    rfl
  have hident := Endpoint.ident_setStream hst hid hlabel
  have hwf := (h.wf x).forget hident rfl fun _ _ _ hk => hk
  have hset : Sound keys (s.setParty x { s.party x with
      ep := (s.party x).ep.setStream k st', removing := (s.party x).removing ++ [st'.id] }) :=
    h.setStreams rfl rfl rfl hwf hident fun _ _ hc => hc
  exact hset.send x sent (hvalid.setParty (Nat.le_refl _))

/-- A peer is only reported gone to a side without `OpenStream` calls, of which a side makes fewer than `2 ^ 62`. -/
def NoRestart (s : Pair) : Act → Prop
  | .openAlloc x _ => (s.party x).opens < 2 ^ 62
  | .gone x => (s.party x).opens = 0 ∧ (s.party x).opening = []
  | _ => True

instance decidableNoRestart (s : Pair) : (act : Act) → Decidable (s.NoRestart act)
  | .openAlloc x _ => inferInstanceAs (Decidable ((s.party x).opens < 2 ^ 62))
  | .gone x => inferInstanceAs (Decidable ((s.party x).opens = 0 ∧ (s.party x).opening = []))
  | .openStart _ | .write .. | .close .. | .reset .. | .remove .. | .deliver _ | .accept _ | .sendReset .. =>
    inferInstanceAs (Decidable True)

theorem Sound.openStart (h : Sound keys s) (x : Side) :
    Sound keys (s.setParty x { s.party x with
      ep := (s.party x).ep.manager.1, opening := (s.party x).opening ++ [(s.party x).ep.manager.2] }) := by
  obtain ⟨hstreams, -, -, -, -, -, -⟩ := (s.party x).ep.manager_frame
  refine h.setParty (Nat.le_refl _) (h.wf x).manager ⟨?_, ?_⟩ ?_
    fun sid c hc => (h.resetting x sid c hc).setParty (Nat.le_refl _)
  · intro hnone
    rcases (s.party x).ep.counter_manager with ⟨hsame, hsome⟩ | ⟨-, hsome⟩
    · rw [← hsame, hnone] at hsome
      cases hsome
    · rw [hnone] at hsome
      cases hsome
  · intro i n hi
    rcases (s.party x).ep.counter_manager with ⟨hsame, hsome⟩ | ⟨hnone, hsome⟩
    · rw [hsame] at hi
      obtain ⟨hn, hopening⟩ := (h.counts x).used i n hi
      refine ⟨hn, fun j hj => ?_⟩
      rcases List.mem_append.1 hj with hold | hnew
      · exact hopening j hold
      · rw [List.mem_singleton.1 hnew]
        rw [hsome] at hi
        exact (Prod.mk.inj (Option.some.inj hi)).1
    · -- the manager is new, and so is its counter
      obtain ⟨hopens, hopening⟩ := (h.counts x).unused hnone
      rw [hsome] at hi
      obtain ⟨rfl, rfl⟩ := Prod.mk.inj (Option.some.inj hi)
      refine ⟨by rw [hopens, Nat.mul_zero, Nat.add_zero], fun j hj => ?_⟩
      rw [hopening, List.nil_append] at hj
      exact List.mem_singleton.1 hj
  · intro k sid c hk
    refine Valid.setParty (h.streams x k sid c ?_) (Nat.le_refl _)
    rw [Endpoint.ident] at hk ⊢
    rwa [hstreams] at hk

theorem Sound.manager_of_opening (h : Sound keys s) {i : Nat} (hi : i ∈ (s.party x).opening) :
    (s.party x).ep.pmap = some i ∧ ((s.party x).ep.managers i).nextID = streamIDBase + 2 * (s.party x).opens := by
  cases hpmap : (s.party x).ep.pmap with
  | none =>
    have hnone : (s.party x).ep.counter = none := by rw [Endpoint.counter, hpmap]; rfl
    rw [((h.counts x).unused hnone).2] at hi
    cases hi
  | some i' =>
    have hsome : (s.party x).ep.counter = some (i', ((s.party x).ep.managers i').nextID) := by
      rw [Endpoint.counter, hpmap]
      rfl
    obtain ⟨hn, hopening⟩ := (h.counts x).used _ _ hsome
    obtain rfl := hopening i hi
    exact ⟨rfl, hn⟩

theorem Sound.openAlloc (h : Sound keys s) {j i : Nat} (hj : (s.party x).opening[j]? = some i)
    (hlt : (s.party x).opens < 2 ^ 62) :
    Sound keys { s.setParty x { s.party x with
        ep := (s.party x).ep.openStream i (odd keys x) ⟨x, (s.party x).opens⟩
        opening := (s.party x).opening.eraseIdx j
        opens := (s.party x).opens + 1 } with
      opened := s.opened ++ [(⟨x, (s.party x).opens⟩, (((s.party x).ep.managers i).allocID (odd keys x)).1)] } := by
  obtain ⟨hpmap, hnext⟩ := h.manager_of_opening (List.mem_of_getElem? hj)
  obtain ⟨hid, hnext', hmstreams⟩ := Manager.allocID_eq (odd_le keys x) hlt hnext
  have hle : (s.party x).opens ≤ (s.party x).opens + 1 := Nat.le_succ _
  have hnew : ∀ p : Party, p.opens = (s.party x).opens + 1 →
      Valid keys (s.setParty x p) (((s.party x).ep.managers i).allocID (odd keys x)).1 ⟨x, (s.party x).opens⟩ := by
    intro p hp
    refine ⟨hid, ?_⟩
    show (s.party x).opens < ((s.setParty x p).party x).opens
    rw [s.party_setParty_self]
    omega
  have hset := h.setParty (x := x) (p := { s.party x with
      ep := (s.party x).ep.openStream i (odd keys x) ⟨x, (s.party x).opens⟩
      opening := (s.party x).opening.eraseIdx j
      opens := (s.party x).opens + 1 }) hle ?_ ⟨?_, ?_⟩ ?_
    fun sid c hc => (h.resetting x sid c hc).setParty hle
  · refine { hset with opened := ?_, calls := ?_ }
    · intro c sid hc
      rcases List.mem_append.1 hc with hold | hmem
      · exact hset.opened c sid hold
      · cases List.mem_singleton.1 hmem
        exact hnew _ rfl
    · rw [List.map_append, List.map_singleton, List.nodup_append]
      refine ⟨h.calls, List.pairwise_singleton _ _, ?_⟩
      rintro c hc c' hc' rfl
      obtain ⟨⟨c₀, sid⟩, hmem, rfl⟩ := List.mem_map.1 hc
      obtain rfl : c₀ = ⟨x, (s.party x).opens⟩ := List.mem_singleton.1 hc'
      exact absurd (h.opened _ sid hmem).2 (Nat.lt_irrefl _)
  · exact (h.wf x).addStream i _ (newStream _ _) hmstreams
  · intro hnone
    simp [Endpoint.counter, Endpoint.openStream, Endpoint.addStream, Endpoint.setManager, hpmap] at hnone
  · intro i' n hi'
    simp only [Endpoint.counter, Endpoint.openStream, Endpoint.addStream, Endpoint.setManager, hpmap, Option.map_some,
      Function.update_self, Manager.set, Option.some.injEq, Prod.mk.injEq] at hi'
    obtain ⟨rfl, rfl⟩ := hi'
    refine ⟨hnext', fun j' hj' => ?_⟩
    have hsome : (s.party x).ep.counter = some (i, ((s.party x).ep.managers i).nextID) := by
      rw [Endpoint.counter, hpmap]
      rfl
    exact ((h.counts x).used _ _ hsome).2 j' (List.mem_of_mem_eraseIdx hj')
  · intro k sid c hk
    by_cases hmade : k = (s.party x).ep.made
    · subst hmade
      have hself := Endpoint.ident_addStream_self
        ((s.party x).ep.setManager i ((((s.party x).ep.managers i).allocID (odd keys x)).2.set
          (((s.party x).ep.managers i).allocID (odd keys x)).1 (some (s.party x).ep.made)))
        (newStream (((s.party x).ep.managers i).allocID (odd keys x)).1 (⟨x, (s.party x).opens⟩ : Call))
      have heq := hk.symm.trans hself
      obtain ⟨rfl, rfl⟩ := Prod.mk.inj (Option.some.inj heq)
      exact hnew _ rfl
    · refine Valid.setParty (h.streams x k sid c ?_) hle
      rw [← hk]
      exact (Endpoint.ident_addStream_of_ne _ _ hmade).symm

theorem Sound.remove (h : Sound keys s) (x : Side) (sid : Nat) {removing removed : List Nat} :
    Sound keys (s.setParty x { s.party x with
      ep := (s.party x).ep.removeStream sid, removing := removing, removed := removed }) := by
  have hident : ((s.party x).ep.removeStream sid).ident = (s.party x).ep.ident ∧
      ((s.party x).ep.removeStream sid).made = (s.party x).ep.made := by
    unfold Endpoint.removeStream
    split <;> exact ⟨rfl, rfl⟩
  refine h.setStreams rfl rfl (Endpoint.counter_removeStream _ sid) ?_ hident.1 fun _ _ hc => hc
  refine (h.wf x).forget hident.1 hident.2 ?_
  intro i sid' k hk
  unfold Endpoint.removeStream at hk
  split at hk
  · exact hk
  · rename_i i' hi'
    by_cases hi : i = i'
    · subst hi
      by_cases hsid : sid' = sid
      · simp [Endpoint.setManager, Manager.set, hsid] at hk
      · simpa [Endpoint.setManager, Manager.set, hsid] using hk
    · simpa [Endpoint.setManager, hi] using hk

theorem Sound.dispatch (h : Sound keys s) (x : Side) {f : Frame} {c : Call} (hvalid : Valid keys s f.sid c) :
    Sound keys (s.setParty x { s.party x with
      ep := ((s.party x).ep.dispatchStreamFrame f c).1
      resetting := if ((s.party x).ep.dispatchStreamFrame f c).2 then (s.party x).resetting ++ [(f.sid, c)]
        else (s.party x).resetting }) := by
  have hle := Nat.le_refl (s.party x).opens
  have hresetting : ∀ p : Party, p.opens = (s.party x).opens → ∀ sid c',
      (sid, c') ∈ (if ((s.party x).ep.dispatchStreamFrame f c).2 then (s.party x).resetting ++ [(f.sid, c)]
        else (s.party x).resetting) → Valid keys (s.setParty x p) sid c' := by
    intro p hp sid c' hc
    split at hc
    · rcases List.mem_append.1 hc with hold | hnew
      · exact (h.resetting x sid c' hold).setParty (Nat.le_of_eq hp.symm)
      · cases List.mem_singleton.1 hnew
        exact hvalid.setParty (Nat.le_of_eq hp.symm)
    · exact (h.resetting x sid c' hc).setParty (Nat.le_of_eq hp.symm)
  obtain ⟨hmstreams, hmade, -, -, -, -, -⟩ := (s.party x).ep.manager_frame
  have hmident : (s.party x).ep.manager.1.ident = (s.party x).ep.ident := by
    funext k
    simp only [Endpoint.ident, hmstreams]
  -- the manager that a first frame makes starts with a fresh counter
  have hcounts : Counts { s.party x with ep := (s.party x).ep.manager.1 } := by
    rcases (s.party x).ep.counter_manager with ⟨hsame, -⟩ | ⟨hnone, hsome⟩
    · exact ⟨fun hn => (h.counts x).unused (hsame ▸ hn), fun i n hi => (h.counts x).used i n (hsame ▸ hi)⟩
    · obtain ⟨hopens, hopening⟩ := (h.counts x).unused hnone
      refine ⟨fun hn => ?_, fun i n hi => ?_⟩
      · rw [hsome] at hn
        cases hn
      · rw [hsome] at hi
        obtain ⟨-, rfl⟩ := Prod.mk.inj (Option.some.inj hi)
        refine ⟨?_, ?_⟩
        · show streamIDBase = streamIDBase + 2 * (s.party x).opens
          rw [hopens, Nat.mul_zero, Nat.add_zero]
        · intro j hj
          rw [show (s.party x).opening = [] from hopening] at hj
          cases hj
  rcases Endpoint.dispatchStreamFrame_cases (h.wf x) f c with ⟨k, st, -, hst, hdisp⟩ | ⟨-, -, -, hdisp⟩ | ⟨-, hdisp⟩
  · have hident := Endpoint.ident_setStream hst (st.id_dispatch f.flags f.data) (st.label_dispatch f.flags f.data)
    rw [hdisp]
    exact h.setStreams rfl rfl rfl ((h.wf x).forget hident rfl fun _ _ _ hk => hk) hident fun _ _ hc => hc
  · refine h.setParty hle ?_ ⟨?_, ?_⟩ ?_ (hresetting _ rfl)
    · rw [hdisp]
      exact (h.wf x).manager.addStream _ _ (newStream f.sid c) rfl
    · intro hn
      rw [hdisp, Endpoint.counter_offerStream] at hn
      exact hcounts.unused hn
    · intro i n hi
      rw [hdisp, Endpoint.counter_offerStream] at hi
      exact hcounts.used i n hi
    · intro k sid c' hk
      rw [hdisp] at hk
      by_cases hk' : k = (s.party x).ep.manager.1.made
      · subst hk'
        have heq := hk.symm.trans (Endpoint.ident_addStream_self _ (newStream f.sid c))
        obtain ⟨rfl, rfl⟩ := Prod.mk.inj (Option.some.inj heq)
        exact hvalid.setParty hle
      · have hold := (Endpoint.ident_addStream_of_ne _ (newStream f.sid c) hk').symm.trans hk
        have hold' : (s.party x).ep.manager.1.ident k = some (sid, c') := hold
        rw [hmident] at hold'
        exact (h.streams x k sid c' hold').setParty hle
  · refine h.setParty hle ?_ ⟨?_, ?_⟩ ?_ (hresetting _ rfl)
    · rw [hdisp]
      exact (h.wf x).manager
    · intro hn
      rw [hdisp] at hn
      exact hcounts.unused hn
    · intro i n hi
      rw [hdisp] at hi
      exact hcounts.used i n hi
    · intro k sid c' hk
      rw [hdisp, hmident] at hk
      exact (h.streams x k sid c' hk).setParty hle

theorem Sound.gone (h : Sound keys s) (hopens : (s.party x).opens = 0) (hopening : (s.party x).opening = []) :
    Sound keys (s.setParty x { s.party x with ep := (s.party x).ep.peerGone }) := by
  have hle := Nat.le_refl (s.party x).opens
  have hident := (s.party x).ep.ident_peerGone
  have hframe : (s.party x).ep.peerGone.made = (s.party x).ep.made ∧ (s.party x).ep.peerGone.counter = none := by
    unfold Endpoint.peerGone
    split
    · rename_i hnone
      exact ⟨rfl, by rw [Endpoint.counter, hnone]; rfl⟩
    · exact ⟨rfl, rfl⟩
  refine h.setParty hle ?_ ⟨fun _ => ⟨hopens, hopening⟩, fun i n hi => ?_⟩ ?_
    fun sid c hc => (h.resetting x sid c hc).setParty hle
  · refine (h.wf x).forget hident hframe.1 ?_
    intro i sid k hk
    unfold Endpoint.peerGone at hk
    split at hk
    · exact hk
    · rename_i i' hi'
      by_cases hi : i = i'
      · simp [hi] at hk
      · simpa [hi] using hk
  · rw [hframe.2] at hi
    cases hi
  · intro k sid c hk
    rw [hident] at hk
    exact (h.streams x k sid c hk).setParty hle

theorem Sound.next {s s' : Pair} {act : Act} (h : Sound keys s) (hno : s.NoRestart act)
    (hnext : s.next keys act = some s') : Sound keys s' := by
  cases act with
  | openStart x =>
    cases hnext
    exact h.openStart x
  | openAlloc x j =>
    obtain ⟨i, hi, rfl⟩ := Option.map_eq_some_iff.1 hnext
    exact h.openAlloc hi hno
  | write x k chunk sent =>
    simp only [Pair.next] at hnext
    split at hnext
    · cases hnext
    · rename_i st hst
      simp only [Option.ite_none_right_eq_some] at hnext
      obtain ⟨-, hnext⟩ := hnext
      cases hnext
      exact h.send x sent (h.streams x k _ _ (by rw [Endpoint.ident, hst]; rfl))
  | close x k sent =>
    simp only [Pair.next] at hnext
    split at hnext
    · cases hnext
    · rename_i st hst
      split at hnext
      · cases hnext
        exact h
      · cases hnext
        exact h.finish flagCLOSE sent hst rfl rfl
  | reset x k sent =>
    simp only [Pair.next] at hnext
    split at hnext
    · cases hnext
    · rename_i st hst
      cases hnext
      exact h.finish flagRESET sent hst rfl rfl
  | remove x j =>
    obtain ⟨sid, -, rfl⟩ := Option.map_eq_some_iff.1 hnext
    exact h.remove x sid
  | deliver x =>
    simp only [Pair.next] at hnext
    split at hnext
    · cases hnext
    · rename_i f c rest hlink
      cases hnext
      have hvalid := h.frames x f c (hlink ▸ List.mem_cons_self)
      have hset := h.dispatch x hvalid
      refine { hset with frames := ?_, taken := ?_ }
      · intro y f' c' hf
        exact hset.frames y f' c' (mem_link_of_setLink (s := s.setParty x _) hlink hf)
      · intro hkeys c₁ c₂ hc
        simp only at hc
        split at hc
        · rename_i st hst
          rcases List.mem_append.1 hc with hold | hnew
          · exact h.taken hkeys c₁ c₂ hold
          · cases List.mem_singleton.1 hnew
            -- the stream that took the frame has the frame's id, and so its call
            obtain ⟨k, hk, hst⟩ := Option.bind_eq_some_iff.1 hst
            obtain ⟨i, -, hknown⟩ := Option.bind_eq_some_iff.1 hk
            obtain ⟨-, c', hident⟩ := h.wf x i f.sid k hknown
            have hstream := h.streams x k f.sid c' hident
            have hlabel : c' = st.label := by
              rw [Endpoint.ident, hst] at hident
              exact (Prod.mk.inj (Option.some.inj hident)).2.symm
            exact hlabel ▸ hvalid.unique hkeys hstream
        · exact h.taken hkeys c₁ c₂ hc
  | accept x =>
    obtain ⟨e, he, rfl⟩ := Option.map_eq_some_iff.1 hnext
    unfold Endpoint.acceptStream at he
    split at he
    · cases he
    · cases he
      exact h.setStreams rfl rfl rfl (h.wf x) rfl fun _ _ hc => hc
  | sendReset x j sent =>
    obtain ⟨⟨sid, c⟩, hj, rfl⟩ := Option.map_eq_some_iff.1 hnext
    have hset : Sound keys (s.setParty x { s.party x with resetting := (s.party x).resetting.eraseIdx j }) :=
      h.setStreams rfl rfl rfl (h.wf x) rfl fun _ _ hc => List.mem_of_mem_eraseIdx hc
    exact hset.send x sent ((h.resetting x sid c (List.mem_of_getElem? hj)).setParty (Nat.le_refl _))
  | gone x =>
    cases hnext
    exact h.gone hno.1 hno.2

theorem sound_reach (h : (system keys).Reach NoRestart s) : Sound keys s := by
  refine h.invariant (I := Sound keys) ?_ ?_
  · rintro s rfl
    refine ⟨?_, ?_, ?_, ?_, ?_, ?_, List.nodup_nil, ?_⟩
    · rintro x i sid k hk
      cases hk
    · exact fun x => ⟨fun _ => ⟨rfl, rfl⟩, fun i n hi => by cases hi⟩
    · rintro x k sid c hk
      cases hk
    · rintro x f c hf
      cases hf
    · rintro x sid c hc
      cases hc
    · rintro c sid hc
      cases hc
    · rintro - c c' hc
      cases hc
  · intro s act s' _ hs hno hnext
    exact hs.next hno hnext

/-- Without a restart, no two calls, on whichever side, return the same id, and each frame that a known stream took
was written on a stream of the same call. -/
theorem stream_ids_unique (hkeys : keys .a ≠ keys .b) {s : Pair} (h : (system keys).Reach NoRestart s) :
    (s.opened.map (·.2)).Nodup ∧ ∀ c c', (c, c') ∈ s.taken → c = c' := by
  have hsound := sound_reach h
  refine ⟨?_, hsound.taken hkeys⟩
  have hcalls := hsound.calls
  rw [List.Nodup, List.pairwise_map] at hcalls ⊢
  refine hcalls.imp_of_mem ?_
  rintro ⟨c, sid⟩ ⟨c', sid'⟩ hc hc' hne rfl
  exact hne ((hsound.opened c sid hc).unique hkeys (hsound.opened c' sid hc'))

def sampleKeys : Side → Pubkey
  | .a => Endpoint.zeroKey
  | .b => Endpoint.oneKey

/-- A call of `OpenStream` on a side, from start to end. -/
def openOn (x : Side) : List Act := [.openStart x, .openAlloc x 0]

/-- Both sides open a stream, and two bytes go over the first. -/
def openBoth : List Act :=
  openOn .a ++ openOn .b ++ [.write .a 0 [7] true, .deliver .b, .write .a 0 [8] true, .deliver .b]

theorem stream_ids_unique_two :
    ∃ s, (system sampleKeys).Reach NoRestart s ∧ s.opened.map (·.2) = [1001, 1000] ∧ s.taken = [(⟨.a, 0⟩, ⟨.a, 0⟩)] ∧
      (s.opened.map (·.2)).Nodup := by
  have hreach : (system sampleKeys).Reach NoRestart _ :=
    ⟨_, rfl, exec_steps_getD (show (exec (next sampleKeys) Pair.start openBoth).isSome = true by decide +kernel)
      (by decide +kernel)⟩
  exact ⟨_, hreach, by decide +kernel, by decide +kernel, (stream_ids_unique (by decide) hreach).1⟩

def openAfterGone : List Act :=
  openOn .a ++ [.write .a 0 [7] true, .deliver .b, .gone .a] ++ openOn .a ++ [.write .a 1 [8] true, .deliver .b]

/-- The two calls return one id, and a frame of the second goes to the stream of the first. -/
theorem stream_id_reused :
    ∃ s, (system sampleKeys).Reach anyStep s ∧ s.opened = [(⟨.a, 0⟩, 1001), (⟨.a, 1⟩, 1001)] ∧
      s.taken = [(⟨.a, 1⟩, ⟨.a, 0⟩)] := by
  have hreach : (system sampleKeys).Reach anyStep _ :=
    ⟨_, rfl, exec_steps_getD (show (exec (next sampleKeys) Pair.start openAfterGone).isSome = true by decide +kernel)
      (execMeets_anyStep _ _ _)⟩
  exact ⟨_, hreach, by decide +kernel, by decide +kernel⟩

end Pair

end Libp2px.Iroh
