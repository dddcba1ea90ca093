import Libp2px.Iroh.Pair

/-!
# Accepted streams were opened

Which streams `AcceptStream` returns, in runs without a notice that the peer is gone.  A frame with data for an id that
a side does not know makes a new incoming stream, also when that side knew the id and has removed it in `Close` or
`Reset`; then the stream belongs to a call of `OpenStream` that has been accepted before, or that this side made
itself.  As long as no such frame is delivered, the accepted streams belong to different calls of the other side.
-/

namespace Libp2px.Iroh

open Transition

variable {keys : Side → Pubkey}

def Endpoint.offered {γ : Type} (e : Endpoint γ) : List Nat := e.accepted ++ e.acceptCh

def Party.Met (p : Party) (sid : Nat) : Prop := (p.ep.lookup sid).isSome = true ∨ sid ∈ p.removed

/-- A side has met the ids that it gave and those of the streams that it offered, which belong to different calls. -/
structure Tidy (keys : Side → Pubkey) (x : Side) (p : Party) : Prop where
  own : ∀ k, k < p.opens → p.Met (streamID (Pair.odd keys x) k)
  offered : ∀ h ∈ p.ep.offered, h < p.ep.made ∧
    ∃ sid c, p.ep.ident h = some (sid, c) ∧ c.side = x.other ∧ p.Met sid
  nodup : (p.ep.offered.map p.ep.ident).Nodup

theorem Tidy.mono {x : Side} {p p' : Party} (h : Tidy keys x p) (hopens : p'.opens = p.opens)
    (hmade : p.ep.made ≤ p'.ep.made) (hident : ∀ k < p.ep.made, p'.ep.ident k = p.ep.ident k)
    (hoffered : p'.ep.offered = p.ep.offered) (hmet : ∀ sid, p.Met sid → p'.Met sid) : Tidy keys x p' where
  own k hk := hmet _ (h.own k (hopens ▸ hk))
  offered k hk := by
    obtain ⟨hlt, sid, c, hc, hside, hm⟩ := h.offered k (hoffered ▸ hk)
    exact ⟨by omega, sid, c, (hident k hlt).trans hc, hside, hmet sid hm⟩
  nodup := by
    rw [hoffered, List.map_congr_left fun k hk => hident k (h.offered k hk).1]
    exact h.nodup

theorem Tidy.offer {x : Side} {p p' : Party} (h : Tidy keys x p) {sid : Nat} {c : Call} (hopens : p'.opens = p.opens)
    (hmade : p'.ep.made = p.ep.made + 1) (hident : ∀ k < p.ep.made, p'.ep.ident k = p.ep.ident k)
    (hnew : p'.ep.ident p.ep.made = some (sid, c)) (hoffered : p'.ep.offered = p.ep.offered ++ [p.ep.made])
    (hmet : ∀ sid', p.Met sid' ∨ sid' = sid → p'.Met sid') (hside : c.side = x.other) (hnot : ¬p.Met sid) :
    Tidy keys x p' where
  own k hk := hmet _ (.inl (h.own k (hopens ▸ hk)))
  offered k hk := by
    rw [hoffered] at hk
    rcases List.mem_append.1 hk with hold | hlast
    · obtain ⟨hlt, sid', c', hc', hside', hm⟩ := h.offered k hold
      exact ⟨by omega, sid', c', (hident k hlt).trans hc', hside', hmet sid' (.inl hm)⟩
    · rw [List.mem_singleton.1 hlast]
      exact ⟨by omega, sid, c, hnew, hside, hmet sid (.inr rfl)⟩
  nodup := by
    rw [hoffered, List.map_append, List.map_singleton, List.nodup_append,
      List.map_congr_left fun k hk => hident k (h.offered k hk).1, hnew]
    refine ⟨h.nodup, List.pairwise_singleton _ _, ?_⟩
    -- a stream that was offered before has an id that was met
    rintro i hi i' hi' rfl
    obtain ⟨k, hk, hki⟩ := List.mem_map.1 hi
    obtain ⟨-, sid', c', hc', -, hm⟩ := h.offered k hk
    rw [hc', List.mem_singleton.1 hi'] at hki
    obtain ⟨rfl, -⟩ := Prod.mk.inj (Option.some.inj hki)
    exact hnot hm

/-! ### The steps of an endpoint -/

namespace Endpoint

variable {γ : Type}

theorem ident_of_streams {e e' : Endpoint γ} (h : e'.streams = e.streams) : e'.ident = e.ident := by
  funext k
  simp only [ident, h]

variable {e : Endpoint γ}

theorem lookup_removeStream {sid sid' : Nat} (hne : sid' ≠ sid) :
    (e.removeStream sid).lookup sid' = e.lookup sid' := by
  unfold removeStream
  split
  · rfl
  · rename_i i hi
    simp [lookup, setManager, hi, Manager.set, hne]

theorem removeStream_frame (e : Endpoint γ) (sid : Nat) :
    (e.removeStream sid).streams = e.streams ∧ (e.removeStream sid).made = e.made ∧
      (e.removeStream sid).offered = e.offered := by
  unfold removeStream
  split <;> exact ⟨rfl, rfl, rfl⟩

theorem lookup_addStream {i : Nat} {m : Manager} (sid : Nat) (st : Stream γ) (hi : e.pmap = some i)
    (hm : m.streams = (e.managers i).streams) (sid' : Nat) :
    ((e.setManager i (m.set sid (some e.made))).addStream st).lookup sid' =
      if sid' = sid then some e.made else e.lookup sid' := by
  by_cases hsid : sid' = sid
  · simp [lookup, addStream, setManager, hi, Manager.set, hsid]
  · simp [lookup, addStream, setManager, hi, Manager.set, hsid, hm]

theorem lookup_openStream {i : Nat} (hi : e.pmap = some i) (odd : Nat) (c : γ) (sid : Nat) :
    (e.openStream i odd c).lookup sid =
      if sid = ((e.managers i).allocID odd).1 then some e.made else e.lookup sid :=
  lookup_addStream (m := ((e.managers i).allocID odd).2) _ (newStream _ c) hi rfl sid

theorem lookup_offerStream {i : Nat} (hi : e.pmap = some i) (new : Nat) (c : γ) (sid : Nat) :
    (e.offerStream i new c).lookup sid = if sid = new then some e.made else e.lookup sid :=
  lookup_addStream new (newStream new c) hi rfl sid

end Endpoint

theorem Tidy.manager {x : Side} {p p' : Party} (h : Tidy keys x p) (hep : p'.ep = p.ep.manager.1)
    (hopens : p'.opens = p.opens) (hremoved : p'.removed = p.removed) : Tidy keys x p' := by
  obtain ⟨hstreams, hmade, hqueue, haccepted, -, hlookup, -⟩ := p.ep.manager_frame
  have hident := Endpoint.ident_of_streams hstreams
  refine h.mono hopens ?_ ?_ ?_ ?_
  · rw [hep, hmade]
  · intro k _
    rw [hep, hident]
  · rw [hep, Endpoint.offered, hqueue, haccepted]
    rfl
  · intro sid hm
    rwa [Party.Met, hep, hlookup, hremoved]

/-! ### Runs -/

namespace Pair

/-- No peer is reported gone, a side makes fewer than `2 ^ 62` calls of `OpenStream`, and no data for an id that the
side has removed finds room in the accept queue. -/
def NoLateData (s : Pair) : Act → Prop
  | .openAlloc x _ => (s.party x).opens < 2 ^ 62
  | .gone _ => False
  | .deliver x => ∀ e ∈ (s.link x).head?, e.1.flags = flagDATA → (s.party x).ep.lookup e.1.sid = none →
      (s.party x).ep.acceptCh.length < acceptCap → e.1.sid ∉ (s.party x).removed
  | _ => True

instance decidableNoLateData (s : Pair) : (act : Act) → Decidable (s.NoLateData act)
  | .openAlloc x _ => inferInstanceAs (Decidable ((s.party x).opens < 2 ^ 62))
  | .gone _ => inferInstanceAs (Decidable False)
  | .deliver x => inferInstanceAs (Decidable (∀ e ∈ (s.link x).head?, e.1.flags = flagDATA →
      (s.party x).ep.lookup e.1.sid = none → (s.party x).ep.acceptCh.length < acceptCap →
        e.1.sid ∉ (s.party x).removed))
  | .openStart _ | .write .. | .close .. | .reset .. | .remove .. | .accept _ | .sendReset .. =>
    inferInstanceAs (Decidable True)

variable {s : Pair}

theorem NoLateData.noRestart {act : Act} (h : s.NoLateData act) : s.NoRestart act := by
  cases act with
  | openAlloc x j => exact h
  | gone x => exact h.elim
  | _ => trivial

theorem tidy_setParty (h : ∀ y, Tidy keys y (s.party y)) {x : Side} {p : Party} (hp : Tidy keys x p) :
    ∀ y, Tidy keys y ((s.setParty x p).party y) := by
  intro y
  by_cases hy : y = x
  · subst hy
    rwa [s.party_setParty_self]
  · rw [s.party_setParty_of_ne p hy]
    exact h y

theorem tidy_finish (h : ∀ y, Tidy keys y (s.party y)) {x : Side} {k : Nat} {st st' : Stream Call}
    (flags : Byte) (sent : Bool) (hst : (s.party x).ep.streams k = some st) (hid : st'.id = st.id)
    (hlabel : st'.label = st.label) : ∀ y, Tidy keys y ((s.finish x k st' flags sent).party y) := by
  unfold finish
  rw [(party_send _ x sent _ _).1]
  have hident := Endpoint.ident_setStream hst hid hlabel
  exact tidy_setParty h ((h x).mono rfl (Nat.le_refl _) (fun k _ => congrFun hident k) rfl fun _ hm => hm)

theorem tidy_openAlloc (hs : Sound keys s) (h : ∀ y, Tidy keys y (s.party y)) {x : Side} {j i : Nat}
    (hj : (s.party x).opening[j]? = some i) (hlt : (s.party x).opens < 2 ^ 62) :
    Tidy keys x { s.party x with
      ep := (s.party x).ep.openStream i (odd keys x) ⟨x, (s.party x).opens⟩
      opening := (s.party x).opening.eraseIdx j
      opens := (s.party x).opens + 1 } := by
  obtain ⟨hpmap, hnext⟩ := hs.manager_of_opening (List.mem_of_getElem? hj)
  have hid := (Manager.allocID_eq (odd_le keys x) hlt hnext).1
  have hmet : ∀ sid, (s.party x).Met sid ∨ sid = streamID (odd keys x) (s.party x).opens →
      Party.Met { s.party x with
        ep := (s.party x).ep.openStream i (odd keys x) ⟨x, (s.party x).opens⟩
        opening := (s.party x).opening.eraseIdx j
        opens := (s.party x).opens + 1 } sid := by
    intro sid hsid
    rw [Party.Met, Endpoint.lookup_openStream hpmap, hid]
    rcases hsid with (hsome | hrem) | rfl
    · exact .inl (by split <;> simp [hsome])
    · exact .inr hrem
    · exact .inl (by simp)
  -- all but the count of calls stays
  have hkeep : Tidy keys x { s.party x with
      ep := (s.party x).ep.openStream i (odd keys x) ⟨x, (s.party x).opens⟩
      opening := (s.party x).opening.eraseIdx j } := (h x).mono rfl (Nat.le_succ _)
    (fun k hk => Endpoint.ident_addStream_of_ne _ _ (Nat.ne_of_lt hk)) rfl fun sid hm => hmet sid (.inl hm)
  refine ⟨fun k hk => ?_, hkeep.offered, hkeep.nodup⟩
  rcases Nat.lt_succ_iff_lt_or_eq.1 hk with hold | rfl
  · exact hmet _ (.inl ((h x).own k hold))
  · exact hmet _ (.inr rfl)

theorem tidy_dispatch (hs : Sound keys s) (h : ∀ y, Tidy keys y (s.party y)) {x : Side} {f : Frame}
    {c : Call} {resetting : List (Nat × Call)} (hvalid : Valid keys s f.sid c)
    (hnot : f.flags = flagDATA → (s.party x).ep.lookup f.sid = none → (s.party x).ep.acceptCh.length < acceptCap →
      f.sid ∉ (s.party x).removed) :
    Tidy keys x { s.party x with ep := ((s.party x).ep.dispatchStreamFrame f c).1, resetting := resetting } := by
  obtain ⟨hstreams, hmade, hqueue, haccepted, hpmap, hlookup, -⟩ := (s.party x).ep.manager_frame
  have hident := Endpoint.ident_of_streams hstreams
  rcases Endpoint.dispatchStreamFrame_cases (hs.wf x) f c with
    ⟨k, st, -, hst, hdisp⟩ | ⟨hnone, hdata, hroom, hdisp⟩ | ⟨-, hdisp⟩
  · have hident' := Endpoint.ident_setStream hst (st.id_dispatch f.flags f.data) (st.label_dispatch f.flags f.data)
    rw [hdisp]
    exact (h x).mono rfl (Nat.le_refl _) (fun k _ => congrFun hident' k) rfl fun _ hm => hm
  · have hnew : ¬(s.party x).Met f.sid := by
      rintro (hsome | hrem)
      · rw [hnone] at hsome
        cases hsome
      · exact hnot hdata hnone hroom hrem
    -- this side has met all ids of its own, so the frame is of a stream of the other side
    have hside : c.side = x.other := by
      obtain ⟨side, k⟩ := c
      by_contra hne
      obtain rfl : side = x := by
        cases side <;> cases x <;> first | rfl | exact absurd rfl hne
      exact hnew (hvalid.1 ▸ (h side).own k hvalid.2)
    rw [hdisp]
    refine (h x).offer rfl ?_ ?_ ?_ ?_ ?_ hside hnew
    · exact congrArg (· + 1) hmade
    · intro k hk
      rw [← hident]
      exact Endpoint.ident_addStream_of_ne _ (newStream f.sid c) (by rw [← hmade] at hk; exact Nat.ne_of_lt hk)
    · rw [← hmade]
      exact Endpoint.ident_addStream_self _ (newStream f.sid c)
    · simp [Endpoint.offered, Endpoint.offerStream, Endpoint.addStream, Endpoint.setManager, hqueue, haccepted, hmade]
    · intro sid hsid
      rw [Party.Met, Endpoint.lookup_offerStream hpmap, hlookup]
      rcases hsid with (hsome | hrem) | rfl
      · exact .inl (by split <;> simp [hsome])
      · exact .inr hrem
      · exact .inl (by simp)
  · exact (h x).manager hdisp rfl rfl

theorem tidy_next {s s' : Pair} {act : Act} (hs : Sound keys s) (h : ∀ y, Tidy keys y (s.party y))
    (hno : s.NoLateData act) (hnext : s.next keys act = some s') : ∀ y, Tidy keys y (s'.party y) := by
  cases act with
  | openStart x =>
    cases hnext
    exact tidy_setParty h ((h x).manager rfl rfl rfl)
  | openAlloc x j =>
    obtain ⟨i, hi, rfl⟩ := Option.map_eq_some_iff.1 hnext
    exact tidy_setParty h (tidy_openAlloc hs h hi hno)
  | write x k chunk sent =>
    simp only [Pair.next] at hnext
    split at hnext
    · cases hnext
    · simp only [Option.ite_none_right_eq_some] at hnext
      obtain ⟨-, hnext⟩ := hnext
      cases hnext
      rwa [(party_send s x sent _ _).1]
  | close x k sent =>
    simp only [Pair.next] at hnext
    split at hnext
    · cases hnext
    · rename_i st hst
      split at hnext
      · cases hnext
        exact h
      · cases hnext
        exact tidy_finish h flagCLOSE sent hst rfl rfl
  | reset x k sent =>
    simp only [Pair.next] at hnext
    split at hnext
    · cases hnext
    · rename_i st hst
      cases hnext
      exact tidy_finish h flagRESET sent hst rfl rfl
  | remove x j =>
    obtain ⟨sid, -, rfl⟩ := Option.map_eq_some_iff.1 hnext
    obtain ⟨hstreams, hmade, hoffered⟩ := (s.party x).ep.removeStream_frame sid
    have hident := Endpoint.ident_of_streams hstreams
    refine tidy_setParty h
      ((h x).mono rfl (Nat.le_of_eq hmade.symm) (fun k _ => congrFun hident k) hoffered fun sid' hm => ?_)
    by_cases hsid : sid' = sid
    · exact .inr (hsid ▸ List.mem_cons_self)
    · rcases hm with hsome | hrem
      · exact .inl (by rwa [Endpoint.lookup_removeStream hsid])
      · exact .inr (List.mem_cons_of_mem _ hrem)
  | deliver x =>
    simp only [Pair.next] at hnext
    split at hnext
    · cases hnext
    · rename_i f c rest hlink
      cases hnext
      have hvalid := hs.frames x f c (hlink ▸ List.mem_cons_self)
      exact tidy_setParty h (tidy_dispatch hs h hvalid (hno (f, c) (by rw [hlink]; rfl)))
  | accept x =>
    obtain ⟨e, he, rfl⟩ := Option.map_eq_some_iff.1 hnext
    unfold Endpoint.acceptStream at he
    split at he
    · cases he
    · rename_i k rest hqueue
      cases he
      refine tidy_setParty h ((h x).mono rfl (Nat.le_refl _) (fun _ _ => rfl) ?_ fun _ hm => hm)
      simp only [Endpoint.offered, hqueue, List.append_assoc, List.singleton_append]
  | sendReset x j sent =>
    obtain ⟨⟨sid, c⟩, -, rfl⟩ := Option.map_eq_some_iff.1 hnext
    simp only [(party_send _ x sent _ c).1]
    exact tidy_setParty h ((h x).mono rfl (Nat.le_refl _) (fun _ _ => rfl) rfl fun _ hm => hm)
  | gone x => exact hno.elim

theorem tidy_reach (h : (system keys).Reach NoLateData s) :
    Sound keys s ∧ ∀ y, Tidy keys y (s.party y) := by
  refine h.invariant (I := fun s => Sound keys s ∧ ∀ y, Tidy keys y (s.party y)) ?_ ?_
  · rintro s rfl
    refine ⟨sound_reach (System.Reach.init rfl), fun y => ⟨?_, ?_, List.nodup_nil⟩⟩
    · intro k hk
      cases hk
    · intro k hk
      cases hk
  · rintro s act s' - ⟨hs, htidy⟩ hno hnext
    exact ⟨hs.next hno.noRestart hnext, tidy_next hs htidy hno hnext⟩

def acceptedCalls (s : Pair) (x : Side) : List (Option Call) :=
  (s.party x).ep.accepted.map fun k => ((s.party x).ep.streams k).map (·.label)

/-- Without late data, the streams that `AcceptStream` returns on a side belong to different calls of `OpenStream` on
the other side. -/
theorem accepted_were_opened (h : (system keys).Reach NoLateData s) (x : Side) :
    (s.acceptedCalls x).Nodup ∧
      ∀ o ∈ s.acceptedCalls x, ∃ c, o = some c ∧ c.side = x.other ∧ c.k < (s.party x.other).opens := by
  obtain ⟨hs, htidy⟩ := tidy_reach h
  have hstream : ∀ k ∈ (s.party x).ep.accepted, ∃ st, (s.party x).ep.streams k = some st ∧
      st.label.side = x.other ∧ Valid keys s st.id st.label := by
    intro k hk
    obtain ⟨-, sid, c, hc, hside, -⟩ := (htidy x).offered k (List.mem_append_left _ hk)
    obtain ⟨st, hst, hident⟩ := Option.map_eq_some_iff.1 hc
    obtain ⟨rfl, rfl⟩ := Prod.mk.inj hident
    exact ⟨st, hst, hside, hs.streams x k _ _ hc⟩
  constructor
  · have hnodup := (htidy x).nodup
    rw [Endpoint.offered, List.map_append] at hnodup
    have haccepted := hnodup.sublist (List.sublist_append_left _ _)
    rw [acceptedCalls, List.Nodup, List.pairwise_map]
    rw [List.Nodup, List.pairwise_map] at haccepted
    refine haccepted.imp_of_mem ?_
    intro k k' hk hk' hne heq
    -- streams of one call have the id of the call
    obtain ⟨st, hst, -, hvalid⟩ := hstream k hk
    obtain ⟨st', hst', -, hvalid'⟩ := hstream k' hk'
    rw [hst, hst'] at heq
    have hlabel : st.label = st'.label := Option.some.inj heq
    apply hne
    rw [Endpoint.ident, Endpoint.ident, hst, hst', Option.map_some, Option.map_some, hvalid.1, hvalid'.1, hlabel]
  · intro o ho
    obtain ⟨k, hk, rfl⟩ := List.mem_map.1 ho
    obtain ⟨st, hst, hside, hvalid⟩ := hstream k hk
    exact ⟨st.label, by rw [hst]; rfl, hside, hside ▸ hvalid.2⟩

/-- One side opens a stream and writes on it, and the other side accepts it. -/
def acceptOne : List Act := openOn .a ++ [.write .a 0 [7] true, .deliver .b, .accept .b]

theorem accepted_were_opened_one :
    ∃ s, (system sampleKeys).Reach NoLateData s ∧ s.acceptedCalls .b = [some ⟨.a, 0⟩] ∧ (s.acceptedCalls .b).Nodup := by
  have hreach : (system sampleKeys).Reach NoLateData _ :=
    ⟨_, rfl, exec_steps_getD (show (exec (next sampleKeys) Pair.start acceptOne).isSome = true by decide +kernel)
      (by decide +kernel)⟩
  exact ⟨_, hreach, by decide +kernel, (accepted_were_opened hreach .b).1⟩

def closeThenDeliver : List Act :=
  openOn .a ++ [.write .a 0 [7] true, .write .a 0 [8] true, .deliver .b, .accept .b, .close .b 0 true, .remove .b 0,
    .deliver .b, .accept .b]

theorem accepted_twice :
    ∃ s, (system sampleKeys).Reach anyStep s ∧ (s.party .a).opens = 1 ∧
      s.acceptedCalls .b = [some ⟨.a, 0⟩, some ⟨.a, 0⟩] := by
  have hreach : (system sampleKeys).Reach anyStep _ :=
    ⟨_, rfl, exec_steps_getD (show (exec (next sampleKeys) Pair.start closeThenDeliver).isSome = true by decide +kernel)
      (execMeets_anyStep _ _ _)⟩
  exact ⟨_, hreach, by decide +kernel, by decide +kernel⟩

end Pair

end Libp2px.Iroh
