import Libp2px.Iroh.Calls

/-!
# What `Close` releases

The streams of an endpoint with the calls on each of them: `OpenStream` and frames of unknown ids make streams, frames are
dispatched to them, and calls of `Read`, `Write` and `Close` are made on them, in any interleaving.  A call of `Close` that
finds the flag set returns at once; another one sends its frame, takes the stream out of the map of its
`peerStreamManager` and returns.

A CLOSE of the peer sets the same flag, so that the `Close` after it leaves the stream in the map; and `Close` does not wake
the calls of `Read` that wait.  `close_releases_iff` says that nothing else can go wrong.
-/

namespace Libp2px.Iroh

open Transition

variable {γ : Type}

/-- The step that ends a call of `Close` and takes the stream out of the map. -/
def StreamAct.removes : StreamAct → Bool
  | closeReturns _ => true
  | _ => false

structure Station (γ : Type) where
  ep : Endpoint γ
  calls : Nat → Calls

/-- `OpenStream`; a frame for an unknown id; `AcceptStream`; and a step of the stream with a handle, which may get
frames also after it has left the map, if they were looked up before. -/
inductive StationAct (γ : Type)
  | openStream (label : γ)
  | newFrame (f : Frame) (label : γ)
  | accept
  | on (h : Nat) (a : StreamAct)

def Endpoint.Knows (e : Endpoint γ) (h : Nat) : Prop := ∃ i sid, (e.managers i).streams sid = some h

namespace Station

def start : Station γ := ⟨.start, fun _ => .start⟩

def update (e : Endpoint γ) (h : Nat) (st : Stream γ) (a : StreamAct) : Endpoint γ :=
  if a.removes then (e.setStream h st).removeStream st.id else e.setStream h st

def next (odd : Nat) (s : Station γ) : StationAct γ → Option (Station γ)
  | .openStream label =>
    let (e, i) := s.ep.manager
    some { s with ep := e.openStream i odd label }
  | .newFrame f label =>
    if s.ep.lookup f.sid = none then some { s with ep := (s.ep.dispatchStreamFrame f label).1 } else none
  | .accept => s.ep.acceptStream.map fun e => { s with ep := e }
  | .on h a =>
    (s.ep.streams h).bind fun st =>
      ((s.calls h).next st a).map fun r => ⟨update s.ep h r.1 a, Function.update s.calls h r.2⟩

/-- A stream on which a call of `Close` has returned is in no map, and no call of `Read` waits on it. -/
def Released (s : Station γ) : Prop :=
  ∀ h, (s.calls h).released = true → ¬s.ep.Knows h ∧ (s.calls h).waiting = []

/-- A `Close` that finds the flag set finds the stream out of the map when it returns, and no `Read` waits. -/
def Releases (s : Station γ) : StationAct γ → Prop
  | .on h (.call .close) =>
    ∀ st, s.ep.streams h = some st → st.closed = true → ¬s.ep.Knows h ∧ (s.calls h).waiting = []
  | .on h (.closeReturns _) => (s.calls h).closing = true → (s.calls h).waiting = []
  | _ => True

/-! ### Steps of one stream -/

end Station

namespace Calls

variable {st : Stream γ} {c : Calls}

variable {r : Stream γ × Calls}

theorem next_keeps {a : StreamAct} {r : Stream γ × Calls} (hn : c.next st a = some r) :
    r.1.id = st.id ∧ r.1.label = st.label ∧ (st.closed = true → c.waiting = [] → r.2.waiting = []) ∧
      (a.removes = false → a ≠ .call .close → r.2.released = c.released) := by
  rcases next_cases hn with ⟨flags, data, rfl, rfl⟩ | ⟨b, rfl, rfl⟩ | ⟨rfl, rfl⟩ | ⟨n, woken, -, rfl⟩ |
    ⟨j, w, sent, rfl, -, rfl⟩ | ⟨sent, rfl, -, rfl⟩
  · obtain ⟨waiting, woken, heq, hwaiting⟩ := dispatch_frame st c flags data
    rw [heq]
    refine ⟨st.id_dispatch flags data, st.label_dispatch flags data, fun _ hw => ?_, fun _ _ => rfl⟩
    rcases hwaiting with hnil | ⟨-, hsame⟩
    · exact hnil
    · exact hsame.trans hw
  · refine ⟨rfl, rfl, ?_⟩
    unfold Calls.write
    simp only
    split <;> exact ⟨fun _ hw => hw, fun _ _ => rfl⟩
  · unfold Calls.close
    simp only
    split <;> exact ⟨rfl, rfl, fun _ hw => hw, fun _ hne => absurd rfl hne⟩
  · unfold readRound
    rcases st.read_cases n with ⟨-, heq⟩ | ⟨-, ⟨-, heq⟩ | ⟨-, -, heq⟩ | ⟨-, hopen, heq⟩⟩
    · simp [heq, add]
    · simp [heq, add]
    · simp [heq, add]
    · simp [heq, hopen]
  · refine ⟨rfl, rfl, ?_⟩
    unfold Calls.send
    simp only
    split_ifs <;> exact ⟨fun _ hw => hw, fun _ _ => rfl⟩
  · cases sent <;> exact ⟨rfl, rfl, fun _ hw => hw, fun hno => by cases hno⟩

end Calls

/-! ### The maps -/

namespace Endpoint

variable {e : Endpoint γ}

theorem knows_manager {k : Nat} (h : e.manager.1.Knows k) : e.Knows k := by
  obtain ⟨-, -, -, -, -, -, hmgr⟩ := e.manager_frame
  obtain ⟨i, sid, hk⟩ := h
  rcases hmgr i with hsame | hnew
  · exact ⟨i, sid, hsame ▸ hk⟩
  · rw [hnew] at hk
    cases hk

theorem knows_addStream {i sid k : Nat} {m : Manager} {st : Stream γ} (hm : m.streams = (e.managers i).streams)
    (h : ((e.setManager i (m.set sid (some e.made))).addStream st).Knows k) : k = e.made ∨ e.Knows k := by
  obtain ⟨i', sid', hk⟩ := h
  by_cases hi : i' = i
  · subst hi
    by_cases hsid : sid' = sid
    · left
      simpa [addStream, setManager, Manager.set, hsid, eq_comm] using hk
    · right
      exact ⟨i', sid', by simpa [addStream, setManager, Manager.set, hsid, hm] using hk⟩
  · right
    exact ⟨i', sid', by simpa [addStream, setManager, hi] using hk⟩

end Endpoint

namespace Station

/-- Streams are in the map of the manager in `pmap` only, under their id, and those not made have no calls. -/
structure Inv (s : Station γ) : Prop where
  wf : s.ep.WF
  pmap : ∀ i sid k, (s.ep.managers i).streams sid = some k → s.ep.pmap = some i
  unmade : ∀ k, s.ep.made ≤ k → s.ep.streams k = none
  fresh : ∀ k, s.ep.streams k = none → s.calls k = .start
  told : ∀ k st, s.ep.streams k = some st → Calls.Told st (s.calls k)

theorem inv_start : (start : Station γ).Inv where
  wf := by
    intro i sid h hk
    cases hk
  pmap := by
    intro i sid k hk
    cases hk
  unmade := fun _ _ => rfl
  fresh := fun _ _ => rfl
  told := by
    intro k st hst
    cases hst

theorem Inv.manager {s : Station γ} (h : s.Inv) : Inv { s with ep := s.ep.manager.1 } := by
  obtain ⟨hstreams, hmade, -, -, -, -, hmgr⟩ := s.ep.manager_frame
  refine ⟨h.wf.manager, ?_, ?_, ?_, ?_⟩
  · intro i sid k hk
    simp only at hk ⊢
    rcases hmgr i with hsame | hnew
    · rw [hsame] at hk
      have hi := h.pmap i sid k hk
      simp only [Endpoint.manager, hi]
    · rw [hnew] at hk
      cases hk
  · intro k hk
    simp only [hstreams, hmade] at hk ⊢
    exact h.unmade k hk
  · intro k hk
    simp only [hstreams] at hk
    exact h.fresh k hk
  · intro k st hst
    simp only [hstreams] at hst
    exact h.told k st hst

theorem Inv.addStream {s : Station γ} (h : s.Inv) {i : Nat} (hi : s.ep.pmap = some i) {m : Manager}
    (hm : m.streams = (s.ep.managers i).streams) (sid : Nat) (label : γ) :
    Inv { s with ep := (s.ep.setManager i (m.set sid (some s.ep.made))).addStream (newStream sid label) } := by
  refine ⟨h.wf.addStream i m (newStream sid label) hm, ?_, ?_, ?_, ?_⟩
  · intro i' sid' k hk
    by_cases hne : i' = i
    · subst hne
      exact hi
    · exact h.pmap i' sid' k (by simpa [Endpoint.addStream, Endpoint.setManager, hne] using hk)
  · intro k hk
    have hlt : s.ep.made < k := hk
    rw [← h.unmade k (Nat.le_of_lt hlt)]
    exact Function.update_of_ne (Nat.ne_of_gt hlt) ..
  · intro k hk
    by_cases hne : k = s.ep.made
    · subst hne
      exact h.fresh _ (h.unmade _ (Nat.le_refl _))
    · exact h.fresh k (by simpa [Endpoint.addStream, Endpoint.setManager, hne] using hk)
  · intro k st hst
    by_cases hne : k = s.ep.made
    · subst hne
      have hnew : newStream sid label = st := by
        simpa [Endpoint.addStream, Endpoint.setManager] using hst
      rw [← hnew, h.fresh _ (h.unmade _ (Nat.le_refl _))]
      exact Calls.told_start sid label
    · exact h.told k st (by simpa [Endpoint.addStream, Endpoint.setManager, hne] using hst)

section On

variable {s : Station γ} {k : Nat} {st : Stream γ} {a : StreamAct} {r : Stream γ × Calls}

theorem update_frame (e : Endpoint γ) (k : Nat) (st : Stream γ) (a : StreamAct) :
    (update e k st a).streams = Function.update e.streams k (some st) ∧ (update e k st a).made = e.made ∧
      (update e k st a).pmap = e.pmap ∧
      ∀ i sid h, ((update e k st a).managers i).streams sid = some h → (e.managers i).streams sid = some h := by
  unfold update
  split
  · unfold Endpoint.removeStream
    split
    · exact ⟨rfl, rfl, rfl, fun _ _ _ hh => hh⟩
    · rename_i j hj
      refine ⟨rfl, rfl, rfl, ?_⟩
      intro i sid h hh
      by_cases hi : i = j
      · subst hi
        by_cases hsid : sid = st.id
        · simp [Endpoint.setManager, Manager.set, hsid] at hh
        · simpa [Endpoint.setManager, Endpoint.setStream, Manager.set, hsid] using hh
      · simpa [Endpoint.setManager, Endpoint.setStream, hi] using hh
  · exact ⟨rfl, rfl, rfl, fun _ _ _ hh => hh⟩

theorem Inv.on (h : s.Inv) (hst : s.ep.streams k = some st) (hn : (s.calls k).next st a = some r) :
    Inv ⟨update s.ep k r.1 a, Function.update s.calls k r.2⟩ := by
  obtain ⟨hstreams, hmade, hpmap, hmgr⟩ := update_frame s.ep k r.1 a
  obtain ⟨hid, hlabel, -⟩ := Calls.next_keeps hn
  refine ⟨?_, ?_, ?_, ?_, ?_⟩
  · refine h.wf.forget ?_ hmade hmgr
    rw [← Endpoint.ident_setStream hst hid hlabel]
    funext k'
    simp only [Endpoint.ident, hstreams, Endpoint.setStream]
  · intro i sid k' hk'
    simp only [hpmap]
    exact h.pmap i sid k' (hmgr i sid k' hk')
  · intro k' hk'
    simp only [hmade, hstreams] at hk' ⊢
    have hnone := h.unmade k' hk'
    have hne : k' ≠ k := by
      rintro rfl
      rw [hst] at hnone
      cases hnone
    rwa [Function.update_of_ne hne]
  · intro k' hk'
    simp only [hstreams] at hk' ⊢
    by_cases hne : k' = k
    · subst hne
      rw [Function.update_self] at hk'
      cases hk'
    · rw [Function.update_of_ne hne] at hk' ⊢
      exact h.fresh k' hk'
  · intro k' st' hst'
    simp only [hstreams] at hst' ⊢
    by_cases hne : k' = k
    · subst hne
      rw [Function.update_self] at hst' ⊢
      cases hst'
      exact (h.told k' st hst).next hn
    · rw [Function.update_of_ne hne] at hst' ⊢
      exact h.told k' st' hst'

theorem released_on (h : s.Released) :
    Released ⟨update s.ep k r.1 a, Function.update s.calls k r.2⟩ ↔
      (r.2.released = true → ¬(update s.ep k r.1 a).Knows k ∧ r.2.waiting = []) := by
  constructor
  · intro hrel hr
    simpa using hrel k (by simpa using hr)
  · intro hk k' hr
    by_cases hne : k' = k
    · subst hne
      simpa using hk (by simpa using hr)
    · simp only [Function.update_of_ne hne] at hr ⊢
      obtain ⟨hnot, hwaiting⟩ := h k' hr
      refine ⟨?_, hwaiting⟩
      rintro ⟨i, sid, hk'⟩
      exact hnot ⟨i, sid, (update_frame s.ep k r.1 a).2.2.2 i sid k' hk'⟩

theorem not_knows_update (h : s.Inv) (hst : s.ep.streams k = some st) (hid : r.1.id = st.id) (ha : a.removes = true) :
    ¬(update s.ep k r.1 a).Knows k := by
  rintro ⟨i, sid, hk⟩
  have hbefore := (update_frame s.ep k r.1 a).2.2.2 i sid k hk
  have hpmap : (s.ep.setStream k r.1).pmap = some i := h.pmap i sid k hbefore
  obtain ⟨-, c, hident⟩ := h.wf i sid k hbefore
  have hsid : st.id = sid := by
    simp only [Endpoint.ident, hst, Option.map_some, Option.some.injEq, Prod.mk.injEq] at hident
    exact hident.1
  simp [update, ha, Endpoint.removeStream, hpmap, Endpoint.setManager, Manager.set, hid, hsid] at hk

theorem releases_on (h : s.Inv) (hrel : s.Released) (hst : s.ep.streams k = some st)
    (hn : (s.calls k).next st a = some r) :
    Released ⟨update s.ep k r.1 a, Function.update s.calls k r.2⟩ ↔ s.Releases (.on k a) := by
  have htold := h.told k st hst
  rw [released_on hrel]
  by_cases hclose : a = .call .close
  · subst hclose
    have hknows : ∀ st, (update s.ep k st (.call .close)).Knows k ↔ s.ep.Knows k := fun _ => Iff.rfl
    cases hn
    cases hclosed : st.closed with
    | true => simp [Releases, Calls.close, hst, hclosed, Calls.add, Calls.yield, hknows]
    | false =>
      have hnot : (s.calls k).released = false := by
        by_contra hr
        have := htold.closed (.inr (.inr (Bool.eq_true_of_not_eq_false hr)))
        rw [hclosed] at this
        cases this
      simp [Releases, Calls.close, hst, hclosed, Calls.add, hnot]
  · cases hremoves : a.removes with
    | true =>
      have hnot := not_knows_update h hst (Calls.next_keeps hn).1 hremoves
      cases a with
      | closeReturns sent =>
        simp only [Calls.next, Option.ite_none_right_eq_some] at hn
        obtain ⟨hclosing, hn⟩ := hn
        cases hn
        cases sent <;> simp [Releases, hclosing, hnot, Calls.closeReturns, Calls.add, Calls.yield]
      | call i => cases hremoves
      | read n => cases hremoves
      | resume j => cases hremoves
      | send j sent => cases hremoves
    | false =>
      obtain ⟨-, -, hwait, hsame⟩ := Calls.next_keeps hn
      have hknows : (update s.ep k r.1 a).Knows k ↔ s.ep.Knows k := by
        unfold update
        rw [hremoves]
        exact Iff.rfl
      have htrue : s.Releases (.on k a) := by
        cases a with
        | call i =>
          cases i with
          | close => exact absurd rfl hclose
          | frame flags data => trivial
          | write b => trivial
        | closeReturns sent => cases hremoves
        | read n => trivial
        | resume j => trivial
        | send j sent => trivial
      refine iff_of_true ?_ htrue
      intro hr
      rw [hsame hremoves hclose] at hr
      obtain ⟨hout, hwaiting⟩ := hrel k hr
      exact ⟨fun hk => hout (hknows.1 hk), hwait (htold.closed (.inr (.inr hr))) hwaiting⟩

end On

theorem Released.mono {s : Station γ} {e : Endpoint γ} (h : s.Inv) (hrel : s.Released)
    (hknows : ∀ k, e.Knows k → k = s.ep.made ∨ s.ep.Knows k) : Released { s with ep := e } := by
  intro k hr
  obtain ⟨hnot, hwaiting⟩ := hrel k hr
  refine ⟨?_, hwaiting⟩
  intro hk
  rcases hknows k hk with rfl | hbefore
  · rw [h.fresh _ (h.unmade _ (Nat.le_refl _))] at hr
    cases hr
  · exact hnot hbefore

variable {odd : Nat} {a : StationAct γ}

theorem next_openStream {s : Station γ} {label : γ} :
    next odd s (.openStream label) = some { s with ep := s.ep.manager.1.openStream s.ep.manager.2 odd label } := rfl

theorem inv_next {s t : Station γ} (h : s.Inv) (hn : next odd s a = some t) : t.Inv := by
  cases a with
  | openStream label =>
    obtain rfl : _ = t := next_openStream.symm.trans hn |> Option.some.inj
    obtain ⟨-, -, -, -, hpmap, -, -⟩ := s.ep.manager_frame
    exact h.manager.addStream hpmap (m := ((s.ep.manager.1.managers s.ep.manager.2).allocID odd).2) rfl _ label
  | newFrame f label =>
    simp only [next, Option.ite_none_right_eq_some] at hn
    obtain ⟨hunknown, hn⟩ := hn
    cases hn
    obtain ⟨-, -, -, -, hpmap, -, -⟩ := s.ep.manager_frame
    rcases Endpoint.dispatchStreamFrame_cases h.wf f label with ⟨k, st, hk, -⟩ | ⟨-, -, -, heq⟩ | ⟨-, heq⟩
    · rw [hunknown] at hk
      cases hk
    · have hadd := h.manager.addStream hpmap rfl f.sid label
      rw [heq]
      exact { hadd with }
    · rw [heq]
      exact h.manager
  | accept =>
    obtain ⟨e, he, rfl⟩ := Option.map_eq_some_iff.1 hn
    unfold Endpoint.acceptStream at he
    split at he
    · cases he
    · cases he
      exact { h with }
  | on k a =>
    obtain ⟨st, hst, hn⟩ := Option.bind_eq_some_iff.1 hn
    obtain ⟨r, hr, rfl⟩ := Option.map_eq_some_iff.1 hn
    exact h.on hst hr

theorem released_next_iff {s t : Station γ} (h : s.Inv) (hrel : s.Released)
    (hn : next odd s a = some t) : t.Released ↔ s.Releases a := by
  obtain ⟨-, hmade, -, -, -, -, -⟩ := s.ep.manager_frame
  -- a manager that is made knows no stream
  have hadded : ∀ (m : Manager) (label : γ) {sid k : Nat},
      m.streams = (s.ep.manager.1.managers s.ep.manager.2).streams →
      ((s.ep.manager.1.setManager s.ep.manager.2 (m.set sid (some s.ep.manager.1.made))).addStream
        (newStream sid label)).Knows k → k = s.ep.made ∨ s.ep.Knows k := by
    intro m label sid k hm hk
    rw [← hmade]
    exact (Endpoint.knows_addStream hm hk).imp_right Endpoint.knows_manager
  cases a with
  | openStream label =>
    obtain rfl : _ = t := next_openStream.symm.trans hn |> Option.some.inj
    refine iff_of_true (hrel.mono h ?_) trivial
    intro k hk
    exact hadded ((s.ep.manager.1.managers s.ep.manager.2).allocID odd).2 label rfl hk
  | newFrame f label =>
    simp only [next, Option.ite_none_right_eq_some] at hn
    obtain ⟨hunknown, hn⟩ := hn
    cases hn
    refine iff_of_true (hrel.mono h ?_) trivial
    intro k hk
    rcases Endpoint.dispatchStreamFrame_cases h.wf f label with ⟨k', st, hk', -⟩ | ⟨-, -, -, heq⟩ | ⟨-, heq⟩
    · rw [hunknown] at hk'
      cases hk'
    · rw [heq] at hk
      exact hadded _ label rfl hk
    · rw [heq] at hk
      exact .inr (Endpoint.knows_manager hk)
  | accept =>
    obtain ⟨e, he, rfl⟩ := Option.map_eq_some_iff.1 hn
    unfold Endpoint.acceptStream at he
    split at he
    · cases he
    · cases he
      exact iff_of_true (hrel.mono h fun k hk => .inr hk) trivial
  | on k a =>
    obtain ⟨st, hst, hn⟩ := Option.bind_eq_some_iff.1 hn
    obtain ⟨r, hr, rfl⟩ := Option.map_eq_some_iff.1 hn
    exact releases_on h hrel hst hr

theorem releases_of_none {s : Station γ} (h : s.Inv) (hn : next odd s a = none) :
    s.Releases a := by
  cases a with
  | openStream label => trivial
  | newFrame f label => trivial
  | accept => trivial
  | on k a =>
    cases hst : s.ep.streams k with
    | none =>
      have hstart := h.fresh k hst
      cases a with
      | call i =>
        cases i with
        | close =>
          intro st hst'
          rw [hst] at hst'
          cases hst'
        | frame flags data => trivial
        | write b => trivial
      | closeReturns sent =>
        intro hclosing
        rw [hstart] at hclosing
        cases hclosing
      | read n => trivial
      | resume j => trivial
      | send j sent => trivial
    | some st =>
      simp only [next, hst, Option.bind_some, Option.map_eq_none_iff] at hn
      cases a with
      | call i =>
        cases i with
        | close => cases hn
        | frame flags data => trivial
        | write b => trivial
      | closeReturns sent =>
        intro hclosing
        simp [Calls.next, hclosing] at hn
      | read n => trivial
      | resume j => trivial
      | send j sent => trivial

/-- The peer closes first: the `Close` after it leaves the stream in the map. -/
def closedByPeer : List (StationAct Unit) :=
  [.openStream (), .on 0 (.call (.frame flagCLOSE [])), .on 0 (.call .close)]

/-- `Close` returns while a `Read` waits, and the peer has nothing more to send. -/
def closedWhileReading : List (StationAct Unit) :=
  [.openStream (), .on 0 (.read 1), .on 0 (.call .close), .on 0 (.closeReturns true)]

end Station

end Libp2px.Iroh
