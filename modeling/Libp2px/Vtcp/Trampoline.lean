import Libp2px.Lib.Transition

/-!
# The flush trampoline

`flushPackets` of `vtcp/conn.go`, by its atomic steps: the swap of `flushing`, the locked append to `outgoing`, every
call of the writer, the locked drain, and the store of `false`.  Any number of calls are in progress at once.  A call
made inside a call of the writer is on the same stack, so the outer call stands still until it has returned.

No packet is lost or sent twice in any run, but a call that loses the swap may append after the winner's last drain.
What it appends then stays in `outgoing`.  A call made inside the writer cannot come that late.
-/

namespace Libp2px.Vtcp

open Transition

inductive Stage (α : Type)
  /-- before the swap -/
  | start (pkts : List α)
  /-- the swap failed; before the append -/
  | requeue (pkts : List α)
  /-- in the loop, with the rest of the batch; `called`: inside a call of the writer, or after it -/
  | writing (called : Bool) (rest : List α)
  /-- the drain found nothing; before the store -/
  | release
  | returned
  deriving DecidableEq, Repr

namespace Stage

variable {α : Type}

def held : Stage α → List α
  | start pkts => pkts
  | requeue pkts => pkts
  | writing _ rest => rest
  | _ => []

def wins : Stage α → Bool
  | writing _ _ => true
  | release => true
  | _ => false

def drains : Stage α → Bool
  | writing _ _ => true
  | _ => false

def inWriter : Stage α → Bool
  | writing true _ => true
  | _ => false

end Stage

/-- The fields of the connection that `flushPackets` uses; `written` is what the writer was given. -/
structure FlushState (α : Type) where
  flushing : Bool := false
  outgoing : List α := []
  hasWriter : Bool := true
  written : List α := []
  deriving DecidableEq, Repr

namespace FlushState

variable {α : Type}

def advance (s : FlushState α) : Stage α → Option (FlushState α × Stage α)
  | .start [] => some (s, .returned)
  | .start pkts => if s.flushing then some (s, .requeue pkts) else some ({ s with flushing := true }, .writing false pkts)
  | .requeue pkts => some ({ s with outgoing := s.outgoing ++ pkts }, .returned)
  | .writing _ (pkt :: rest) =>
    some (if s.hasWriter then { s with written := s.written ++ [pkt] } else s, .writing s.hasWriter rest)
  | .writing _ [] =>
    match s.outgoing with
    | [] => some (s, .release)
    | pkts => some ({ s with outgoing := [] }, .writing false pkts)
  | .release => some ({ s with flushing := false }, .returned)
  | .returned => none

inductive Advances (s : FlushState α) : Stage α → FlushState α → Stage α → Prop
  | nothing : Advances s (.start []) s .returned
  | lose (pkts : List α) : s.flushing = true → Advances s (.start pkts) s (.requeue pkts)
  | win (pkts : List α) : s.flushing = false →
      Advances s (.start pkts) { s with flushing := true } (.writing false pkts)
  | append (pkts : List α) : Advances s (.requeue pkts) { s with outgoing := s.outgoing ++ pkts } .returned
  | write (called : Bool) (pkt : α) (rest : List α) : s.hasWriter = true →
      Advances s (.writing called (pkt :: rest)) { s with written := s.written ++ [pkt] } (.writing s.hasWriter rest)
  | skip (called : Bool) (pkt : α) (rest : List α) : s.hasWriter = false →
      Advances s (.writing called (pkt :: rest)) s (.writing s.hasWriter rest)
  | empty (called : Bool) : s.outgoing = [] → Advances s (.writing called []) s .release
  | drain (called : Bool) :
      Advances s (.writing called []) { s with outgoing := [] } (.writing false s.outgoing)
  | store : Advances s .release { s with flushing := false } .returned

theorem advances {s t : FlushState α} {st st' : Stage α} (h : s.advance st = some (t, st')) :
    s.Advances st t st' := by
  unfold advance at h
  split at h
  · cases h
    exact .nothing
  · split at h
    · rename_i hf
      cases h
      exact .lose _ hf
    · rename_i hf
      cases h
      exact .win _ (by simpa using hf)
  · cases h
    exact .append _
  · split at h
    · rename_i hw
      cases h
      exact .write _ _ _ hw
    · rename_i hw
      cases h
      exact .skip _ _ _ (by simpa using hw)
  · split at h
    · rename_i ho
      cases h
      exact .empty _ ho
    · cases h
      exact .drain _
  · cases h
    exact .store
  · cases h

end FlushState

/-- A call of `flushPackets`; `inside`: the call whose writer made it. -/
structure FlushCall (α : Type) where
  stage : Stage α
  inside : Option Nat := none
  deriving DecidableEq, Repr

/-- A connection with its calls of `flushPackets`; `passed` is what the calls were given. -/
structure Trampoline (α : Type) where
  conn : FlushState α
  calls : List (FlushCall α) := []
  passed : List α := []
  deriving DecidableEq, Repr

/-- A call begins, by itself or inside the writer of another call, or a call takes its next step. -/
inductive FlushAct (α : Type)
  | call (inside : Option Nat) (pkts : List α)
  | step (i : Nat)
  deriving DecidableEq, Repr

namespace Trampoline

variable {α : Type}

def waits (s : Trampoline α) (i : Nat) : Bool :=
  s.calls.any fun c => c.inside == some i && !(c.stage matches .returned)

/-- The call is inside the writer, and no call made there is in progress. -/
def mayNest (s : Trampoline α) : Option Nat → Bool
  | none => true
  | some i => (s.calls[i]?.any fun c => c.stage.inWriter) && !s.waits i

def next (s : Trampoline α) : FlushAct α → Option (Trampoline α)
  | .call inside pkts =>
    if s.mayNest inside then
      some { s with calls := s.calls ++ [⟨.start pkts, inside⟩], passed := s.passed ++ pkts }
    else none
  | .step i =>
    match s.calls[i]? with
    | none => none
    | some c =>
      if s.waits i then none
      else
        (s.conn.advance c.stage).map fun r => { s with conn := r.1, calls := s.calls.set i { c with stage := r.2 } }

/-- The runs of the calls on one connection that has nothing queued. -/
def system (α : Type) : System (Trampoline α) (FlushAct α) :=
  .ofNext (fun s => ∃ hasWriter, s = { conn := { hasWriter } }) next

def Done (s : Trampoline α) : Prop := ∀ c ∈ s.calls, c.stage = .returned

instance [DecidableEq α] (s : Trampoline α) : Decidable s.Done :=
  inferInstanceAs (Decidable (∀ c ∈ s.calls, c.stage = .returned))

/-! ### What a step does -/

variable {s t : Trampoline α} {a : FlushAct α}

theorem next_step {i : Nat} (h : s.next (.step i) = some t) :
    ∃ pre c post st, s.calls = pre ++ c :: post ∧ pre.length = i ∧ s.waits i = false ∧
      s.conn.Advances c.stage t.conn st ∧ t.calls = pre ++ { c with stage := st } :: post ∧ t.passed = s.passed := by
  unfold next at h
  simp only at h
  split at h
  · cases h
  · rename_i c hc
    split at h
    · cases h
    · rename_i hw
      obtain ⟨r, hr, heq⟩ := Option.map_eq_some_iff.1 h
      obtain ⟨hi, hci⟩ := List.getElem?_eq_some_iff.1 hc
      have hsplit : s.calls = s.calls.take i ++ c :: s.calls.drop (i + 1) := by
        rw [← hci, List.getElem_cons_drop, List.take_append_drop]
      have hlen : (s.calls.take i).length = i := List.length_take_of_le hi.le
      refine ⟨s.calls.take i, c, s.calls.drop (i + 1), r.2, hsplit, hlen, by simpa using hw, ?_, ?_, ?_⟩
      · rw [← heq]
        exact FlushState.advances hr
      · rw [← heq]
        exact List.set_eq_take_append_cons_drop.trans (if_pos hi)
      · rw [← heq]

theorem next_call {inside : Option Nat} {pkts : List α} (h : s.next (.call inside pkts) = some t) :
    s.mayNest inside = true ∧ t.conn = s.conn ∧ t.calls = s.calls ++ [⟨.start pkts, inside⟩] ∧
      t.passed = s.passed ++ pkts := by
  unfold next at h
  simp only at h
  split at h
  · rename_i hn
    cases h
    exact ⟨hn, rfl, rfl, rfl⟩
  · cases h

/-! ### Packets are kept -/

/-- The packets passed to the calls are with the writer, in `outgoing`, or with a call. -/
def Kept (s : Trampoline α) : Prop :=
  s.passed.Perm (s.conn.written ++ s.conn.outgoing ++ s.calls.flatMap (·.stage.held))

theorem Kept.next (h : s.Kept) (hw : s.conn.hasWriter = true) (hn : s.next a = some t) : t.Kept := by
  classical
  unfold Kept at h ⊢
  rw [List.perm_iff_count] at h ⊢
  intro x
  have hx := h x
  cases a with
  | call inside pkts =>
    obtain ⟨-, hconn, hcalls, hpassed⟩ := next_call hn
    rw [hconn, hcalls, hpassed]
    simp only [List.count_append, List.flatMap_append, List.flatMap_singleton, Stage.held] at hx ⊢
    omega
  | step i =>
    obtain ⟨pre, c, post, st, hcalls, -, -, hadv, hcalls', hpassed⟩ := next_step hn
    rw [hcalls] at hx
    rw [hcalls', hpassed]
    generalize hst : c.stage = st₀ at hadv
    generalize t.conn = d at hadv
    simp only [List.count_append, List.flatMap_append, List.flatMap_cons, hst] at hx ⊢
    cases hadv with
    | nothing | lose | win | store => simpa [Stage.held] using hx
    | append pkts =>
      simp only [Stage.held, List.count_append, List.count_nil] at hx ⊢
      omega
    | write called pkt rest =>
      simp only [Stage.held, List.count_append, List.count_cons, List.count_nil] at hx ⊢
      omega
    | skip _ _ _ hno => cases hw.symm.trans hno
    | empty called ho => simpa [Stage.held] using hx
    | drain called =>
      simp only [Stage.held, List.count_nil] at hx ⊢
      omega

/-! ### Appends that are drained -/

def appends (s : Trampoline α) : FlushAct α → Bool
  | .call _ _ => false
  | .step i => s.calls[i]?.any fun c => c.stage matches .requeue _

/-- Every append finds a call that will drain, and there is a writer. -/
def AppendsCovered (s : Trampoline α) (a : FlushAct α) : Prop :=
  s.conn.hasWriter = true ∧ (s.appends a = true → ∃ d ∈ s.calls, d.stage.drains = true)

instance (s : Trampoline α) (a : FlushAct α) : Decidable (s.AppendsCovered a) :=
  inferInstanceAs (Decidable (_ ∧ _))

def Covered (s : Trampoline α) : Prop := s.conn.outgoing ≠ [] → ∃ d ∈ s.calls, d.stage.drains = true

theorem Covered.next (h : s.Covered) (ha : s.AppendsCovered a) (hn : s.next a = some t) : t.Covered := by
  intro hout
  cases a with
  | call inside pkts =>
    obtain ⟨-, hconn, hcalls, -⟩ := next_call hn
    rw [hconn] at hout
    obtain ⟨d, hd, hdrains⟩ := h hout
    exact ⟨d, hcalls ▸ List.mem_append_left _ hd, hdrains⟩
  | step i =>
    obtain ⟨pre, c, post, st, hcalls, hi, -, hadv, hcalls', -⟩ := next_step hn
    have hc : s.calls[i]? = some c := by
      rw [hcalls, ← hi]
      simp
    -- a call that will drain is the one that steps, or it is still there
    have hother : (∃ d ∈ s.calls, d.stage.drains = true) → (c.stage.drains = true → st.drains = true) →
        ∃ d ∈ t.calls, d.stage.drains = true := by
      rintro ⟨d, hd, hdrains⟩ hsame
      rw [hcalls] at hd
      rw [hcalls']
      rcases List.mem_append.1 hd with hd | hd
      · exact ⟨d, List.mem_append_left _ hd, hdrains⟩
      · rcases List.mem_cons.1 hd with rfl | hd
        · exact ⟨_, List.mem_append_right _ (List.mem_cons_self ..), hsame hdrains⟩
        · exact ⟨d, List.mem_append_right _ (List.mem_cons_of_mem _ hd), hdrains⟩
    generalize hst : c.stage = st₀ at hadv hother
    generalize t.conn = d at hadv hout
    cases hadv with
    | nothing | lose | win | store => exact hother (h hout) fun hd => by cases hd
    | append pkts =>
      refine hother (ha.2 ?_) fun hd => by cases hd
      simp [appends, hc, hst]
    | write | skip => exact hother (h hout) fun _ => rfl
    | empty called ho => exact absurd ho hout
    | drain called => exact absurd rfl hout

/-- Once all calls have returned in a run whose appends all find a call that will drain, `outgoing` is empty and every
packet passed to a call has been given to the writer once. -/
theorem strands_nothing {s : Trampoline α} (hr : (system α).Reach AppendsCovered s) (hdone : s.Done) :
    s.conn.outgoing = [] ∧ s.conn.written.Perm s.passed := by
  have hinv := hr.invariant (I := fun s => s.Kept ∧ s.Covered) ?_ ?_
  · obtain ⟨hkept, hcov⟩ := hinv
    have hout : s.conn.outgoing = [] := by
      by_contra hne
      obtain ⟨d, hd, hdrains⟩ := hcov hne
      rw [hdone d hd] at hdrains
      cases hdrains
    have hheld : s.calls.flatMap (·.stage.held) = [] := by
      refine List.flatMap_eq_nil_iff.2 fun c hc => ?_
      rw [hdone c hc]
      rfl
    unfold Kept at hkept
    rw [hout, hheld, List.append_nil, List.append_nil] at hkept
    exact ⟨hout, hkept.symm⟩
  · rintro s ⟨w, rfl⟩
    exact ⟨List.Perm.refl _, fun hne => absurd rfl hne⟩
  · rintro s a t - ⟨hkept, hcov⟩ ha hn
    exact ⟨hkept.next ha.1 hn, hcov.next ha hn⟩

def run (s : Trampoline α) (as : List (FlushAct α)) : Trampoline α := (exec next s as).getD s

def idle : Trampoline α := { conn := {} }

/-- A call writes 1, a call made in its writer queues 2, and the outer call drains it. -/
def nested : List (FlushAct Nat) :=
  [.call none [1], .step 0, .step 0, .call (some 0) [2], .step 1, .step 1, .step 0, .step 0, .step 0, .step 0]

theorem strands_nothing_nested : (idle.run nested).Done ∧ (idle.run nested).conn.written.Perm [1, 2] := by
  have hr : (system Nat).Reach AppendsCovered (idle.run nested) :=
    ⟨idle, ⟨true, rfl⟩, exec_steps_getD (by decide) (by decide)⟩
  have hdone : (idle.run nested).Done := by decide
  exact ⟨hdone, (strands_nothing hr hdone).2⟩

/-- Two goroutines: the second call loses the swap, the first one drains, stores `false` and returns, and then the
second one appends. -/
def overtaken : List (FlushAct Nat) :=
  [.call none [1], .call none [2], .step 0, .step 1, .step 0, .step 0, .step 0, .step 1]

theorem strands_late_append :
    (system Nat).Reach anyStep (idle.run overtaken) ∧ (idle.run overtaken).Done ∧
      (idle.run overtaken).passed = [1, 2] ∧ (idle.run overtaken).conn.outgoing = [2] ∧
      (idle.run overtaken).conn.written = [1] :=
  ⟨⟨idle, ⟨true, rfl⟩, exec_steps_getD (by decide) (execMeets_anyStep _ _ _)⟩, by decide⟩

/-! ### Calls on one stack -/

/-- There is a writer, and a call that is not made inside the writer finds that all calls have returned. -/
def OneStack (s : Trampoline α) (a : FlushAct α) : Prop :=
  s.conn.hasWriter = true ∧ ∀ pkts, a = .call none pkts → s.Done

/-- On one stack the winner is the outermost call, and every other call in progress is inside its writer. -/
structure Nested (s : Trampoline α) : Prop where
  inside : ∀ (k : Nat) (c : FlushCall α) (i : Nat), s.calls[k]? = some c → c.stage ≠ .returned → c.inside = some i →
    ∃ p, s.calls[i]? = some p ∧ p.stage.inWriter = true
  outermost : ∀ (k l : Nat) (c d : FlushCall α), s.calls[k]? = some c → s.calls[l]? = some d → c.stage ≠ .returned →
    d.stage ≠ .returned → c.inside = none → d.inside = none → k = l
  winner : ∀ (k : Nat) (c : FlushCall α), s.calls[k]? = some c → c.stage.wins = true → c.inside = none
  flag : s.conn.flushing = true ↔ ∃ (k : Nat) (c : FlushCall α), s.calls[k]? = some c ∧ c.stage.wins = true
  lost : ∀ (k : Nat) (c : FlushCall α) (pkts : List α), s.calls[k]? = some c → c.stage = .requeue pkts → c.inside ≠ none

theorem drains_of_inWriter {st : Stage α} (h : st.inWriter = true) : st.drains = true := by
  unfold Stage.inWriter at h
  split at h
  · rfl
  · cases h

theorem wins_of_inWriter {st : Stage α} (h : st.inWriter = true) : st.wins = true := by
  unfold Stage.inWriter at h
  split at h
  · rfl
  · cases h

theorem ne_returned_of_wins {st : Stage α} (h : st.wins = true) : st ≠ .returned := by
  rintro rfl
  cases h

theorem Nested.appendsCovered {s : Trampoline α} (h : s.Nested) (ha : s.OneStack a) :
    s.AppendsCovered a := by
  refine ⟨ha.1, fun happ => ?_⟩
  cases a with
  | call inside pkts => cases happ
  | step i =>
    unfold appends at happ
    obtain ⟨c, hc, hst⟩ := (Option.any_eq_true _ _).1 happ
    cases hstage : c.stage with
    | requeue pkts =>
      obtain ⟨k, hk⟩ := Option.ne_none_iff_exists'.1 (h.lost i c pkts hc hstage)
      obtain ⟨p, hp, hin⟩ := h.inside i c k hc (by rw [hstage]; exact fun hno => by cases hno) hk
      exact ⟨p, List.mem_of_getElem? hp, drains_of_inWriter hin⟩
    | _ => rw [hstage] at hst; cases hst

theorem Nested.call {inside : Option Nat} {pkts : List α} (h : s.Nested)
    (ha : s.OneStack (.call inside pkts)) (hn : s.next (.call inside pkts) = some t) : t.Nested := by
  obtain ⟨hmay, hconn, hcalls, -⟩ := next_call hn
  have hget : ∀ (k : Nat) (c : FlushCall α), t.calls[k]? = some c ↔
      s.calls[k]? = some c ∨ k = s.calls.length ∧ c = ⟨.start pkts, inside⟩ := by
    intro k c
    rw [hcalls, List.getElem?_append]
    split
    · rename_i hk
      simp [Nat.ne_of_lt hk]
    · rename_i hk
      rw [List.getElem?_eq_none (Nat.le_of_not_lt hk), List.getElem?_singleton]
      by_cases hlen : k = s.calls.length
      · simp [hlen, eq_comm]
      · have hne : k - s.calls.length ≠ 0 := by omega
        simp [hlen, hne]
  refine ⟨?_, ?_, ?_, ?_, ?_⟩
  · intro k c i hc hst hin
    have hparent : ∃ p, s.calls[i]? = some p ∧ p.stage.inWriter = true := by
      rcases (hget k c).1 hc with hc | ⟨-, rfl⟩
      · exact h.inside k c i hc hst hin
      · have hin' : inside = some i := hin
        rw [hin', mayNest, Bool.and_eq_true] at hmay
        exact (Option.any_eq_true _ _).1 hmay.1
    obtain ⟨p, hp, hw⟩ := hparent
    exact ⟨p, (hget i p).2 (.inl hp), hw⟩
  · intro k l c d hc hd hcs hds hci hdi
    -- an outermost call begins when no other call is in progress
    have hnew : inside = none → ∀ (m : Nat) (e : FlushCall α), s.calls[m]? = some e → e.stage = .returned := by
      rintro rfl m e he
      exact ha.2 pkts rfl e (List.mem_of_getElem? he)
    rcases (hget k c).1 hc with hc | ⟨rfl, rfl⟩
    · rcases (hget l d).1 hd with hd | ⟨rfl, rfl⟩
      · exact h.outermost k l c d hc hd hcs hds hci hdi
      · exact absurd (hnew hdi k c hc) hcs
    · rcases (hget l d).1 hd with hd | ⟨rfl, rfl⟩
      · exact absurd (hnew hci l d hd) hds
      · rfl
  · intro k c hc hw
    rcases (hget k c).1 hc with hc | ⟨-, rfl⟩
    · exact h.winner k c hc hw
    · cases hw
  · rw [hconn, h.flag]
    constructor
    · rintro ⟨k, c, hc, hw⟩
      exact ⟨k, c, (hget k c).2 (.inl hc), hw⟩
    · rintro ⟨k, c, hc, hw⟩
      rcases (hget k c).1 hc with hc | ⟨-, rfl⟩
      · exact ⟨k, c, hc, hw⟩
      · cases hw
  · intro k c ps hc hst
    rcases (hget k c).1 hc with hc | ⟨-, rfl⟩
    · exact h.lost k c ps hc hst
    · cases hst

theorem advances_wins {s t : FlushState α} {st st' : Stage α} (h : s.Advances st t st') :
    (st'.wins = st.wins ∧ t.flushing = s.flushing) ∨
      (st.wins = false ∧ st'.wins = true ∧ s.flushing = false ∧ t.flushing = true) ∨
      (st.wins = true ∧ st'.wins = false ∧ t.flushing = false) := by
  cases h with
  | win pkts hf => exact .inr (.inl ⟨rfl, rfl, hf, rfl⟩)
  | store => exact .inr (.inr ⟨rfl, rfl, rfl⟩)
  | _ => exact .inl ⟨rfl, rfl⟩

theorem Nested.step {i : Nat} (h : s.Nested) (hn : s.next (.step i) = some t) : t.Nested := by
  obtain ⟨pre, c, post, st, hcalls, hi, hwaits, hadv, hcalls', -⟩ := next_step hn
  have hc : s.calls[i]? = some c := by
    rw [hcalls, ← hi]
    simp
  have hnew : t.calls[i]? = some { c with stage := st } := by
    rw [hcalls', ← hi]
    simp
  have hold : ∀ k, k ≠ i → t.calls[k]? = s.calls[k]? := by
    intro k hk
    rw [hcalls, hcalls', List.getElem?_append, List.getElem?_append]
    split
    · rfl
    · obtain ⟨m, hm⟩ : ∃ m, k - pre.length = m + 1 := ⟨k - pre.length - 1, by omega⟩
      rw [hm]
      rfl
  have hrun : c.stage ≠ .returned := by
    intro hst
    rw [hst] at hadv
    cases hadv
  -- a call in progress was in progress before, made by the same call
  have hback : ∀ (k : Nat) (d : FlushCall α), t.calls[k]? = some d → d.stage ≠ .returned →
      ∃ d₀, s.calls[k]? = some d₀ ∧ d₀.stage ≠ .returned ∧ d₀.inside = d.inside := by
    intro k d hd hst
    by_cases hk : k = i
    · rw [hk, hnew] at hd
      exact ⟨c, by rw [hk, hc], hrun, by rw [← Option.some.inj hd]⟩
    · exact ⟨d, (hold k hk).symm.trans hd, hst, rfl⟩
  have hstill : ∀ (k : Nat) (d : FlushCall α), s.calls[k]? = some d → d.stage ≠ .returned → d.inside ≠ some i := by
    intro k d hd hst hin
    have hw : s.waits i = true := by
      refine List.any_eq_true.2 ⟨d, List.mem_of_getElem? hd, ?_⟩
      rw [hin]
      cases hds : d.stage with
      | returned => exact absurd hds hst
      | _ => simp
    cases hwaits.symm.trans hw
  refine ⟨?_, ?_, ?_, ?_, ?_⟩
  · intro k d j hd hst hin
    obtain ⟨d₀, hd₀, hst₀, hin₀⟩ := hback k d hd hst
    obtain ⟨p, hp, hw⟩ := h.inside k d₀ j hd₀ hst₀ (hin₀.trans hin)
    have hj : j ≠ i := by
      rintro rfl
      exact hstill k d₀ hd₀ hst₀ (hin₀.trans hin)
    exact ⟨p, (hold j hj).trans hp, hw⟩
  · intro k l d e hd he hds hes hdi hei
    obtain ⟨d₀, hd₀, hds₀, hdi₀⟩ := hback k d hd hds
    obtain ⟨e₀, he₀, hes₀, hei₀⟩ := hback l e he hes
    exact h.outermost k l d₀ e₀ hd₀ he₀ hds₀ hes₀ (hdi₀.trans hdi) (hei₀.trans hei)
  · intro k d hd hw
    by_cases hk : k = i
    · rw [hk, hnew] at hd
      rw [← Option.some.inj hd] at hw ⊢
      rcases advances_wins hadv with ⟨hsame, -⟩ | ⟨-, -, hfree, -⟩ | ⟨-, hno, -⟩
      · exact h.winner i c hc (hsame.symm.trans hw)
      · -- a nested call cannot win: the flag is set by the call whose writer made it
        by_contra hin
        obtain ⟨j, hj⟩ := Option.ne_none_iff_exists'.1 hin
        obtain ⟨p, hp, hpw⟩ := h.inside i c j hc hrun hj
        cases hfree.symm.trans (h.flag.2 ⟨j, p, hp, wins_of_inWriter hpw⟩)
      · cases hno.symm.trans hw
    · exact h.winner k d ((hold k hk).symm.trans hd) hw
  · rcases advances_wins hadv with ⟨hsame, hflag⟩ | ⟨-, hwin, -, hflag⟩ | ⟨hwas, hno, hflag⟩
    · rw [hflag, h.flag]
      constructor
      · rintro ⟨k, d, hd, hw⟩
        by_cases hk : k = i
        · rw [hk, hc] at hd
          exact ⟨i, _, hnew, by rw [← Option.some.inj hd] at hw; exact hsame.trans hw⟩
        · exact ⟨k, d, (hold k hk).trans hd, hw⟩
      · rintro ⟨k, d, hd, hw⟩
        by_cases hk : k = i
        · rw [hk, hnew] at hd
          exact ⟨i, c, hc, by rw [← Option.some.inj hd] at hw; exact hsame.symm.trans hw⟩
        · exact ⟨k, d, (hold k hk).symm.trans hd, hw⟩
    · rw [hflag]
      exact ⟨fun _ => ⟨i, _, hnew, hwin⟩, fun _ => rfl⟩
    · -- no other call holds the flag
      rw [hflag]
      refine ⟨fun hf => (by cases hf), ?_⟩
      rintro ⟨k, d, hd, hw⟩
      by_cases hk : k = i
      · rw [hk, hnew] at hd
        rw [← Option.some.inj hd] at hw
        cases hno.symm.trans hw
      · have hd' := (hold k hk).symm.trans hd
        exact absurd (h.outermost k i d c hd' hc (ne_returned_of_wins hw) hrun (h.winner k d hd' hw)
          (h.winner i c hc hwas)) hk
  · intro k d pkts hd hst hin
    by_cases hk : k = i
    · rw [hk, hnew] at hd
      rw [← Option.some.inj hd] at hst hin
      have hst' : st = .requeue pkts := hst
      have hstage : c.stage = .start pkts ∧ s.conn.flushing = true := by
        rw [hst'] at hadv
        generalize c.stage = st₀ at hadv
        generalize t.conn = e at hadv
        cases hadv with
        | lose _ hf => exact ⟨rfl, hf⟩
      -- the winner would be a second outermost call
      obtain ⟨l, w, hw, hwins⟩ := h.flag.1 hstage.2
      have hl := h.outermost l i w c hw hc (ne_returned_of_wins hwins) hrun (h.winner l w hw hwins) hin
      rw [hl, hc] at hw
      rw [← Option.some.inj hw, hstage.1] at hwins
      cases hwins
    · exact h.lost k d pkts ((hold k hk).symm.trans hd) hst hin

end Trampoline

end Libp2px.Vtcp
