import Libp2px.RelayFile.InStep

/-!
# Waiting for a file

`ReceiveFile` of `p2put/relayfile.go` polls `sessions`, where the sessions of `SendFile` and of the receiver are
registered side by side.  It takes any session of its peer, so it can report a file that was sent.  A session that is
done deletes itself at once, so the poll can miss it, and a session that is deleted between `Range` and `Load` makes the
poll panic.  If none of this happens, `ReceiveFile` reports exactly the file that was received.

`Range` is one step that finds any session of the peer; the callback and the receive directory that `ReceiveFile` sets
have no part in what it returns.
-/

namespace Libp2px.RelayFile

open Transition

/-- A session of `SendFile`: its peer, what is sent, and where it stands. -/
structure Outgoing (env : Env) where
  peer : String
  src : Source
  pay : Payloads env src
  snd : Sender

inductive Entry (env : Env)
  | receiving (s : Session)
  | sending (o : Outgoing env)

namespace Entry

variable {env : Env}

def peer : Entry env → String
  | receiving s => s.peer
  | sending o => o.peer

def state : Entry env → SessionState
  | receiving s => s.state
  | sending o => o.snd.state

def registered : Entry env → Bool
  | receiving s => s.registered
  | sending o => o.snd.registered

def listed (pid : String) (e : Entry env) : Bool := e.registered && e.peer == pid

end Entry

inductive PollResult
  | ok (id : Nat)
  /-- `transfer error` or `transfer cancelled` -/
  | failed (id : Nat) (state : SessionState)
  /-- `ctx.Err()` -/
  | context
  deriving DecidableEq, Repr

inductive PollStage
  /-- it has not been called -/
  | idle
  /-- at the head of the loop -/
  | top
  /-- `Range` has found an id -/
  | found (id : Nat)
  /-- `Load` has returned its session -/
  | loaded (id : Nat)
  | sleep
  | returned (r : PollResult)
  /-- `Load` has found nothing -/
  | crashed
  deriving DecidableEq, Repr

namespace PollStage

def between : PollStage → Bool
  | found _ | loaded _ => false
  | _ => true

def polling : PollStage → Bool
  | top | found _ | loaded _ | sleep => true
  | _ => false

end PollStage

/-- All sessions, by their id, and a call of `ReceiveFile` with the number of steps that it has made. -/
structure Sessions (env : Env) where
  fs : FS
  table : List (Entry env)
  poll : PollStage
  polls : Nat

namespace Sessions

variable {env : Env}

inductive Move (env : Env)
  /-- an INIT frame has arrived -/
  | accept (i : Init) (peer : String)
  | serve (id : Nat) (a : Act)
  /-- `SendFile` has registered its session -/
  | start (peer : String) (src : Source) (pay : Payloads env src)
  | send (id : Nat) (a : SendAct)
  /-- `ReceiveFile` is called -/
  | call
  | range (found : Option Nat)
  | load
  | read
  | wake
  /-- the context of `ReceiveFile` is done -/
  | expire

def set (t : Sessions env) (id : Nat) (e : Entry env) : Sessions env := { t with table := t.table.set id e }

def goto (t : Sessions env) (p : PollStage) : Sessions env := { t with poll := p, polls := t.polls + 1 }

def judge (id : Nat) (state : SessionState) : PollStage :=
  match state with
  | .done => .returned (.ok id)
  | .error | .cancelled => .returned (.failed id state)
  | .init | .transfer => .sleep

def next (pid : String) (t : Sessions env) : Move env → Option (Sessions env)
  | .accept i peer => some { t with table := t.table ++ [.receiving { init := i, peer }] }
  | .serve id a =>
    match t.table[id]? with
    | some (.receiving s) => (s.step env t.fs a).map fun r => { t.set id (.receiving r.2.1) with fs := r.1 }
    | _ => none
  | .start peer src pay => some { t with table := t.table ++ [.sending ⟨peer, src, pay, {}⟩] }
  | .send id a =>
    match t.table[id]? with
    | some (.sending o) => (Sender.step o.pay o.snd a).map fun r => t.set id (.sending { o with snd := r.1 })
    | _ => none
  | .call => if t.poll = .idle then some (t.goto .top) else none
  | .range found =>
    if t.poll = .top then
      match found with
      | some id => if (t.table[id]?).any (Entry.listed pid) then some (t.goto (.found id)) else none
      | none => if t.table.any (Entry.listed pid) then none else some (t.goto .sleep)
    else none
  | .load =>
    match t.poll with
    | .found id => some (t.goto (if (t.table[id]?).any Entry.registered then .loaded id else .crashed))
    | _ => none
  | .read =>
    match t.poll with
    | .loaded id => (t.table[id]?).map fun e => t.goto (judge id e.state)
    | _ => none
  | .wake => if t.poll = .sleep then some (t.goto .top) else none
  | .expire => if t.poll = .top then some (t.goto (.returned .context)) else none

def system (pid : String) (fs : FS) : System (Sessions env) (Move env) :=
  .ofNext (· = ⟨fs, [], .idle, 0⟩) (next pid)

/-- A session of the peer is deleted only between two polls, if done only after `ReceiveFile` has returned; and when
`ReceiveFile` reads a state, no file sent to the peer is done. -/
def polite (pid : String) (t : Sessions env) : Move env → Bool
  | .serve id .delete =>
    match t.table[id]? with
    | some (.receiving s) => s.peer != pid || t.poll.between && (s.state != .done || !t.poll.polling)
    | _ => true
  | .send id .delete =>
    match t.table[id]? with
    | some (.sending o) => o.peer != pid || t.poll.between
    | _ => true
  | .read => t.table.all fun
    | .sending o => !(Entry.listed pid (.sending o) && o.snd.state == .done)
    | .receiving _ => true
  | _ => true

end Sessions

/-! ### What the steps of a session change in `sessions` -/

def Stage.active : Stage → Bool
  | loop | closed | verifying _ _ | verified | renamed | finished | failed | unregister => true
  | _ => false

namespace Session

variable {env : Env} {fs : FS} {s : Session} {a : Act} {r : FS × Session × List Reply}

theorem peer_step (h : s.step env fs a = some r) : r.2.1.peer = s.peer := by
  rcases step_kept h with hkept | ⟨-, -, heq⟩ | ⟨-, -, heq⟩ | ⟨-, -, -, heq⟩ | ⟨-, -, heq⟩
  · simp only [kept, Prod.mk.injEq] at hkept
    exact hkept.2.1
  all_goals rw [heq]

theorem done_step (h : s.step env fs a = some r) (hdone : s.state = .done) : r.2.1.state = .done := by
  rcases step_kept h with hkept | ⟨-, -, heq⟩ | ⟨-, -, heq⟩ | ⟨-, hnot, -⟩ | ⟨-, -, heq⟩
  · simp only [kept, Prod.mk.injEq] at hkept
    exact hkept.2.2.1.trans hdone
  · rw [heq]
    exact hdone
  · rw [heq]
  · rw [hdone] at hnot
    cases hnot
  · rw [heq]
    exact hdone

theorem registered_step (h : s.step env fs a = some r) (ha : a ≠ .delete) (hreg : s.registered = true) :
    r.2.1.registered = true := by
  rcases step_kept h with hkept | ⟨-, -, heq⟩ | ⟨-, -, heq⟩ | ⟨-, -, -, heq⟩ | ⟨hst, -, -⟩
  · simp only [kept, Prod.mk.injEq] at hkept
    exact hkept.2.2.2.1.trans hreg
  · rw [heq]
  · rw [heq]
    exact hreg
  · rw [heq]
    exact hreg
  · have hfits := fits_of_step h
    rw [hst] at hfits
    cases a with
    | delete => exact absurd rfl ha
    | _ => cases hfits

theorem active_step (h : s.step env fs a = some r) (hactive : s.stage.active = true → s.registered = true)
    (hr : r.2.1.stage.active = true) : r.2.1.registered = true := by
  by_cases ha : a = .delete
  · subst ha
    cases stepped h
    cases hr
  have hkeep := fun hst => registered_step h ha (hactive hst)
  cases stepped h with
  | accepted => rfl
  | noDir | noBitmap | opened | divides | resumed | created | notCreated | notAccepted => cases hr
  | deleted => exact absurd rfl ha
  | received hst | readError hst | verifying hst | notOpened _ hst | hashed hst | hashEnd hst | hashError hst | renamed hst
  | notRenamed hst | finished hst | done hst | notDone hst | ended hst | cleaned hst => exact hkeep (by rw [hst]; rfl)

end Session

theorem Sender.registered_step {env : Env} {src : Source} {pay : Payloads env src} {s : Sender} {a : SendAct}
    {r : Sender × List Frame} (h : step pay s a = some r) (ha : a ≠ .delete) : r.1.registered = s.registered := by
  cases stepped h with
  | entered _ hr =>
    rw [← hr]
    unfold enter
    split
    · split <;> rfl
    · rfl
  | chunk _ hr =>
    rw [← hr]
    unfold sendChunk
    split
    · split
      · rfl
      · simp only
        split
        · rfl
        · split <;> rfl
    · rfl
  | deleted => exact absurd rfl ha
  | _ => rfl

/-! ### Runs -/

namespace Sessions

variable {env : Env} {pid : String} {fs : FS} {t t' : Sessions env}

/-- The session that a poll has found is in `sessions`; the reported one is a file received from the peer; and
receiving sessions are registered while active. -/
structure Sound (pid : String) (t : Sessions env) : Prop where
  held : ∀ id, t.poll = .found id ∨ t.poll = .loaded id → ∃ e, t.table[id]? = some e ∧ e.listed pid = true
  told : ∀ id, t.poll = .returned (.ok id) →
    ∃ s, t.table[id]? = some (.receiving s) ∧ s.peer = pid ∧ s.state = .done
  active : ∀ (id : Nat) (s : Session), t.table[id]? = some (.receiving s) → s.stage.active = true → s.registered = true

variable {id : Nat} {m : Move env}

theorem not_between {p : PollStage} (h : p = .found id ∨ p = .loaded id) : p.between = false := by
  rcases h with rfl | rfl <;> rfl

theorem Sound.add (h : t.Sound pid) {e : Entry env}
    (he : ∀ s, e = .receiving s → s.stage.active = true → s.registered = true) :
    Sound pid { t with table := t.table ++ [e] } := by
  have hold : ∀ {id : Nat} {e' : Entry env}, t.table[id]? = some e' → (t.table ++ [e])[id]? = some e' := by
    intro id e' hid
    have hlt : id < t.table.length := (List.getElem?_eq_some_iff.1 hid).1
    rwa [List.getElem?_append_left hlt]
  refine ⟨fun id hp => ?_, fun id hp => ?_, fun id s hs => ?_⟩
  · obtain ⟨e', he', hl⟩ := h.held id hp
    exact ⟨e', hold he', hl⟩
  · obtain ⟨s, hs, hrest⟩ := h.told id hp
    exact ⟨s, hold hs, hrest⟩
  · have hmem := List.mem_of_getElem? hs
    rcases List.mem_append.1 hmem with hin | hlast
    · obtain ⟨id', hid'⟩ := List.getElem?_of_mem hin
      exact h.active id' s hid'
    · exact he s (List.mem_singleton.1 hlast).symm

theorem Sound.set (h : t.Sound pid) {e e' : Entry env} {fs : FS} (he : t.table[id]? = some e)
    (hlisted : (t.poll = .found id ∨ t.poll = .loaded id) → e.listed pid = true → e'.listed pid = true)
    (hdone : ∀ s, e = .receiving s → s.peer = pid → s.state = .done →
      ∃ s', e' = .receiving s' ∧ s'.peer = pid ∧ s'.state = .done)
    (hactive : ∀ s', e' = .receiving s' → s'.stage.active = true → s'.registered = true) :
    Sound pid { t.set id e' with fs := fs } := by
  have hlt : id < t.table.length := (List.getElem?_eq_some_iff.1 he).1
  have hself : (t.table.set id e')[id]? = some e' := List.getElem?_set_self hlt
  have hother : ∀ {id' : Nat}, id' ≠ id → (t.table.set id e')[id']? = t.table[id']? :=
    fun hne => List.getElem?_set_ne (Ne.symm hne)
  refine ⟨fun id' hp => ?_, fun id' hp => ?_, fun id' s hs => ?_⟩
  · obtain ⟨e₀, he₀, hl⟩ := h.held id' hp
    by_cases hid : id' = id
    · subst hid
      cases he.symm.trans he₀
      exact ⟨e', hself, hlisted hp hl⟩
    · exact ⟨e₀, (hother hid).trans he₀, hl⟩
  · obtain ⟨s, hs, hpeer, hstate⟩ := h.told id' hp
    by_cases hid : id' = id
    · subst hid
      cases he.symm.trans hs
      obtain ⟨s', rfl, hs'⟩ := hdone s rfl hpeer hstate
      exact ⟨s', hself, hs'⟩
    · exact ⟨s, (hother hid).trans hs, hpeer, hstate⟩
  · by_cases hid : id' = id
    · subst hid
      exact hactive s (Option.some.inj (hself.symm.trans hs))
    · exact h.active id' s ((hother hid).symm.trans hs)

theorem Sound.goto (h : t.Sound pid) {p : PollStage} (hp : p.between = true) (hok : ∀ id, p ≠ .returned (.ok id)) :
    (t.goto p).Sound pid := by
  refine ⟨fun id hheld => ?_, fun id htold => absurd htold (hok id), h.active⟩
  have hnot : p.between = false := not_between hheld
  rw [hp] at hnot
  cases hnot

theorem Sound.serve (h : t.Sound pid) {s : Session} (hs : t.table[id]? = some (.receiving s)) {a : Act}
    {r : FS × Session × List Reply} (hstep : s.step env t.fs a = some r) (hpolite : t.polite pid (.serve id a) = true) :
    Sound pid { t.set id (.receiving r.2.1) with fs := r.1 } := by
  refine h.set hs ?_ ?_ ?_
  · intro hheld hl
    simp only [Entry.listed, Entry.registered, Entry.peer, Bool.and_eq_true, beq_iff_eq] at hl ⊢
    refine ⟨Session.registered_step hstep ?_ hl.1, (Session.peer_step hstep).trans hl.2⟩
    -- a session that the poll has found is not deleted
    rintro rfl
    simp [polite, hs, hl.2, not_between hheld] at hpolite
  · intro s' hs' hpeer hdone
    cases hs'
    exact ⟨r.2.1, rfl, (Session.peer_step hstep).trans hpeer, Session.done_step hstep hdone⟩
  · intro s' hs'
    cases hs'
    exact Session.active_step hstep (h.active id s hs)

theorem Sound.send (h : t.Sound pid) {o : Outgoing env} (ho : t.table[id]? = some (.sending o)) {a : SendAct}
    {r : Sender × List Frame} (hstep : Sender.step o.pay o.snd a = some r)
    (hpolite : t.polite pid (.send id a) = true) : (t.set id (.sending { o with snd := r.1 })).Sound pid := by
  refine h.set ho ?_ ?_ ?_
  · intro hheld hl
    simp only [Entry.listed, Entry.registered, Entry.peer, Bool.and_eq_true, beq_iff_eq] at hl ⊢
    refine ⟨(Sender.registered_step hstep ?_).trans hl.1, hl.2⟩
    rintro rfl
    simp [polite, ho, hl.2, not_between hheld] at hpolite
  · intro s hs
    cases hs
  · intro s hs
    cases hs

/-- What a move does. -/
inductive Moved (pid : String) (t : Sessions env) : Move env → Sessions env → Prop
  | accept {i peer} : Moved pid t (.accept i peer) { t with table := t.table ++ [.receiving { init := i, peer }] }
  | serve {id : Nat} {a s r} (hs : t.table[id]? = some (.receiving s)) (hr : s.step env t.fs a = some r) :
      Moved pid t (.serve id a) { t.set id (.receiving r.2.1) with fs := r.1 }
  | start {peer src pay} :
      Moved pid t (.start peer src pay) { t with table := t.table ++ [.sending ⟨peer, src, pay, {}⟩] }
  | send {id : Nat} {a o r} (ho : t.table[id]? = some (.sending o)) (hr : Sender.step o.pay o.snd a = some r) :
      Moved pid t (.send id a) (t.set id (.sending { o with snd := r.1 }))
  | call (hp : t.poll = .idle) : Moved pid t .call (t.goto .top)
  | found {id : Nat} {e} (hp : t.poll = .top) (he : t.table[id]? = some e) (hl : e.listed pid = true) :
      Moved pid t (.range (some id)) (t.goto (.found id))
  | nothing (hp : t.poll = .top) (hno : t.table.any (Entry.listed pid) = false) : Moved pid t (.range none) (t.goto .sleep)
  | load {id : Nat} (hp : t.poll = .found id) :
      Moved pid t .load (t.goto (if (t.table[id]?).any Entry.registered then .loaded id else .crashed))
  | read {id : Nat} {e} (hp : t.poll = .loaded id) (he : t.table[id]? = some e) :
      Moved pid t .read (t.goto (judge id e.state))
  | wake (hp : t.poll = .sleep) : Moved pid t .wake (t.goto .top)
  | expire (hp : t.poll = .top) : Moved pid t .expire (t.goto (.returned .context))

theorem moved (h : t.next pid m = some t') : Moved pid t m t' := by
  cases m with
  | accept i peer => exact Option.some.inj h ▸ .accept
  | start peer src pay => exact Option.some.inj h ▸ .start
  | serve id a =>
    simp only [Sessions.next] at h
    split at h
    · obtain ⟨r, hr, rfl⟩ := Option.map_eq_some_iff.1 h
      exact .serve (by assumption) hr
    · cases h
  | send id a =>
    simp only [Sessions.next] at h
    split at h
    · obtain ⟨r, hr, rfl⟩ := Option.map_eq_some_iff.1 h
      exact .send (by assumption) hr
    · cases h
  | call | wake | expire =>
    simp only [Sessions.next, Option.ite_none_right_eq_some] at h
    obtain ⟨hp, h⟩ := h
    cases h
    constructor
    exact hp
  | range found =>
    simp only [Sessions.next, Option.ite_none_right_eq_some] at h
    obtain ⟨hp, h⟩ := h
    cases found with
    | some id =>
      simp only [Option.ite_none_right_eq_some] at h
      obtain ⟨hany, h⟩ := h
      cases h
      obtain ⟨e, he, hl⟩ := (Option.any_eq_true _ _).1 hany
      exact .found hp he hl
    | none =>
      simp only [Option.ite_none_left_eq_some] at h
      exact Option.some.inj h.2 ▸ .nothing hp (Bool.eq_false_iff.2 h.1)
  | load =>
    simp only [Sessions.next] at h
    split at h
    · exact Option.some.inj h ▸ .load (by assumption)
    · cases h
  | read =>
    simp only [Sessions.next] at h
    split at h
    · obtain ⟨e, he, rfl⟩ := Option.map_eq_some_iff.1 h
      exact .read (by assumption) he
    · cases h

theorem Sound.next (h : t.Sound pid) (hpolite : t.polite pid m = true)
    (hnext : t.next pid m = some t') : t'.Sound pid := by
  cases moved hnext with
  | accept =>
    refine h.add fun s hs hactive => ?_
    cases hs
    cases hactive
  | serve hs hr => exact h.serve hs hr hpolite
  | start =>
    refine h.add fun s hs => ?_
    cases hs
  | send ho hr => exact h.send ho hr hpolite
  | found _ he hl =>
    refine ⟨fun id' hheld => ?_, fun id' htold => (by cases htold), h.active⟩
    rcases hheld with heq | heq
    · cases heq
      exact ⟨_, he, hl⟩
    · cases heq
  | @load id hp =>
    obtain ⟨e, he, hl⟩ := h.held id (.inl hp)
    have hreg : (t.table[id]?).any Entry.registered = true := by
      rw [he]
      simp only [Entry.listed, Bool.and_eq_true] at hl
      exact hl.1
    rw [if_pos hreg]
    refine ⟨fun id' hheld => ?_, fun id' htold => (by cases htold), h.active⟩
    rcases hheld with heq | heq
    · cases heq
    · cases heq
      exact ⟨e, he, hl⟩
  | @read id e hp he =>
    obtain ⟨e', he', hl⟩ := h.held id (.inr hp)
    cases he.symm.trans he'
    cases hstate : e.state with
    | done =>
      refine ⟨fun id' hheld => ?_, fun id' htold => ?_, h.active⟩
      · rcases hheld with heq | heq <;> cases heq
      · cases htold
        cases e with
        | receiving s =>
          simp only [Entry.listed, Entry.peer, Bool.and_eq_true, beq_iff_eq] at hl
          exact ⟨s, he, hl.2, hstate⟩
        | sending o =>
          -- no file that was sent to the peer is done
          have hno := List.all_eq_true.1 hpolite _ (List.mem_of_getElem? he)
          simp only [hl, Bool.true_and, Bool.not_eq_true', beq_eq_false_iff_ne] at hno
          exact absurd hstate hno
    | error | cancelled | init | transfer => exact h.goto rfl fun id' hno => by cases hno
  | nothing | call | wake | expire => exact h.goto rfl fun id hno => by cases hno

theorem sound_reach (h : (system pid fs).Reach (fun t m => t.polite pid m = true) t) : t.Sound pid := by
  refine h.invariant (I := Sound pid) ?_ fun t m t' _ ht hpolite hnext => ht.next hpolite hnext
  rintro t rfl
  refine ⟨fun id hheld => ?_, fun id htold => (by cases htold), fun id s hs => (by cases hs)⟩
  rcases hheld with heq | heq <;> cases heq

def Alone (pid : String) (id : Nat) (t : Sessions env) : Prop :=
  ∀ (id' : Nat) (e : Entry env), t.table[id']? = some e → e.listed pid = true → id' = id

def Ready (pid : String) (id : Nat) (t : Sessions env) : Prop :=
  ∃ s, t.table[id]? = some (.receiving s) ∧ s.peer = pid ∧ s.state = .done ∧
    (t.poll.polling = true → s.registered = true)

theorem Ready.next (h : t.Ready pid id) (hpolite : t.polite pid m = true)
    (hidle : t.poll ≠ .idle) (hnext : t.next pid m = some t') : t'.Ready pid id := by
  obtain ⟨s, hs, hpeer, hdone, hreg⟩ := h
  have hlt : id < t.table.length := (List.getElem?_eq_some_iff.1 hs).1
  -- the steps of `ReceiveFile` leave the sessions alone
  have hkeep : t'.table = t.table → t.poll.polling = true → t'.Ready pid id := by
    intro htable hp
    exact ⟨s, by rw [htable]; exact hs, hpeer, hdone, fun _ => hreg hp⟩
  cases moved hnext with
  | accept | start => exact ⟨s, by rw [List.getElem?_append_left hlt]; exact hs, hpeer, hdone, hreg⟩
  | @serve id' a s' r hs' hr =>
    by_cases hid : id' = id
    · subst hid
      cases hs.symm.trans hs'
      refine ⟨r.2.1, List.getElem?_set_self hlt, (Session.peer_step hr).trans hpeer, Session.done_step hr hdone,
        fun hp => Session.registered_step hr ?_ (hreg hp)⟩
      -- a session that is done is not deleted while `ReceiveFile` runs
      rintro rfl
      have hp' : t.poll.polling = true := hp
      simp [polite, hs, hpeer, hdone, hp'] at hpolite
    · exact ⟨s, (List.getElem?_set_ne hid).trans hs, hpeer, hdone, hreg⟩
  | @send id' a o r ho hr =>
    by_cases hid : id' = id
    · subst hid
      cases hs.symm.trans ho
    · exact ⟨s, (List.getElem?_set_ne hid).trans hs, hpeer, hdone, hreg⟩
  | call hp => exact absurd hp hidle
  | wake hp | expire hp | found hp | nothing hp | load hp | read hp => exact hkeep rfl (by rw [hp]; rfl)

/-- How far `ReceiveFile` has come since it had made `n` steps: it has returned the session, or is about to. -/
def Near (id n : Nat) (t : Sessions env) : Prop :=
  t.poll = .returned (.ok id) ∨ t.poll = .sleep ∧ t.polls = n ∨ t.poll = .top ∧ t.polls ≤ n + 1 ∨
    t.poll = .found id ∧ t.polls ≤ n + 2 ∨ t.poll = .loaded id ∧ t.polls ≤ n + 3

theorem Near.count {id n : Nat} (h : t.Near id n) :
    match t.poll with
    | .returned r => r = .ok id
    | .sleep => t.polls = n
    | .top => t.polls ≤ n + 1
    | .found id' => id' = id ∧ t.polls ≤ n + 2
    | .loaded id' => id' = id ∧ t.polls ≤ n + 3
    | .idle | .crashed => False := by
  rcases h with hp | ⟨hp, hn⟩ | ⟨hp, hn⟩ | ⟨hp, hn⟩ | ⟨hp, hn⟩ <;> rw [hp]
  · exact hn
  · exact hn
  · exact ⟨rfl, hn⟩
  · exact ⟨rfl, hn⟩

theorem Ready.listed (h : t.Ready pid id) (hp : t.poll.polling = true) :
    ∃ e, t.table[id]? = some e ∧ e.listed pid = true ∧ e.state = .done := by
  obtain ⟨s, hs, hpeer, hdone, hreg⟩ := h
  refine ⟨_, hs, ?_, hdone⟩
  simp [Entry.listed, Entry.registered, Entry.peer, hreg hp, hpeer]

theorem Near.next {id n : Nat} (h : t.Near id n) (hready : t.Ready pid id) (halone : t.Alone pid id)
    (hm : m ≠ .expire) (hnext : t.next pid m = some t') : t'.Near id n := by
  have hcount := h.count
  cases moved hnext with
  | accept | start | serve | send => exact h
  | call hp =>
    rw [hp] at hcount
    exact hcount.elim
  | found hp he hl =>
    rw [hp] at hcount
    obtain rfl := halone _ _ he hl
    exact .inr (.inr (.inr (.inl ⟨rfl, Nat.succ_le_succ hcount⟩)))
  | nothing hp hno =>
    -- the session is there to be found
    obtain ⟨e, he, hl, -⟩ := hready.listed (by rw [hp]; rfl)
    have hany : t.table.any (Entry.listed pid) = true := List.any_eq_true.2 ⟨e, List.mem_of_getElem? he, hl⟩
    cases hno.symm.trans hany
  | @load id' hp =>
    rw [hp] at hcount
    obtain ⟨rfl, hn⟩ := hcount
    obtain ⟨e, he, hl, -⟩ := hready.listed (by rw [hp]; rfl)
    have hreg : (t.table[id']?).any Entry.registered = true := by
      rw [he]
      simp only [Entry.listed, Bool.and_eq_true] at hl
      exact hl.1
    rw [if_pos hreg]
    exact .inr (.inr (.inr (.inr ⟨rfl, Nat.succ_le_succ hn⟩)))
  | read hp he =>
    rw [hp] at hcount
    obtain ⟨rfl, -⟩ := hcount
    obtain ⟨e', he', -, hdone⟩ := hready.listed (by rw [hp]; rfl)
    cases he.symm.trans he'
    rw [hdone]
    exact .inl rfl
  | wake hp =>
    rw [hp] at hcount
    exact .inr (.inr (.inl ⟨rfl, Nat.succ_le_succ (Nat.le_of_eq hcount)⟩))
  | expire => exact absurd rfl hm

def Move.ofPoll : Move env → Bool
  | range _ | load | read | wake => true
  | _ => false

theorem Near.enabled {id n : Nat} (h : t.Near id n) (hready : t.Ready pid id) :
    t.poll = .returned (.ok id) ∨ t.polls < n + 4 ∧ ∃ m t', m.ofPoll = true ∧ t.next pid m = some t' := by
  rcases h with hp | ⟨hp, hn⟩ | ⟨hp, hn⟩ | ⟨hp, hn⟩ | ⟨hp, hn⟩
  · exact .inl hp
  · exact .inr ⟨by omega, .wake, _, rfl, if_pos hp⟩
  · obtain ⟨e, he, hl, -⟩ := hready.listed (by rw [hp]; rfl)
    refine .inr ⟨by omega, .range (some id), t.goto (.found id), rfl, ?_⟩
    simp [Sessions.next, hp, he, hl]
  · refine .inr ⟨by omega, .load, t.goto (if (t.table[id]?).any Entry.registered then .loaded id else .crashed), rfl, ?_⟩
    simp only [Sessions.next, hp]
  · obtain ⟨e, he, -, -⟩ := hready.listed (by rw [hp]; rfl)
    refine .inr ⟨by omega, .read, t.goto (judge id e.state), rfl, ?_⟩
    simp [Sessions.next, hp, he]

/-- In a polite run `ReceiveFile` reports only files that were received from the peer; and a session of the peer that
becomes done while it runs, alone in `sessions`, is reported within four steps of `ReceiveFile`, which always has a
step to make. -/
theorem receiveFile_exact (h : (system pid fs).Reach (fun t m => t.polite pid m = true) t) :
    (∀ id, t.poll = .returned (.ok id) → ∃ s, t.table[id]? = some (.receiving s) ∧ s.peer = pid ∧ s.state = .done) ∧
      ∀ (id : Nat) (s : Session) (t₁ t₂ : Sessions env), t.table[id]? = some (.receiving s) → s.peer = pid →
        t.poll.polling = true → t.next pid (.serve id .finish) = some t₁ → t₁.Alone pid id →
        (system pid fs).Steps (fun t m => t.polite pid m = true ∧ m ≠ .expire ∧ t.Alone pid id) t₁ t₂ →
        t₂.poll = .returned (.ok id) ∨
          t₂.polls < t₁.polls + 4 ∧ ∃ m t₃, m.ofPoll = true ∧ t₂.next pid m = some t₃ := by
  have hsound := sound_reach h
  refine ⟨hsound.told, fun id s t₁ t₂ hs hpeer hp hfinish halone hsteps => ?_⟩
  have hsound₁ : t₁.Sound pid := hsound.next rfl hfinish
  obtain ⟨r, hr, rfl⟩ : ∃ r, s.step env t.fs .finish = some r ∧ { t.set id (.receiving r.2.1) with fs := r.1 } = t₁ := by
    cases moved hfinish with
    | serve hs' hr =>
      cases hs.symm.trans hs'
      exact ⟨_, hr, rfl⟩
  obtain ⟨hst, hr'⟩ : s.stage = .renamed ∧ r.2.1.state = .done := by
    cases Session.stepped hr with
    | finished hst => exact ⟨hst, rfl⟩
  have hlt : id < t.table.length := (List.getElem?_eq_some_iff.1 hs).1
  have hready : Ready pid id { t.set id (.receiving r.2.1) with fs := r.1 } := by
    refine ⟨r.2.1, List.getElem?_set_self hlt, (Session.peer_step hr).trans hpeer, hr', fun _ => ?_⟩
    refine Session.registered_step hr (fun hno => by cases hno) (hsound.active id s hs ?_)
    rw [hst]
    rfl
  have hnear : Near id t.polls { t.set id (.receiving r.2.1) with fs := r.1 } := by
    cases hpoll : t.poll with
    | top => exact .inr (.inr (.inl ⟨hpoll, Nat.le_succ _⟩))
    | sleep => exact .inr (.inl ⟨hpoll, rfl⟩)
    | found id' =>
      obtain ⟨e, he, hl⟩ := hsound₁.held id' (.inl hpoll)
      obtain rfl := halone id' e he hl
      exact .inr (.inr (.inr (.inl ⟨hpoll, Nat.le_add_right _ _⟩)))
    | loaded id' =>
      obtain ⟨e, he, hl⟩ := hsound₁.held id' (.inr hpoll)
      obtain rfl := halone id' e he hl
      exact .inr (.inr (.inr (.inr ⟨hpoll, Nat.le_add_right _ _⟩)))
    | idle | returned res | crashed =>
      rw [hpoll] at hp
      cases hp
  have hend := hsteps.induction (I := fun u => u.Ready pid id ∧ u.Near id t.polls) ⟨hready, hnear⟩ ?_
  · exact hend.2.enabled hend.1
  · rintro u m v ⟨hu, hn⟩ ⟨hpolite, hm, halone'⟩ hnext
    have hidle : u.poll ≠ .idle := by
      intro hno
      have hcount := hn.count
      rwa [hno] at hcount
    exact ⟨hu.next hpolite hidle hnext, hn.next hu halone' hm hnext⟩

def oneByteInit : Init := Transfer.byteSource.init Transfer.byteEnv 0

/-- `ReceiveFile` is called, and a file of one byte arrives up to its renaming. -/
def receiveByte : List (Move Transfer.byteEnv) :=
  [.call, .accept oneByteInit "peer", .serve 0 (.begin true true), .serve 0 (.prepare true), .serve 0 (.accept true),
    .serve 0 (.recv (Transfer.byteSource.frame Transfer.byteEnv 0) .ok), .serve 0 (.recv ⟨frameTypeFin, []⟩ .ok),
    .serve 0 .openPart, .serve 0 (.hash 1), .serve 0 .hashEnd, .serve 0 (.rename true)]

def pollFirst : List (Move Transfer.byteEnv) := [.range (some 0), .load, .read]

def byteSystem : System (Sessions Transfer.byteEnv) (Move Transfer.byteEnv) := system "peer" (.ofFiles fun _ => none)

def byteStart : Sessions Transfer.byteEnv := ⟨.ofFiles fun _ => none, [], .idle, 0⟩

theorem receiveFile_exact_byte :
    ∃ t, byteSystem.Reach (fun t m => t.polite "peer" m = true) t ∧ t.poll = .returned (.ok 0) ∧
      ∃ s, t.table[0]? = some (.receiving s) ∧ s.peer = "peer" ∧ s.state = .done := by
  have hreach : byteSystem.Reach (fun t m => t.polite "peer" m = true) _ :=
    ⟨_, rfl, exec_steps_getD
      (show (exec (next "peer") byteStart (receiveByte ++ [.serve 0 .finish] ++ pollFirst)).isSome = true by
        decide +kernel)
      (by decide +kernel)⟩
  have hpoll : ((exec (next "peer") byteStart (receiveByte ++ [.serve 0 .finish] ++ pollFirst)).getD byteStart).poll =
      .returned (.ok 0) := by decide +kernel
  exact ⟨_, hreach, hpoll, (receiveFile_exact hreach).1 0 hpoll⟩

def sendByte : List (Move Transfer.byteEnv) :=
  [.call, .start "peer" Transfer.byteSource Transfer.bytePayloads, .send 0 (.connect true), .send 0 (.writeInit true),
    .send 0 (.readAccept (some (.accept 0))), .send 0 (.enter false), .send 0 (.chunk .ok), .send 0 (.chunk .ok),
    .send 0 (.readAck (some (.ack 0))), .send 0 (.enter false), .send 0 (.writeFin true), .send 0 (.readDone (some .done))]

def pollNothing : List (Move Transfer.byteEnv) := [.range none, .wake, .range none, .wake]

/-- `ReceiveFile` reports a file that was sent; and it misses a file that was received, since the session deletes
itself before the next poll. -/
theorem receiveFile_reports_sent_and_misses :
    (∃ t, byteSystem.Reach anyStep t ∧ t.poll = .returned (.ok 0) ∧ ∃ o, t.table[0]? = some (.sending o)) ∧
      ∃ t₁ t₂, byteSystem.Reach anyStep t₁ ∧ t₁.poll = .top ∧ (t₁.table.map Entry.state) = [.done] ∧
        byteSystem.Steps anyStep t₁ t₂ ∧ t₁.polls + 4 = t₂.polls ∧ t₂.poll = .top ∧
        t₂.table.any (Entry.listed "peer") = false := by
  have hsent : byteSystem.Reach anyStep _ :=
    ⟨_, rfl, exec_steps_getD
      (show (exec (next "peer") byteStart (sendByte ++ pollFirst)).isSome = true by decide +kernel)
      (execMeets_anyStep _ _ _)⟩
  have hdone : byteSystem.Reach anyStep _ :=
    ⟨_, rfl, exec_steps_getD
      (show (exec (next "peer") byteStart (receiveByte ++ [.serve 0 .finish])).isSome = true by decide +kernel)
      (execMeets_anyStep _ _ _)⟩
  have hmiss : byteSystem.Steps anyStep _ _ :=
    exec_steps_getD
      (show (exec (next "peer") ((exec (next "peer") byteStart (receiveByte ++ [.serve 0 .finish])).getD byteStart)
        ([.serve 0 (.done true), .serve 0 .delete] ++ pollNothing)).isSome = true by decide +kernel)
      (execMeets_anyStep _ _ _)
  exact ⟨⟨_, hsent, by decide +kernel, _, rfl⟩,
    ⟨_, _, hdone, by decide +kernel, by decide +kernel, hmiss, by decide +kernel, by decide +kernel, by decide +kernel⟩⟩

end Sessions

end Libp2px.RelayFile
