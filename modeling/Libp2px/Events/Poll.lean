import Libp2px.Lib.Transition
import Libp2px.Events.Hub

/-!
# A client that polls for events

One client calls `onEvents` again and again with a list of topics `T` and with `after`, the largest id that it has
received, while `broadcastLoop` and the topic listeners produce events.  Each producer first offers its event to the
channel of a running poll and then pushes it, with a new id, to the buffer of its topic.

A poll reads the buffers, but keeps at most `maxCap`, that is none, of the events in them.  So an event reaches the
client only through the channel, and is lost when it is fired between two polls or left in the channel of a poll
that returns.
-/

namespace Libp2px.Events

open Transition

variable {V : Type}

inductive Source
  | broadcastLoop
  | topicListener (topic : String)
  deriving DecidableEq, Repr

/-- Where a call of `onEvents` is: the topics whose buffers are still to be read, the three phases with what was
collected, or the deferred deregistration is still to come. -/
inductive Phase (V : Type)
  | replay (rest : List String) (events : List (Event V))
  | drain (events : List (Event V))
  | wait
  | collect (events : List (Event V))
  | leave

/-- A running `onEvents`: the events in its channel, its `after`, and where it is. -/
structure Poll (V : Type) where
  ch : List (Event V)
  after : Int
  phase : Phase V

def chanCap : Nat := 128

def batchSize : Nat := 20

structure State (V : Type) where
  topicBuf : TopicBuf V
  /-- the events that were offered to the clients and are not yet in their buffer -/
  pending : List (Source × Event V)
  poll : Option (Poll V)
  /-- the events that were fired, in order -/
  fired : List (Event V)
  /-- the events in the responses that the client got, in order -/
  received : List (Event V)

def State.start : State V := ⟨fun _ => .empty, [], none, [], []⟩

def State.after (s : State V) : Int := s.received.foldl (fun m e => max m e.eventID) 0

inductive Act (V : Type)
  | register
  | replay
  | recv
  | idle
  | timeout
  | gone
  | leave
  | broadcast (raw : Raw V) (now : Int)
  | listen (topic : String) (value : V) (now : Int)
  | push (src : Source) (now : Int)

/-- Whether a client with the topics `T` is offered an event of `src`. -/
def offered (T : List String) : Source → Bool
  | .broadcastLoop => decide (0 ∈ fireClients (Registry.empty.register 0 T))
  | .topicListener topic => decide (0 ∈ listenerClients (Registry.empty.register 0 T) topic)

/-- A send that does not block. -/
def offer (ch : List (Event V)) (evt : Event V) : List (Event V) := if ch.length < chanCap then ch ++ [evt] else ch

def truncate (events : List (Event V)) : List (Event V) :=
  let events := events.mergeSort fun e f => decide (e.eventID ≤ f.eventID)
  if events.length > maxCap then events.take maxCap else events

namespace State

def respond (s : State V) (p : Poll V) (events : List (Event V)) : State V :=
  { s with received := s.received ++ events, poll := some { p with phase := .leave } }

/-- A poll that has one more event goes on collecting or responds. -/
def gather (s : State V) (p : Poll V) (phase : List (Event V) → Phase V) (events : List (Event V)) : State V :=
  if events.length < batchSize then { s with poll := some { p with phase := phase events } } else s.respond p events

/-- A producer fires an event; it has pushed its last one. -/
def fire (T : List String) (s : State V) (src : Source) (evt : Event V) : Option (State V) :=
  if src ∈ s.pending.map (·.1) then none
  else
    some { s with
      pending := s.pending ++ [(src, evt)]
      fired := s.fired ++ [evt]
      poll := s.poll.map fun p => if offered T src then { p with ch := offer p.ch evt } else p }

def pollStep (s : State V) (p : Poll V) : Act V → Option (State V)
  | .replay =>
    match p.phase with
    | .replay (t :: rest) events =>
      some { s with poll := some { p with phase := .replay rest (events ++ (s.topicBuf t).replay p.after) } }
    | .replay [] events =>
      if (truncate events).length > 0 then some (s.respond p (truncate events))
      else some { s with poll := some { p with phase := .drain (truncate events) } }
    | _ => none
  | .recv =>
    match p.ch, p.phase with
    | evt :: ch, .drain events => some (s.gather { p with ch := ch } .drain (events ++ [evt]))
    | evt :: ch, .wait => some (s.gather { p with ch := ch } .collect [evt])
    | evt :: ch, .collect events => some (s.gather { p with ch := ch } .collect (events ++ [evt]))
    | _, _ => none
  | .idle =>
    match p.ch, p.phase with
    | [], .drain events =>
      some { s with poll := some { p with phase := if events.length > 0 then .collect events else .wait } }
    | _, _ => none
  | .timeout =>
    match p.phase with
    | .wait => some { s with poll := some { p with phase := .leave } }
    | .collect events => some (s.respond p events)
    | _ => none
  | .gone =>
    match p.phase with
    | .wait => some { s with poll := some { p with phase := .leave } }
    | .collect _ => some { s with poll := some { p with phase := .leave } }
    | _ => none
  | .leave =>
    match p.phase with
    | .leave => some { s with poll := none }
    | _ => none
  | _ => none

def next (T : List String) (s : State V) : Act V → Option (State V)
  | .register =>
    match s.poll with
    | none => some { s with poll := some ⟨[], s.after, .replay (T ++ [""]) []⟩ }
    | some _ => none
  | .broadcast raw now => s.fire T .broadcastLoop (broadcastEvent now raw)
  | .listen topic value now => s.fire T (.topicListener topic) ⟨now, "pubsub", topic, value⟩
  | .push src now =>
    (s.pending.find? (·.1 == src)).map fun e =>
      { s with topicBuf := pushToBuf s.topicBuf now e.2, pending := s.pending.filter (·.1 ≠ src) }
  | a => s.poll.bind fun p => s.pollStep p a

def system (T : List String) : System (State V) (Act V) := .ofNext (· = .start) (next T)

/-! ### What is on its way to the client -/

def held (s : State V) : List (Event V) :=
  match s.poll with
  | none => []
  | some p =>
    match p.phase with
    | .drain events => events ++ p.ch
    | .collect events => events ++ p.ch
    | _ => p.ch

/-- An event that the client wants: on one of its topics, or on the empty topic. -/
def wanted (T : List String) (evt : Event V) : Bool := decide (evt.topic ∈ T ∨ evt.topic = "")

/-- A producer fires an event that the client wants only while a poll is registered for it whose channel has room. -/
def meetsPoll (T : List String) (s : State V) (src : Source) (evt : Event V) : Bool :=
  !wanted T evt || s.poll.any fun p => offered T src && decide (p.ch.length < chanCap)

def unwanted (T : List String) (events : List (Event V)) : Bool := events.all fun e => !wanted T e

/-- An event that the client wants is fired while a poll takes it, and no poll is given up or returns with such an
event in its hands. -/
def kept (T : List String) (s : State V) : Act V → Bool
  | .broadcast raw now => s.meetsPoll T .broadcastLoop (broadcastEvent now raw)
  | .listen topic value now => s.meetsPoll T (.topicListener topic) ⟨now, "pubsub", topic, value⟩
  | .gone =>
    s.poll.all fun p =>
      match p.phase with
      | .collect events => unwanted T events
      | _ => true
  | .leave => s.poll.all fun p => unwanted T p.ch
  | _ => true

variable {T : List String}

theorem filter_of_unwanted {events : List (Event V)} (h : unwanted T events = true) :
    events.filter (wanted T) = [] := by
  rw [List.filter_eq_nil_iff]
  intro e he
  simpa using List.all_eq_true.1 h e he

/-- Each wanted event that was fired is in one response or still with the poll, once and in order. -/
def Exact (T : List String) (s : State V) : Prop :=
  (s.received ++ s.held).filter (wanted T) = s.fired.filter (wanted T)

theorem truncate_eq_nil (events : List (Event V)) : truncate events = [] := by
  unfold truncate maxCap
  generalize (events.mergeSort fun e f => decide (e.eventID ≤ f.eventID)) = sorted
  cases sorted with
  | nil => rfl
  | cons e sorted => rfl

theorem Exact.gather {s : State V} {p : Poll V} {phase : List (Event V) → Phase V}
    {events : List (Event V)} (hphase : phase = .drain ∨ phase = .collect)
    (h : (s.received ++ (events ++ p.ch)).filter (wanted T) = s.fired.filter (wanted T)) :
    (s.gather p phase events).Exact T := by
  unfold State.gather
  split
  · rcases hphase with rfl | rfl
    · exact h
    · exact h
  · rw [← List.append_assoc] at h
    exact h

theorem Exact.fire {s s' : State V} {src : Source} {evt : Event V} (h : s.Exact T)
    (hmeets : s.meetsPoll T src evt = true) (hfire : s.fire T src evt = some s') : s'.Exact T := by
  simp only [State.fire, Option.ite_none_left_eq_some] at hfire
  obtain ⟨-, hfire⟩ := hfire
  cases hfire
  unfold Exact at h ⊢
  rw [List.filter_append (s.fired), ← h, ← List.filter_append, List.append_assoc]
  by_cases hwanted : wanted T evt = true
  · -- the poll takes the event: it comes last in what is held
    simp only [meetsPoll, hwanted, Bool.not_true, Bool.false_or, Option.any_eq_true_iff_get, Bool.and_eq_true,
      decide_eq_true_eq] at hmeets
    obtain ⟨hsome, hoff, hroom⟩ := hmeets
    obtain ⟨p, hp⟩ := Option.isSome_iff_exists.1 hsome
    simp only [hp, Option.get_some] at hroom
    have hheld : ({ s with
        pending := s.pending ++ [(src, evt)], fired := s.fired ++ [evt],
        poll := s.poll.map fun p => if offered T src then { p with ch := offer p.ch evt } else p } : State V).held =
          s.held ++ [evt] := by
      obtain ⟨ch, after, phase⟩ := p
      simp only at hroom
      cases phase <;> simp [held, hp, hoff, offer, hroom]
    rw [hheld]
  · have hheld : ({ s with
        pending := s.pending ++ [(src, evt)], fired := s.fired ++ [evt],
        poll := s.poll.map fun p => if offered T src then { p with ch := offer p.ch evt } else p } : State V).held.filter
          (wanted T) = (s.held ++ [evt]).filter (wanted T) := by
      cases hp : s.poll with
      | none => simp [held, hp, hwanted]
      | some p =>
        obtain ⟨ch, after, phase⟩ := p
        have hoffer : (offer ch evt).filter (wanted T) = ch.filter (wanted T) := by
          unfold offer
          split
          · simp [hwanted]
          · rfl
        by_cases hoff : offered T src = true
        · cases phase <;> simp [held, hp, hoff, hwanted, hoffer]
        · cases phase <;> simp [held, hp, hoff, hwanted]
    rw [List.filter_append, hheld, ← List.filter_append]

theorem Exact.pollStep {s s' : State V} {p : Poll V} {a : Act V} (h : s.Exact T)
    (hp : s.poll = some p) (hkept : s.kept T a = true) (hstep : s.pollStep p a = some s') : s'.Exact T := by
  obtain ⟨ch, after, phase⟩ := p
  unfold Exact at h
  simp only [held, hp] at h
  cases a with
  | replay =>
    cases phase with
    | replay rest events =>
      cases rest with
      | cons t rest =>
        cases hstep
        exact h
      | nil =>
        simp only [State.pollStep, truncate_eq_nil] at hstep
        cases hstep
        exact h
    | _ => cases hstep
  | recv =>
    cases ch with
    | nil => cases phase <;> cases hstep
    | cons evt ch =>
      cases phase with
      | drain events =>
        cases hstep
        exact Exact.gather (.inl rfl) (by simpa using h)
      | wait =>
        cases hstep
        exact Exact.gather (.inr rfl) h
      | collect events =>
        cases hstep
        exact Exact.gather (.inr rfl) (by simpa using h)
      | _ => cases hstep
  | idle =>
    cases ch with
    | cons evt ch => cases phase <;> cases hstep
    | nil =>
      cases phase with
      | drain events =>
        cases hstep
        cases events with
        | nil => exact h
        | cons e events => exact h
      | _ => cases hstep
  | timeout =>
    cases phase with
    | wait =>
      cases hstep
      exact h
    | collect events =>
      cases hstep
      simpa [Exact, held, State.respond] using h
    | _ => cases hstep
  | gone =>
    cases phase with
    | wait =>
      cases hstep
      exact h
    | collect events =>
      cases hstep
      simp only [kept, hp, Option.all_some] at hkept
      have hnone := filter_of_unwanted hkept
      rw [List.filter_append, List.filter_append, hnone, List.nil_append, ← List.filter_append] at h
      exact h
    | _ => cases hstep
  | leave =>
    cases phase with
    | leave =>
      cases hstep
      simp only [kept, hp, Option.all_some] at hkept
      have hnone := filter_of_unwanted hkept
      rw [List.filter_append, hnone, List.append_nil] at h
      simpa [Exact, held] using h
    | _ => cases hstep
  | _ => cases hstep

theorem Exact.next {s s' : State V} {a : Act V} (h : s.Exact T) (hkept : s.kept T a = true)
    (hnext : s.next T a = some s') : s'.Exact T := by
  cases a with
  | register =>
    cases hp : s.poll with
    | some p =>
      rw [State.next, hp] at hnext
      cases hnext
    | none =>
      rw [State.next, hp] at hnext
      cases hnext
      unfold Exact at h ⊢
      simpa [held, hp] using h
  | broadcast raw now => exact h.fire hkept hnext
  | listen topic value now => exact h.fire hkept hnext
  | push src now =>
    simp only [State.next, Option.map_eq_some_iff] at hnext
    obtain ⟨e, -, rfl⟩ := hnext
    exact h
  | replay | recv | idle | timeout | gone | leave =>
    obtain ⟨p, hp, hstep⟩ := Option.bind_eq_some_iff.1 hnext
    exact h.pollStep hp hkept hstep

/-- In a run whose steps are all `kept`, each event that the client wants is delivered exactly once and in order;
without a running poll all of them are in responses. -/
theorem events_delivered_once {s : State V} (h : (system T).Reach (fun s a => s.kept T a = true) s) :
    (s.received ++ s.held).filter (wanted T) = s.fired.filter (wanted T) ∧
      (s.poll = none → s.received.filter (wanted T) = s.fired.filter (wanted T)) := by
  have hexact : s.Exact T := by
    refine h.invariant (I := Exact T) ?_ ?_
    · rintro s rfl
      rfl
    · intro s a s' _ hs hkept hnext
      exact hs.next hkept hnext
  refine ⟨hexact, fun hnone => ?_⟩
  have hheld : s.held = [] := by simp [held, hnone]
  have hall : (s.received ++ s.held).filter (wanted T) = s.fired.filter (wanted T) := hexact
  rwa [hheld, List.append_nil] at hall

def pollOne : List (Act Nat) :=
  [.register, .listen "a" 7 5, .replay, .replay, .push (.topicListener "a") 6, .replay, .recv, .idle, .timeout, .leave]

theorem events_delivered_once_one :
    ∃ s, (system ["a"]).Reach (fun s a => s.kept ["a"] a = true) s ∧ s.received = [⟨5, "pubsub", "a", 7⟩] ∧
      s.received.filter (wanted ["a"]) = s.fired.filter (wanted ["a"]) := by
  have hreach : (system ["a"]).Reach (fun s a => s.kept ["a"] a = true) _ :=
    ⟨_, rfl, exec_steps_getD (show (exec (next ["a"]) State.start pollOne).isSome = true by decide +kernel)
      (by decide +kernel)⟩
  exact ⟨_, hreach, by decide +kernel, (events_delivered_once hreach).2 (by decide +kernel)⟩

def missBetween : List (Act Nat) :=
  [.register, .replay, .replay, .replay, .idle, .timeout, .leave, .listen "a" 7 5, .push (.topicListener "a") 6,
    .register, .replay, .replay, .replay, .idle, .timeout, .leave]

/-- An event that was fired between two polls is not in the response of the second, though it was in the buffer with
an id above `after`. -/
theorem event_between_polls_lost :
    ∃ s : State Nat, (system ["a"]).Reach anyStep s ∧ s.poll = none ∧ s.fired = [⟨5, "pubsub", "a", 7⟩] ∧
      (s.topicBuf "a").replay s.after = [⟨6, "pubsub", "a", 7⟩] ∧ s.received = [] := by
  have hreach : (system ["a"]).Reach anyStep _ :=
    ⟨_, rfl, exec_steps_getD (show (exec (next ["a"]) State.start missBetween).isSome = true by decide +kernel)
      (execMeets_anyStep _ _ _)⟩
  exact ⟨_, hreach, by decide +kernel, by decide +kernel, by decide +kernel, by decide +kernel⟩

end State

end Libp2px.Events
