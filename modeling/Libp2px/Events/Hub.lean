import Mathlib.Data.List.Nodup

/-!
# Events and their clients

The event part of `p2put/utapi.go`, the registration of a client in `onEvents` (`p2put/restapi.go`) and the two ways
of a pubsub message to the clients (`p2put/pso_pubsub.go`): `topicListener`, which looks at `clientTopics`, and
`handlePubSubFwdStream`, which leaves the message to `broadcastLoop` and its `fireClients`, which looks at `clients`.

The value of an event is of any type, a channel is its number, and a clock reading is an argument.
-/

namespace Libp2px.Events

variable {V : Type}

structure Event (V : Type) where
  eventID : Int
  type : String
  topic : String
  value : V
  deriving DecidableEq, Repr

def eventBufCap : Nat := 128

def maxCap : Nat := 0

/-! ### The buffers of the topics -/

structure EventBuffer (V : Type) where
  events : List (Event V)
  lastID : Int

namespace EventBuffer

/-- The buffer that `LoadOrStore` stores. -/
def empty : EventBuffer V := ⟨[], 0⟩

/-- `push` at the clock reading `now`: a new id, and the oldest event is dropped when the buffer is full. -/
def push (eb : EventBuffer V) (now : Int) (evt : Event V) : EventBuffer V :=
  let id := if now ≤ eb.lastID then eb.lastID + 1 else now
  let events := eb.events ++ [{ evt with eventID := id }]
  { events := if events.length > eventBufCap then events.drop (events.length - eventBufCap) else events
    lastID := id }

def replay (eb : EventBuffer V) (afterID : Int) : List (Event V) :=
  eb.events.filter fun e => decide (e.eventID > afterID)

end EventBuffer

/-- `topicBuf`; a topic that has none yet stands for one with an empty buffer. -/
abbrev TopicBuf (V : Type) := String → EventBuffer V

def pushToBuf (topicBuf : TopicBuf V) (now : Int) (evt : Event V) : TopicBuf V :=
  Function.update topicBuf evt.topic ((topicBuf evt.topic).push now evt)

/-! ### The clients -/

abbrev Chan := Nat

/-- The two maps under `clientsMu`. -/
structure Registry where
  clients : List Chan
  clientTopics : List (Chan × List String)
  deriving DecidableEq, Repr

namespace Registry

def empty : Registry := ⟨[], []⟩

/-- What `onEvents` does under the lock with its new channel. -/
def register (reg : Registry) (ch : Chan) (topics : List String) : Registry where
  clients := reg.clients ++ [ch]
  clientTopics := if topics.length > 0 then reg.clientTopics ++ [(ch, topics)] else reg.clientTopics

/-- What `onEvents` does under the lock when it returns. -/
def deregister (reg : Registry) (ch : Chan) : Registry where
  clients := reg.clients.filter (· ≠ ch)
  clientTopics := reg.clientTopics.filter (·.1 ≠ ch)

end Registry

def hasTopic (topics : List String) (topic : String) : Bool := topics.any (· == topic)

theorem hasTopic_iff {topics : List String} {topic : String} : hasTopic topics topic = true ↔ topic ∈ topics := by
  simp [hasTopic]

def fireClients (reg : Registry) : List Chan := reg.clients

/-! ### A pubsub message -/

/-- The fields of a pubsub message that the event carries, as texts. -/
structure Message where
  id : String
  sender : String
  data : String
  seqno : String
  topic : String
  receivedFrom : String
  deriving DecidableEq, Repr

structure PubsubEvent where
  sender : String
  data : String
  seqno : String
  topic : String
  receivedFrom : String
  deriving DecidableEq, Repr

def Message.toPubsubEvent (msg : Message) : PubsubEvent :=
  ⟨msg.sender, msg.data, msg.seqno, msg.topic, msg.receivedFrom⟩

/-- What `rawChan` carries: an event made elsewhere, or any other value with the name of its type. -/
inductive Raw (V : Type)
  | event (e : Event V)
  | other (type : String) (value : V)

/-- The event that `broadcastLoop` makes of a raw value. -/
def broadcastEvent (now : Int) : Raw V → Event V
  | .event e => ⟨now, e.type, e.topic, e.value⟩
  | .other type value => ⟨now, type, "", value⟩

/-- What `handlePubSubFwdStream` puts on `rawChan`, unless the message is a duplicate. -/
def handlePubSubFwdStream (seen : List String) (msg : Message) : Option (Raw PubsubEvent) :=
  if msg.id ∈ seen then none else some (.event ⟨0, "pubsub", msg.topic, msg.toPubsubEvent⟩)

/-- The event of a message on a forward stream, and the channels it is offered to. -/
def forward (reg : Registry) (seen : List String) (now : Int) (msg : Message) :
    Option (Event PubsubEvent) × List Chan :=
  match handlePubSubFwdStream seen msg with
  | none => (none, [])
  | some raw => (some (broadcastEvent now raw), fireClients reg)

def listenerClients (reg : Registry) (topic : String) : List Chan :=
  (reg.clientTopics.filter fun c => hasTopic c.2 topic).map (·.1)

/-- The event of a message of the subscription to `topic`, and the channels it is offered to. -/
def topicListener (reg : Registry) (seen : List String) (now : Int) (topic : String) (msg : Message) :
    Option (Event PubsubEvent) × List Chan :=
  if msg.id ∈ seen then (none, [])
  else (some ⟨now, "pubsub", topic, msg.toPubsubEvent⟩, listenerClients reg topic)

/-! ### Which clients a message is offered to -/

inductive RegAct
  | enter (ch : Chan) (topics : List String)
  | leave (ch : Chan)
  deriving DecidableEq, Repr

/-- The registry and the clients that are polling, each with the topics that it asked for. -/
structure Population where
  reg : Registry
  polling : List (Chan × List String)

def Population.next (p : Population) : RegAct → Option Population
  | .enter ch topics =>
    if ch ∈ p.polling.map (·.1) then none
    else some ⟨p.reg.register ch topics, p.polling ++ [(ch, topics)]⟩
  | .leave ch =>
    if ch ∈ p.polling.map (·.1) then some ⟨p.reg.deregister ch, p.polling.filter (·.1 ≠ ch)⟩ else none

inductive Population.Reachable : Population → Prop
  | start : Reachable ⟨.empty, []⟩
  | next {p p' : Population} {a : RegAct} : Reachable p → p.next a = some p' → Reachable p'

variable {p : Population}

theorem Population.Reachable.reg_eq (h : p.Reachable) :
    p.reg.clients = p.polling.map (·.1) ∧ p.reg.clientTopics = p.polling.filter (·.2.length > 0) := by
  induction h with
  | start => exact ⟨rfl, rfl⟩
  | @next p p' a _ hnext ih =>
    obtain ⟨hclients, htopics⟩ := ih
    cases a with
    | enter ch topics =>
      simp only [Population.next, Option.ite_none_left_eq_some] at hnext
      obtain ⟨-, h⟩ := hnext
      cases h
      refine ⟨by simp [Registry.register, hclients], ?_⟩
      by_cases hlen : topics.length > 0
      · simp [Registry.register, htopics, hlen, List.filter_append]
      · simp [Registry.register, htopics, hlen, List.filter_append]
    | leave ch =>
      simp only [Population.next, Option.ite_none_right_eq_some] at hnext
      obtain ⟨-, h⟩ := hnext
      cases h
      refine ⟨?_, ?_⟩
      · simp [Registry.deregister, hclients, List.filter_map, Function.comp_def]
      · simp only [Registry.deregister, htopics, List.filter_filter]
        exact List.filter_congr fun c _ => Bool.and_comm _ _

def Population.asked (p : Population) (topic : String) : List Chan :=
  (p.polling.filter fun c => hasTopic c.2 topic).map (·.1)

theorem Population.Reachable.listenerClients_eq (h : p.Reachable) (topic : String) :
    listenerClients p.reg topic = p.asked topic := by
  unfold listenerClients Population.asked
  rw [h.reg_eq.2, List.filter_filter]
  congr 1
  apply List.filter_congr
  intro c _
  by_cases hasked : hasTopic c.2 topic = true
  · have hpos : 0 < c.2.length := List.length_pos_of_mem (hasTopic_iff.1 hasked)
    simp [hasked, hpos]
  · simp [hasked]

theorem Population.Reachable.nodup (h : p.Reachable) : (p.polling.map (·.1)).Nodup := by
  induction h with
  | start => exact List.nodup_nil
  | @next p p' a _ hnext ih =>
    cases a with
    | enter ch topics =>
      simp only [Population.next, Option.ite_none_left_eq_some] at hnext
      obtain ⟨hnew, h⟩ := hnext
      cases h
      rw [List.map_append, List.map_singleton, List.nodup_append]
      refine ⟨ih, List.nodup_singleton ch, ?_⟩
      rintro ch' ha b hb rfl
      have hch : ch' = ch := List.mem_singleton.1 hb
      exact hnew (hch ▸ ha)
    | leave ch =>
      simp only [Population.next, Option.ite_none_right_eq_some] at hnext
      obtain ⟨-, h⟩ := hnext
      cases h
      exact ih.sublist (List.filter_sublist.map _)

/-- A message that was not seen before is offered, on both ways, to exactly the clients that asked for its topic, if
and only if every polling client asked for that topic. -/
theorem both_paths_offer_iff (h : p.Reachable) (seen : List String) (now : Int) (msg : Message)
    (hnew : msg.id ∉ seen) :
    ((∀ ch, ch ∈ (topicListener p.reg seen now msg.topic msg).2 ↔ ch ∈ p.asked msg.topic) ∧
        ∀ ch, ch ∈ (forward p.reg seen now msg).2 ↔ ch ∈ p.asked msg.topic) ↔
      ∀ c ∈ p.polling, msg.topic ∈ c.2 := by
  have hlistener : (topicListener p.reg seen now msg.topic msg).2 = p.asked msg.topic := by
    rw [topicListener, if_neg hnew, h.listenerClients_eq]
  have hforward : (forward p.reg seen now msg).2 = p.polling.map (·.1) := by
    simp [forward, handlePubSubFwdStream, hnew, fireClients, h.reg_eq.1]
  rw [hlistener, hforward]
  constructor
  · rintro ⟨-, hoffer⟩ c hc
    obtain ⟨c', hc', hch⟩ := List.mem_map.1 ((hoffer c.1).1 (List.mem_map_of_mem hc))
    obtain ⟨hmem, hasked⟩ := List.mem_filter.1 hc'
    -- channels are unique, so the client that asked is `c` itself
    have heq : c' = c := List.inj_on_of_nodup_map h.nodup hmem hc hch
    exact hasTopic_iff.1 (heq ▸ hasked)
  · intro hall
    refine ⟨fun ch => Iff.rfl, ?_⟩
    have hasked : p.asked msg.topic = p.polling.map (·.1) := by
      unfold Population.asked
      rw [List.filter_eq_self.2 fun c hc => hasTopic_iff.2 (hall c hc)]
    intro ch
    rw [hasked]

def twoClients : Population where
  reg := ⟨[0, 1], [(0, ["a"]), (1, ["b"])]⟩
  polling := [(0, ["a"]), (1, ["b"])]

theorem twoClients_reachable : twoClients.Reachable :=
  .next (a := .enter 1 ["b"]) (.next (a := .enter 0 ["a"]) .start rfl) rfl

def messageOn (topic : String) : Message where
  id := "id"
  sender := "p"
  data := "x"
  seqno := "AA=="
  topic := topic
  receivedFrom := "q"

theorem both_paths_offer_one :
    ∃ p : Population, p.polling = [(0, ["a"])] ∧ 0 ∈ (forward p.reg [] 1 (messageOn "a")).2 := by
  have hreach : (⟨⟨[0], [(0, ["a"])]⟩, [(0, ["a"])]⟩ : Population).Reachable :=
    .next (a := .enter 0 ["a"]) .start rfl
  have hboth := (both_paths_offer_iff hreach [] 1 (messageOn "a") (by decide)).2 (by decide)
  exact ⟨_, rfl, (hboth.2 0).2 (by decide)⟩

/-- Through the forward stream a message on "a" is offered to the client that only asked for "b". -/
theorem forward_offers_to_others :
    twoClients.Reachable ∧ 1 ∈ (forward twoClients.reg [] 1 (messageOn "a")).2 ∧
      1 ∉ (topicListener twoClients.reg [] 1 "a" (messageOn "a")).2 ∧ 1 ∉ twoClients.asked "a" :=
  ⟨twoClients_reachable, by decide, by decide, by decide⟩

end Libp2px.Events
