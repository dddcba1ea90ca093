import Libp2px.Vtcp.Refine

/-!
# Two connections and the network between them

A network is two connections and what they have sent each other.  A segment that was sent can be delivered at any time,
never, or several times, in any order, so what is in flight is everything the peer ever sent.  Each connection is
opened once: by `Connect`, by `AcceptSYN` on a SYN of the peer, or by `SetupForHandshake`, after which the caller sends
the SYN itself.
-/

namespace Libp2px.Vtcp

open Transition

inductive Side
  | left
  | right
  deriving DecidableEq, Repr

def Side.other : Side → Side
  | .left => .right
  | .right => .left

@[simp] theorem Side.other_other (s : Side) : s.other.other = s := by cases s <;> rfl

theorem Side.other_ne (s : Side) : s.other ≠ s := by cases s <;> decide

theorem Side.eq_or_eq_other (s x : Side) : x = s ∨ x = s.other := by cases s <;> cases x <;> decide

/-- One end: the connection, and the SYN that the caller of `SetupForHandshake` sent for it. -/
structure Endpoint (σ : Type) where
  host : Host σ
  syn : Option Segment := none

def Endpoint.inFlight {σ : Type} (p : Endpoint σ) : List Packet :=
  (p.syn.toList.map fun seg => ⟨seg, 0, p.host.conn.recvBufSize⟩) ++ p.host.sent

structure Network (σ : Type) where
  left : Endpoint σ
  right : Endpoint σ

namespace Network

/-- A call or a timer of one end, the delivery of a segment to a connection or to a listener, or the opening of one
end by `SetupForHandshake`. -/
inductive Action
  | call (s : Side) (e : Event)
  | deliver (s : Side) (now : Int) (p : Packet)
  | accept (s : Side) (now : Int) (iss : BitVec 32) (p : Packet)
  | setup (s : Side) (syn : Segment)
  deriving DecidableEq, Repr

namespace Action

def side : Action → Side
  | call s _ => s
  | deliver s _ _ => s
  | accept s _ _ _ => s
  | setup s _ => s

def event : Action → Event
  | call _ e => e
  | deliver _ now p => .segment now p.seg
  | accept _ now iss p => .acceptSYN now iss p.seg
  | setup _ syn => .setupForHandshake syn.seq

end Action

set_option linter.unusedSectionVars false

variable {σ : Type} [CongestionController σ]

def endpoint (n : Network σ) : Side → Endpoint σ
  | .left => n.left
  | .right => n.right

def setEndpoint (n : Network σ) : Side → Endpoint σ → Network σ
  | .left, p => { n with left := p }
  | .right, p => { n with right := p }

def host (n : Network σ) (s : Side) : Host σ := (n.endpoint s).host

def conn (n : Network σ) (s : Side) : Conn σ := (n.host s).conn

def allows (n : Network σ) : Action → Bool
  | .call s e =>
    match e with
    | .connect _ _ => !(n.conn s).opened
    | .acceptSYN _ _ _ | .acceptCookie _ _ _ _ | .setupForHandshake _ | .segment _ _ => false
    | _ => true
  | .deliver s _ p => decide (p ∈ (n.endpoint s.other).inFlight)
  | .accept s _ _ p =>
    decide (p ∈ (n.endpoint s.other).inFlight) && p.seg.hasFlag flagSYN && !p.seg.hasFlag flagACK &&
      !(n.conn s).opened
  | .setup s syn => decide (syn.flags = flagSYN) && decide (syn.payload = []) && !(n.conn s).opened

def synAfter (p : Endpoint σ) : Action → Option Segment
  | .setup _ syn => some syn
  | _ => p.syn

def next (n : Network σ) (a : Action) : Option (Network σ) :=
  if n.allows a then
    match (n.host a.side).next a.event with
    | some h => some (n.setEndpoint a.side ⟨h, synAfter (n.endpoint a.side) a⟩)
    | none => none
  else none

def system (σ : Type) [CongestionController σ] (cfg : Side → ConnConfig) : System (Network σ) Action :=
  .ofNext (fun n => ∀ s, ∃ now, n.endpoint s = ⟨Host.fresh (cfg s) now, none⟩) next

def fresh (cfg : Side → ConnConfig) (now : Int) : Network σ where
  left := ⟨Host.fresh (cfg .left) now, none⟩
  right := ⟨Host.fresh (cfg .right) now, none⟩

/-- The network after a list of actions, all of which have to be possible. -/
def run (n : Network σ) (as : List Action) : Network σ := (exec next n as).getD n

theorem run_reach {P : Network σ → Action → Prop} {cfg : Side → ConnConfig} {now : Int} {as : List Action}
    (hs : (exec next (fresh cfg now : Network σ) as).isSome = true)
    (hP : execMeets next P (fresh cfg now : Network σ) as) : (system σ cfg).Reach P ((fresh cfg now).run as) := by
  refine ⟨fresh cfg now, ?_, exec_steps_getD hs hP⟩
  intro s
  cases s <;> exact ⟨now, rfl⟩

variable {n : Network σ} {a : Action}

theorem next_eq_some {h' : Host σ} (hal : n.allows a = true) (hn : (n.host a.side).next a.event = some h') :
    n.next a = some (n.setEndpoint a.side ⟨h', synAfter (n.endpoint a.side) a⟩) := by
  unfold next
  rw [if_pos hal, hn]

theorem next_run (hs : (n.next a).isSome = true) : n.next a = some (n.run [a]) := by
  obtain ⟨n', hn⟩ := Option.isSome_iff_exists.1 hs
  simp [run, exec, hn]

/-! ### Steps of one end -/

@[simp] theorem endpoint_setEndpoint (n : Network σ) (s : Side) (p : Endpoint σ) :
    (n.setEndpoint s p).endpoint s = p := by
  cases s <;> rfl

@[simp] theorem endpoint_setEndpoint_other (n : Network σ) (s : Side) (p : Endpoint σ) :
    (n.setEndpoint s p).endpoint s.other = n.endpoint s.other := by
  cases s <;> rfl

theorem of_next {n n' : Network σ} (hn : n.next a = some n') :
    n.allows a = true ∧ (n.host a.side).next a.event = some (n'.host a.side) ∧
      (n'.endpoint a.side).syn = synAfter (n.endpoint a.side) a ∧
      n'.endpoint a.side.other = n.endpoint a.side.other := by
  unfold next at hn
  split at hn
  · rename_i hal
    split at hn
    · rename_i h hh
      cases hn
      refine ⟨hal, ?_, ?_, endpoint_setEndpoint_other _ _ _⟩
      · rw [hh, host, endpoint_setEndpoint]
      · rw [endpoint_setEndpoint]
    · cases hn
  · cases hn

theorem reach_host {cfg : Side → ConnConfig} {P : Network σ → Action → Prop} {Q : Host σ → Event → Prop}
    (hr : (system σ cfg).Reach P n) (s : Side)
    (hPQ : ∀ n a, P n a → a.side = s → Q (n.host s) a.event) : (Host.system σ).Reach Q (n.host s) := by
  refine hr.invariant (I := fun n => (Host.system σ).Reach Q (n.host s)) ?_ ?_
  · intro m hm
    obtain ⟨now, hnow⟩ := hm s
    rw [host, hnow]
    exact .init ⟨cfg s, now, rfl⟩
  · intro m a m' _ ih hP hn
    obtain ⟨-, hstep, -, hother⟩ := of_next hn
    rcases Side.eq_or_eq_other a.side s with hs | hs
    · rw [← hs] at hstep
      exact ih.step (hPQ m a hP hs.symm) hstep
    · have : m'.host s = m.host s := by rw [host, host, hs, hother]
      rwa [this]

theorem opensOnce (hal : n.allows a = true) :
    (n.host a.side).core.OpensOnce a.event := by
  intro he ho
  have hno : ∀ s : Side, (n.host s).core.opened = true → (!(n.conn s).opened) = true → False := by
    intro s h1 h2
    have h1' : (n.conn s).opened = true := h1
    rw [h1'] at h2
    cases h2
  cases a with
  | call s e =>
    cases e with
    | connect => exact (hno s ho hal).elim
    | acceptSYN | acceptCookie | setupForHandshake => cases hal
    | _ => cases he
  | deliver => cases he
  | accept s now iss p =>
    simp only [allows, Bool.and_eq_true] at hal
    exact (hno s ho hal.2).elim
  | setup s syn =>
    simp only [allows, Bool.and_eq_true] at hal
    exact (hno s ho hal.2).elim

end Network

end Libp2px.Vtcp
