import Libp2px.Lib.Transition

/-!
# Reconnecting a UDP tunnel

`Read`, `Write`, `Close` and `getStream` of `p2pUdpConn` (`pbtunnel/pbtunnel.go`) on the two atomics `holder` and `closed`,
with every operation on them a step of its own; without the mutex there are only more interleavings.  A call that meets a
reset sets `closed` before it tries again, so nothing is dialled after it.
-/

namespace Libp2px.Tunnel.Reconnect

open Transition

/-- What calls `closed.Store(true)`. -/
inductive Cause | close | failedDial | reset
  deriving DecidableEq

/-- What a dial, or the use of a stream, ends with. -/
inductive Outcome | ok | reset | error
  deriving DecidableEq

inductive Result | used (stream : Nat) | failed (stream : Nat) | closed | notDialed | hungUp
  deriving DecidableEq

/-- The next operation of a call; streams are numbered by their dials. -/
inductive Stage
  | load | loadLocked | checkClosed | dial | dialFailed (o : Outcome) | dialed (stream : Nat) | reload (stream : Nat)
  | store (stream : Nat) | use (stream : Nat) | reset | resetSwap | closeSwap | done (r : Result)
  deriving DecidableEq

/-- A `Read`, a `Write` or a `Close`, and whether it has met a reset before. -/
structure Call where
  retried : Bool
  stage : Stage
  deriving DecidableEq

structure Conn where
  holder : Option Nat
  closed : Bool
  dials : Nat
  calls : List Call
  causes : List Cause
  deriving DecidableEq

/-- A call begins, `Close` sets its flag, or the call `k` makes its next operation. -/
inductive Label
  | call
  | close
  | run (k : Nat) (o : Outcome)

namespace Conn

/-- What `DialUDP` returns after its first dial. -/
def start : Conn := ⟨some 0, false, 1, [], []⟩

def shut (c : Conn) (cause : Cause) : Conn := { c with closed := true, causes := c.causes ++ [cause] }

/-- The text of an error that comes with a reset makes a call try once more. -/
def onError (retried : Bool) (o : Outcome) (r : Result) : Stage := if o = .reset ∧ !retried then .reset else .done r

/-- The next operation of a call, where `o` is the outcome of a dial or of the use of a stream. -/
def advance (c : Conn) (retried : Bool) (o : Outcome) : Stage → Conn × Stage
  | .load => (c, c.holder.elim .loadLocked .use)
  | .loadLocked => (c, c.holder.elim .checkClosed .use)
  | .checkClosed => (c, if c.closed then .done .closed else .dial)
  | .dial => if o = .ok then ({ c with dials := c.dials + 1 }, .dialed c.dials) else (c, .dialFailed o)
  | .dialFailed o => (c.shut .failedDial, onError retried o .notDialed)
  | .dialed s => (c, if c.closed then .done .closed else .reload s)
  | .reload s => (c, c.holder.elim (.store s) .use)
  | .store s => ({ c with holder := some s }, .use s)
  | .use s => (c, if o = .ok then .done (.used s) else onError retried o (.failed s))
  | .reset => (c.shut .reset, .resetSwap)
  | .resetSwap => ({ c with holder := none }, .load)
  | .closeSwap => ({ c with holder := none }, .done .hungUp)
  | .done r => (c, .done r)

def next (c : Conn) : Label → Option Conn
  | .call => some { c with calls := c.calls ++ [⟨false, .load⟩] }
  | .close => some { c.shut .close with calls := c.calls ++ [⟨false, .closeSwap⟩] }
  | .run k o => c.calls[k]?.map fun call =>
    let (c', stage) := c.advance call.retried o call.stage
    { c' with calls := c.calls.set k ⟨call.retried || call.stage = .resetSwap, stage⟩ }

def system : System Conn Label := .ofNext (· = start) next

/-- The flag is set by a `Close` or a failed dial, and without them no call fails because it is set. -/
structure Survives (c : Conn) : Prop where
  cause : c.closed → ∃ x ∈ c.causes, x ≠ .reset
  reconnects : (∀ x ∈ c.causes, x = .reset) → ∀ call ∈ c.calls, call.stage ≠ .done .closed

/-- `closed` has a cause, and a call fails with it only when it is set. -/
structure Inv (c : Conn) : Prop where
  closed_iff : c.closed ↔ c.causes ≠ []
  failed : ∀ call ∈ c.calls, call.stage = .done .closed → c.closed

variable {c t : Conn}

/-- An operation sets the flag with a cause or leaves both, and a call that fails with `closed` has seen the flag. -/
theorem advance_spec (c : Conn) (retried : Bool) (o : Outcome) (stage : Stage) :
    let (c', stage') := c.advance retried o stage
    ((c'.closed = c.closed ∧ c'.causes = c.causes) ∨ (c'.closed ∧ c'.causes ≠ [])) ∧
      (stage' = .done .closed → c'.closed ∨ stage = .done .closed) := by
  cases hholder : c.holder <;> cases stage <;> simp [advance, hholder, shut, onError] <;> grind

theorem inv_next {l : Label} (h : c.Inv) (hn : c.next l = some t) : t.Inv := by
  cases l with
  | call =>
    cases hn
    exact ⟨h.closed_iff, by grind [h.failed]⟩
  | close =>
    cases hn
    exact ⟨by simp [shut], fun _ _ _ => rfl⟩
  | run k o =>
    obtain ⟨call, hk, rfl⟩ := Option.map_eq_some_iff.1 hn
    have hspec := c.advance_spec call.retried o call.stage
    have hcall := h.failed call (List.mem_of_getElem? hk)
    obtain ⟨hiff, hfailed⟩ := h
    refine ⟨by grind, fun call' hmem hdone => ?_⟩
    rcases List.mem_or_eq_of_mem_set hmem with hmem | rfl
    · grind
    · grind

/-- The flag is set, there is no stream, and no call with a new one is past its check of the flag. -/
structure Ended (c : Conn) : Prop where
  closed : c.closed
  holder : c.holder = none
  late : ∀ call ∈ c.calls, ∀ s, call.stage ≠ .reload s ∧ call.stage ≠ .store s

/-- A call that has no stream and will not get one. -/
def Barred (call : Call) : Prop :=
  call.stage ∈ [.load, .loadLocked, .checkClosed, .closeSwap, .done .closed, .done .hungUp]

theorem Ended.advance (h : c.Ended) (o : Outcome) {call : Call} (hcall : call ∈ c.calls) :
    let (c', stage) := c.advance call.retried o call.stage
    c'.closed ∧ c'.holder = none ∧ (∀ s, stage ≠ .reload s ∧ stage ≠ .store s) ∧
      (Barred call → Barred ⟨call.retried || call.stage = .resetSwap, stage⟩) := by
  obtain ⟨hclosed, hholder, hlate⟩ := h
  have hs := hlate call hcall
  cases hstage : call.stage <;> simp_all [Conn.advance, shut, onError, Barred] <;> grind

theorem Ended.next {l : Label} {n : Nat} (h : c.Ended) (hb : ∀ k call, n ≤ k → c.calls[k]? = some call → Barred call)
    (hn : c.next l = some t) : t.Ended ∧ ∀ k call, n ≤ k → t.calls[k]? = some call → Barred call := by
  cases l with
  | call =>
    cases hn
    exact ⟨⟨h.closed, h.holder, by grind [h.late]⟩, by grind [Barred]⟩
  | close =>
    cases hn
    exact ⟨⟨rfl, h.holder, by grind [h.late]⟩, by grind [Barred]⟩
  | run k o =>
    obtain ⟨call, hk, rfl⟩ := Option.map_eq_some_iff.1 hn
    obtain ⟨hclosed, hholder, hlate, hbarred⟩ := h.advance o (List.mem_of_getElem? hk)
    refine ⟨⟨hclosed, hholder, fun call' hmem => ?_⟩, fun j call' hj hcall' => ?_⟩
    · rcases List.mem_or_eq_of_mem_set hmem with hmem | rfl
      · exact h.late call' hmem
      · exact hlate
    · rw [List.getElem?_set] at hcall'
      split at hcall'
      · rename_i hkj
        split at hcall'
        · cases hcall'
          exact hbarred (hb k call (hkj ▸ hj) hk)
        · cases hcall'
      · exact hb j call' hj hcall'

/-- The end of a connection is final: in every run from then on no stream comes back, and no call that begins after it ever
has one. -/
theorem ended_final (h : c.Ended) (hs : system.Steps anyStep c t) :
    t.Ended ∧ ∀ k call, c.calls.length ≤ k → t.calls[k]? = some call → Barred call := by
  refine hs.induction (I := fun t => t.Ended ∧ ∀ k call, c.calls.length ≤ k → t.calls[k]? = some call → Barred call)
    ⟨h, fun k call hk hcall => ?_⟩ fun s l t hI _ hn => hI.1.next hI.2 hn
  rw [List.getElem?_eq_none hk] at hcall
  cases hcall

theorem ended_final_close :
    let c : Conn := ⟨none, true, 1, [⟨false, .done .hungUp⟩], [.close]⟩
    exec next start [.close, .run 0 .ok] = some c ∧ c.Ended :=
  ⟨rfl, (ended_final ⟨rfl, rfl, by simp⟩ (.refl _)).1⟩

end Conn

end Libp2px.Tunnel.Reconnect
