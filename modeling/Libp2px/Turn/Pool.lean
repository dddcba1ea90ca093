import Libp2px.Lib.Transition
import Libp2px.Lib.Workers

/-!
# The life cycle of the TURN pool

`p2put/turnpool.go`: `Start` starts a `runLoop` for each server of the pool, `Stop` closes the `stopCh` of each,
`AddServer` starts the new server if the pool has a context, and `RemoveServer` closes the `stopCh` of the one it deletes.
A `runLoop` returns some time after its `stopCh` has been closed.

None of the calls looks at what the others did.  `Stop` leaves the servers in the pool with their channels closed, and the
context that it cancels stays; so a second `Stop`, or `RemoveServer` after `Stop`, closes a channel twice, a second `Start`
starts second loops, and `AddServer` after `Stop` starts a server (`lifecycle_iff`).
-/

namespace Libp2px.Turn

open Transition

/-- `TurnPool`, as far as starting and stopping goes; servers are known by their addresses. -/
structure TurnPool (κ : Type) where
  servers : Workers.Pool κ := .empty
  /-- `p.ctx != nil`. -/
  ctx : Bool := false
  /-- A closed channel has been closed. -/
  panicked : Bool := false
  /-- Ghost: `Stop` has been called after the last `Start`. -/
  stopped : Bool := false
  /-- Ghost: a server has been started between a `Stop` and the next `Start`. -/
  late : Bool := false
  deriving DecidableEq

inductive Action (κ : Type)
  | start
  | stop
  | addServer (addr : κ)
  | removeServer (addr : κ)
  /-- A `runLoop` of the server made as the `i`-th returns. -/
  | loopEnds (i : Nat)

variable {κ : Type} [DecidableEq κ]

namespace TurnPool

def start (p : TurnPool κ) : TurnPool κ := { p with ctx := true, servers := p.servers.startAll, stopped := false }

def stop (p : TurnPool κ) : TurnPool κ :=
  match p.servers.closeAll with
  | some servers => { p with servers := servers, stopped := true }
  | none => { p with panicked := true }

def addServer (addr : κ) (p : TurnPool κ) : TurnPool κ :=
  if hnew : p.servers.has addr = false then
    { p with servers := p.servers.add addr (if p.ctx then 1 else 0) hnew, late := p.late || (p.ctx && p.stopped) }
  else p

def removeServer (addr : κ) (p : TurnPool κ) : TurnPool κ :=
  match p.servers.remove addr with
  | some servers => { p with servers := servers }
  | none => { p with panicked := true }

/-- The calls, and the end of a loop; after a panic there are none. -/
def next (p : TurnPool κ) (a : Action κ) : Option (TurnPool κ) :=
  if p.panicked then none
  else
    match a with
    | .start => some p.start
    | .stop => some p.stop
    | .addServer addr => some (p.addServer addr)
    | .removeServer addr => some (p.removeServer addr)
    | .loopEnds i => (p.servers.loopEnds i).map fun servers => { p with servers := servers }

/-- No channel has been closed twice, no server has two loops, and none was started after a `Stop`. -/
structure Sound (p : TurnPool κ) : Prop where
  closedOnce : p.panicked = false
  oneLoop : ∀ w ∈ p.servers.workers, w.loops ≤ 1
  notLate : p.late = false

/-- `Start` finds no server with a loop, `Stop` and `RemoveServer` no channel closed, and `AddServer` does not come
between a `Stop` and the next `Start`, unless there was no `Start` or the server is known. -/
def InTurn (p : TurnPool κ) : Action κ → Prop
  | .start => ∀ w ∈ p.servers.workers, w.member = true → w.loops = 0
  | .stop => ∀ w ∈ p.servers.workers, w.member = true → w.closed = false
  | .addServer addr => p.ctx = true → p.stopped = true → p.servers.has addr = true
  | .removeServer addr => ∀ w ∈ p.servers.workers, w.member = true → w.key = addr → w.closed = false
  | .loopEnds _ => True

variable {p : TurnPool κ}

theorem Sound.start_iff (h : p.Sound) : p.start.Sound ↔ p.InTurn .start := by
  have hloops : (∀ w ∈ p.start.servers.workers, w.loops ≤ 1) ↔ p.InTurn .start := by
    show (∀ w ∈ p.servers.startAll.workers, w.loops ≤ 1) ↔ _
    rw [Workers.Pool.forall_startAll]
    refine forall₂_congr fun w hw => ?_
    have hle := h.oneLoop w hw
    cases w.member with
    | true => simp
    | false => simpa using hle
  exact ⟨fun h' => hloops.1 h'.oneLoop, fun h' => ⟨h.closedOnce, hloops.2 h', h.notLate⟩⟩

theorem Sound.stop_iff (h : p.Sound) : p.stop.Sound ↔ p.InTurn .stop := by
  unfold stop InTurn
  cases hclose : p.servers.closeAll with
  | none =>
    obtain ⟨w, hw, hmem, hclosed⟩ := Workers.Pool.closeAll_eq_none.1 hclose
    constructor
    · exact fun h' => nomatch h'.closedOnce
    · intro hopen
      rw [hopen w hw hmem] at hclosed
      cases hclosed
  | some servers =>
    constructor
    · intro _ w hw hmem
      by_contra hclosed
      have hnone := Workers.Pool.closeAll_eq_none.2 ⟨w, hw, hmem, by simpa using hclosed⟩
      rw [hclose] at hnone
      cases hnone
    · intro _
      refine ⟨h.closedOnce, (Workers.Pool.forall_closeAll hclose).2 fun w hw => ?_, h.notLate⟩
      split
      · exact h.oneLoop w hw
      · exact h.oneLoop w hw

theorem Sound.addServer_iff (h : p.Sound) (addr : κ) :
    (p.addServer addr).Sound ↔ p.InTurn (.addServer addr) := by
  unfold addServer InTurn
  split
  · rename_i hnew
    have hloops : ∀ w ∈ (p.servers.add addr (if p.ctx then 1 else 0) hnew).workers, w.loops ≤ 1 :=
      (Workers.Pool.forall_add hnew).2 ⟨h.oneLoop, by simp only; split <;> omega⟩
    have hlate : (p.late || (p.ctx && p.stopped)) = false ↔
        (p.ctx = true → p.stopped = true → p.servers.has addr = true) := by
      rw [hnew, h.notLate]
      cases p.ctx <;> cases p.stopped <;> simp
    exact ⟨fun h' => hlate.1 h'.notLate, fun h' => ⟨h.closedOnce, hloops, hlate.2 h'⟩⟩
  · rename_i hknown
    exact ⟨fun _ _ _ => by simpa using hknown, fun _ => h⟩

theorem Sound.removeServer_iff (h : p.Sound) (addr : κ) :
    (p.removeServer addr).Sound ↔ p.InTurn (.removeServer addr) := by
  unfold removeServer InTurn
  cases hremove : p.servers.remove addr with
  | none =>
    obtain ⟨w, hw, hmem, hkey, hclosed⟩ := Workers.Pool.remove_eq_none.1 hremove
    constructor
    · exact fun h' => nomatch h'.closedOnce
    · intro hopen
      rw [hopen w hw hmem hkey] at hclosed
      cases hclosed
  | some servers =>
    constructor
    · intro _ w hw hmem hkey
      by_contra hclosed
      have hnone := Workers.Pool.remove_eq_none.2 ⟨w, hw, hmem, hkey, by simpa using hclosed⟩
      rw [hremove] at hnone
      cases hnone
    · intro _
      refine ⟨h.closedOnce, (Workers.Pool.forall_remove hremove).2 fun w hw => ?_, h.notLate⟩
      split
      · exact h.oneLoop w hw
      · exact h.oneLoop w hw

theorem Sound.next_iff {p q : TurnPool κ} {a : Action κ} (h : p.Sound) (hn : p.next a = some q) :
    q.Sound ↔ p.InTurn a := by
  have hopen : ¬p.panicked = true := by simp [h.closedOnce]
  unfold next at hn
  rw [if_neg hopen] at hn
  cases a with
  | start =>
    obtain rfl := Option.some.inj hn
    exact h.start_iff
  | stop =>
    obtain rfl := Option.some.inj hn
    exact h.stop_iff
  | addServer addr =>
    obtain rfl := Option.some.inj hn
    exact h.addServer_iff addr
  | removeServer addr =>
    obtain rfl := Option.some.inj hn
    exact h.removeServer_iff addr
  | loopEnds i =>
    obtain ⟨servers, hends, rfl⟩ := Option.map_eq_some_iff.1 hn
    refine ⟨fun _ => trivial, fun _ => ⟨h.closedOnce, ?_, h.notLate⟩⟩
    exact Workers.Pool.forall_loopEnds hends h.oneLoop fun w _ hw => (Nat.sub_le _ _).trans hw

omit [DecidableEq κ] in
theorem sound_fresh : (({} : TurnPool κ)).Sound := ⟨rfl, (fun _ hw => nomatch hw), rfl⟩

/-- The pool is sound after each step exactly if each call comes in turn. -/
theorem lifecycle_iff (acts : List (Action κ)) :
    execMeets next (fun p a => ∀ q, next p a = some q → q.Sound) ({} : TurnPool κ) acts ↔
      execMeets next InTurn ({} : TurnPool κ) acts := by
  refine execMeets_iff_of_step (fun p a q h hn => h.next_iff hn) ?_ sound_fresh acts
  intro p a h hn
  have hopen : ¬p.panicked = true := by simp [h.closedOnce]
  unfold next at hn
  rw [if_neg hopen] at hn
  cases a with
  | loopEnds i => trivial
  | _ => cases hn

/-- `Stop` twice panics, as does `RemoveServer` after `Stop`; `Start` twice gives a server two loops; and `AddServer` after
`Stop` starts a server. -/
theorem lifecycle_broken :
    (exec next ({} : TurnPool Nat) [.addServer 1, .start, .stop, .stop]).any (·.panicked) = true ∧
      (exec next ({} : TurnPool Nat) [.addServer 1, .start, .stop, .removeServer 1]).any (·.panicked) = true ∧
      (exec next ({} : TurnPool Nat) [.addServer 1, .start, .start]).any
        (fun p => p.servers.workers.any fun w => decide (w.loops = 2)) = true ∧
      (exec next ({} : TurnPool Nat) [.start, .stop, .addServer 1]).any
        (fun p => p.stopped && p.servers.workers.any fun w => decide (w.loops = 1)) = true := by
  decide +kernel

end TurnPool

end Libp2px.Turn
