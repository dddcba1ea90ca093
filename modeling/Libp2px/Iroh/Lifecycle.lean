import Libp2px.Lib.Transition
import Libp2px.Lib.Workers

/-!
# The life cycle of the iroh relay pool

`p2put/irohrelay.go`: `Start` and `Stop` do something only if the pool is not started, or is; `Start` starts a `runLoop` for
each relay of the pool and `Stop` closes the `stopCh` of each; `AddRelay` starts the new relay if the pool is started;
`RemoveRelay` closes the `stopCh` of the one it deletes.  A `runLoop` returns some time after its `stopCh` has been closed.

The relays stay in the pool when it is stopped, and their channels stay closed.  So `RemoveRelay` then closes one twice, and
the loops of the next `Start` find their channels closed and return, after which `Stop` closes them twice
(`restart_iff`).
-/

namespace Libp2px.Iroh.Lifecycle

open Transition

/-- A channel that is only closed. -/
inductive StopCh
  | nil
  | made
  | closed
  deriving DecidableEq

/-- `IrohRelayPool`, as far as starting and stopping goes; relays are known by their URLs. `stopCh` is open while the
pool is started, and a relay with an open channel has one loop then. -/
structure IrohRelayPool (κ : Type) where
  relays : Workers.Pool κ
  started : Bool
  stopCh : StopCh
  /-- A closed channel, or none, has been closed. -/
  panicked : Bool
  stopCh_made : started = true → stopCh = .made
  loops_eq : panicked = false →
    ∀ w ∈ relays.workers, w.member = true → w.closed = false → w.loops = if started then 1 else 0

inductive Action (κ : Type)
  /-- `Start`, whose key file can be loaded or not. -/
  | start (loads : Bool)
  | stop
  | addRelay (url : κ)
  | removeRelay (url : κ)
  /-- A `runLoop` of the relay made as the `i`-th returns. -/
  | loopEnds (i : Nat)

variable {κ : Type}

namespace IrohRelayPool

def new : IrohRelayPool κ := ⟨.empty, false, .nil, false, (fun h => nomatch h), (fun _ _ hw => nomatch hw)⟩

/-- A closed channel is closed. -/
def crash (p : IrohRelayPool κ) : IrohRelayPool κ :=
  { p with panicked := true, loops_eq := fun h => nomatch h }

def start (loads : Bool) (p : IrohRelayPool κ) : IrohRelayPool κ :=
  if hs : p.started = true then p
  else if loads then
    { p with
      relays := p.relays.startAll
      started := true
      stopCh := .made
      stopCh_made := fun _ => rfl
      loops_eq := by
        intro hp
        rw [Workers.Pool.forall_startAll]
        intro w hw
        have hloops := p.loops_eq hp w hw
        rw [if_neg hs] at hloops
        cases hmem : w.member with
        | true =>
          intro _ hopen
          simp only [if_true] at hopen ⊢
          rw [hloops hmem hopen]
        | false =>
          intro hmem'
          simp [hmem] at hmem' }
  else { p with stopCh := .made, stopCh_made := fun _ => rfl }

def stop (p : IrohRelayPool κ) : IrohRelayPool κ :=
  if p.started = false then p
  else
    match p.stopCh, hclose : p.relays.closeAll with
    | .made, some relays =>
      { relays := relays
        started := false
        stopCh := .closed
        panicked := p.panicked
        stopCh_made := fun h => nomatch h
        loops_eq := by
          intro _
          rw [Workers.Pool.forall_closeAll hclose]
          intro w _
          cases hmem : w.member with
          | true =>
            intro _ hopen
            simp at hopen
          | false =>
            intro hmem'
            simp [hmem] at hmem' }
    | _, _ => p.crash

variable [DecidableEq κ]

def addRelay (url : κ) (p : IrohRelayPool κ) : IrohRelayPool κ :=
  if hnew : p.relays.has url = false then
    { p with
      relays := p.relays.add url (if p.started then 1 else 0) hnew
      loops_eq := fun hp => (Workers.Pool.forall_add hnew).2 ⟨p.loops_eq hp, fun _ _ => rfl⟩ }
  else p

def removeRelay (url : κ) (p : IrohRelayPool κ) : IrohRelayPool κ :=
  match hremove : p.relays.remove url with
  | some relays =>
    { p with
      relays := relays
      loops_eq := by
        intro hp
        rw [Workers.Pool.forall_remove hremove]
        intro w hw
        split
        · exact fun hmem => nomatch hmem
        · exact p.loops_eq hp w hw }
  | none => p.crash

variable {p : IrohRelayPool κ}

omit [DecidableEq κ] in
theorem loops_eq_loopEnds {i : Nat} {relays : Workers.Pool κ}
    (h : p.relays.loopEnds i = some relays) (hp : p.panicked = false) :
    ∀ w ∈ relays.workers, w.member = true → w.closed = false → w.loops = if p.started then 1 else 0 := by
  refine Workers.Pool.forall_loopEnds h (p.loops_eq hp) ?_
  intro w hclosed _ _ hopen
  rw [hclosed] at hopen
  cases hopen

/-- The calls, and the end of a loop; after a panic there are none. -/
def next (p : IrohRelayPool κ) (a : Action κ) : Option (IrohRelayPool κ) :=
  if p.panicked then none
  else
    match a with
    | .start loads => some (p.start loads)
    | .stop => some p.stop
    | .addRelay url => some (p.addRelay url)
    | .removeRelay url => some (p.removeRelay url)
    | .loopEnds i =>
      match hends : p.relays.loopEnds i with
      | some relays => some { p with relays := relays, loops_eq := loops_eq_loopEnds hends }
      | none => none

/-- No channel was closed twice, and in a started pool each relay has one loop and an open channel. -/
structure Sound (p : IrohRelayPool κ) : Prop where
  closedOnce : p.panicked = false
  running : p.started = true → ∀ w ∈ p.relays.workers, w.member = true → w.loops = 1 ∧ w.closed = false

/-- `Start` finds the channels of all relays open, and `RemoveRelay` that of its relay: those that were not in the
pool at an earlier `Stop`. -/
def NotKept (p : IrohRelayPool κ) : Action κ → Prop
  | .start loads => p.started = false → loads = true → ∀ w ∈ p.relays.workers, w.member = true → w.closed = false
  | .removeRelay url => ∀ w ∈ p.relays.workers, w.member = true → w.key = url → w.closed = false
  | .stop | .addRelay _ | .loopEnds _ => True

omit [DecidableEq κ] in
theorem Sound.start_iff (h : p.Sound) (loads : Bool) :
    (p.start loads).Sound ↔ p.NotKept (.start loads) := by
  unfold IrohRelayPool.start NotKept
  split
  · rename_i hs
    rw [hs]
    exact ⟨(fun _ hno => nomatch hno), fun _ => h⟩
  · rename_i hs
    have hs' : p.started = false := by simpa using hs
    cases loads with
    | false => exact ⟨(fun _ _ hno => nomatch hno), fun _ => ⟨h.closedOnce, fun hno => absurd hno hs⟩⟩
    | true =>
      have hiff : (∀ w ∈ p.relays.startAll.workers, w.member = true → w.loops = 1 ∧ w.closed = false) ↔
          ∀ w ∈ p.relays.workers, w.member = true → w.closed = false := by
        rw [Workers.Pool.forall_startAll]
        refine forall₂_congr fun w hw => ?_
        have hloops := p.loops_eq h.closedOnce w hw
        rw [if_neg hs] at hloops
        cases hmem : w.member with
        | false => simp [hmem]
        | true =>
          simp only [if_true, forall_const]
          exact ⟨fun hw => hw.2, fun hopen => ⟨by rw [hloops hmem hopen], hopen⟩⟩
      constructor
      · exact fun h' _ _ => hiff.1 (h'.running rfl)
      · exact fun h' => ⟨h.closedOnce, fun _ => hiff.2 (h' hs' rfl)⟩

omit [DecidableEq κ] in
theorem Sound.stop (h : p.Sound) : p.stop.Sound := by
  unfold IrohRelayPool.stop
  split
  · exact h
  · rename_i hs
    have hs' : p.started = true := by simpa using hs
    split
    · exact ⟨h.closedOnce, fun hno => nomatch hno⟩
    · rename_i hno
      cases hclose : p.relays.closeAll with
      | some relays => exact absurd hclose (hno relays (p.stopCh_made hs'))
      | none =>
        obtain ⟨w, hw, hmem, hclosed⟩ := Workers.Pool.closeAll_eq_none.1 hclose
        rw [(h.running hs' w hw hmem).2] at hclosed
        cases hclosed

theorem Sound.addRelay (h : p.Sound) (url : κ) : (p.addRelay url).Sound := by
  unfold IrohRelayPool.addRelay
  split
  · rename_i hnew
    refine ⟨h.closedOnce, fun hs => (Workers.Pool.forall_add hnew).2 ⟨h.running hs, fun _ => ?_⟩⟩
    exact ⟨if_pos hs, rfl⟩
  · exact h

theorem Sound.removeRelay_iff (h : p.Sound) (url : κ) :
    (p.removeRelay url).Sound ↔ p.NotKept (.removeRelay url) := by
  unfold IrohRelayPool.removeRelay NotKept
  split
  · rename_i relays hremove
    constructor
    · intro _ w hw hmem hkey
      by_contra hclosed
      have hnone := Workers.Pool.remove_eq_none.2 ⟨w, hw, hmem, hkey, by simpa using hclosed⟩
      rw [hremove] at hnone
      cases hnone
    · intro _
      refine ⟨h.closedOnce, fun hs => (Workers.Pool.forall_remove hremove).2 fun w hw => ?_⟩
      split
      · exact fun hmem => nomatch hmem
      · exact h.running hs w hw
  · rename_i hremove
    obtain ⟨w, hw, hmem, hkey, hclosed⟩ := Workers.Pool.remove_eq_none.1 hremove
    constructor
    · exact fun h' => nomatch h'.closedOnce
    · intro hopen
      rw [hopen w hw hmem hkey] at hclosed
      cases hclosed

theorem Sound.next_iff {p q : IrohRelayPool κ} {a : Action κ} (h : p.Sound) (hn : p.next a = some q) :
    q.Sound ↔ p.NotKept a := by
  have hopen : ¬p.panicked = true := by simp [h.closedOnce]
  unfold IrohRelayPool.next at hn
  rw [if_neg hopen] at hn
  cases a with
  | start loads =>
    obtain rfl := Option.some.inj hn
    exact h.start_iff loads
  | stop =>
    obtain rfl := Option.some.inj hn
    exact ⟨fun _ => trivial, fun _ => h.stop⟩
  | addRelay url =>
    obtain rfl := Option.some.inj hn
    exact ⟨fun _ => trivial, fun _ => h.addRelay url⟩
  | removeRelay url =>
    obtain rfl := Option.some.inj hn
    exact h.removeRelay_iff url
  | loopEnds i =>
    simp only at hn
    split at hn
    · rename_i relays hends
      obtain rfl := Option.some.inj hn
      refine ⟨fun _ => trivial, fun _ => ⟨h.closedOnce, fun hs => ?_⟩⟩
      refine Workers.Pool.forall_loopEnds hends (h.running hs) ?_
      intro w hclosed hw hmem
      rw [(hw hmem).2] at hclosed
      cases hclosed
    · cases hn

omit [DecidableEq κ] in
theorem sound_new : (new : IrohRelayPool κ).Sound := ⟨rfl, fun hno => nomatch hno⟩

/-- The pool is sound after each step exactly if no call of `Start` or `RemoveRelay` touches a relay that was kept
across a `Stop`. -/
theorem restart_iff (acts : List (Action κ)) :
    execMeets next (fun p a => ∀ q, next p a = some q → q.Sound) (new : IrohRelayPool κ) acts ↔
      execMeets next NotKept (new : IrohRelayPool κ) acts := by
  refine execMeets_iff_of_step (fun p a q h hn => h.next_iff hn) ?_ sound_new acts
  intro p a h hn
  have hopen : ¬p.panicked = true := by simp [h.closedOnce]
  unfold IrohRelayPool.next at hn
  rw [if_neg hopen] at hn
  cases a with
  | loopEnds i => trivial
  | stop => trivial
  | addRelay url => trivial
  | _ => cases hn

/-- After `Start`, `Stop`, `Start` the relay in the pool has a closed channel, and its loops end while the pool is started;
the next `Stop` panics, as does `RemoveRelay` after the first one. -/
theorem restart_broken :
    (exec next (new : IrohRelayPool Nat) [.addRelay 1, .start true, .stop, .start true, .loopEnds 0, .loopEnds 0]).any
        (fun p => p.started && p.relays.workers.any fun w => w.member && w.closed && decide (w.loops = 0)) = true ∧
      (exec next (new : IrohRelayPool Nat) [.addRelay 1, .start true, .stop, .start true, .stop]).any
        (fun p => p.panicked) = true ∧
      (exec next (new : IrohRelayPool Nat) [.addRelay 1, .start true, .stop, .removeRelay 1]).any
        (fun p => p.panicked) = true := by
  decide +kernel

end IrohRelayPool

end Libp2px.Iroh.Lifecycle
