import Libp2px.Lib.Transition
import Libp2px.Relays.Pool

/-!
# Concurrent calls on a relay pool

`Add` and `RecordResult` take the lock twice, once for their change and once in `prune`; `Protect`, `Unprotect` and
`Remove` take it once.  The health checker takes a snapshot of its targets, pings one after the other, and changes the
item of a target that answered, or calls `RecordResult`.  A run is any interleaving of these locked steps.

Two things go wrong.  An item that is promoted between the insertion and the pruning of another call can leave `prune`
nothing to evict, so the pool stays above `highWater`.  And a successful ping sets the count of failures back but not
the circuit, so a circuit that opened after the snapshot stays open with a count of zero.
-/

namespace Libp2px.Relays

open Transition

variable {ι : Type} [DecidableEq ι]

/-- A pool, the number of calls that have still to prune, and the targets that are still to be pinged. -/
structure State (ι : Type) where
  pool : RelayPool ι
  pruning : Nat
  targets : List ι

inductive Act (ι : Type)
  | add (pid : ι) (addr : String) (now : Int)
  | record (pid : ι) (err : RelayError) (now : Int)
  | prune (now : Int) (weigh : RelayItem ι → ℚ) (srt : Sorter (RelayItem ι))
  | protect (pid : ι)
  | unprotect (pid : ι)
  | remove (pid : ι)
  | snapshot (connected : ι → Bool)
  | pingOK (rtt : Int)
  | pingFailed (err : RelayError) (now : Int)

namespace State

def start : State ι := ⟨newRelayPool, 0, []⟩

/-- The first step of `RecordResult`; without an item the call returns. -/
def record (s : State ι) (pid : ι) (err : RelayError) (now : Int) : State ι :=
  if s.pool.has pid then
    { s with
      pool := s.pool.modify pid (·.record err now) fun it => it.peerID_record err now
      pruning := s.pruning + 1 }
  else s

def next (s : State ι) : Act ι → Option (State ι)
  | .add pid addr now =>
    if hnew : s.pool.has pid = false then
      some { s with pool := s.pool.insert (.new pid addr now) hnew, pruning := s.pruning + 1 }
    else some s
  | .record pid err now => some (s.record pid err now)
  | .prune now weigh srt =>
    if s.pruning > 0 then some { s with pool := s.pool.prune now weigh srt, pruning := s.pruning - 1 } else none
  | .protect pid => some { s with pool := s.pool.protect pid }
  | .unprotect pid => some { s with pool := s.pool.unprotect pid }
  | .remove pid => some { s with pool := s.pool.evict [pid] }
  | .snapshot connected =>
    if s.targets = [] then
      let live := s.pool.items.filter fun it => !it.circuitOpen && connected it.peerID
      some { s with targets := live.map (·.peerID) }
    else none
  | .pingOK rtt =>
    match s.targets with
    | [] => none
    | pid :: rest =>
      some { s with pool := s.pool.modify pid (·.healthy rtt) fun it => it.peerID_healthy rtt, targets := rest }
  | .pingFailed err now =>
    match s.targets with
    | [] => none
    | pid :: rest => if err = .nil then none else some { s.record pid err now with targets := rest }

def system : System (State ι) (Act ι) := .ofNext (· = .start) next

/-- What a step does to the pool: it adds an item that is new, gives an item a result, counts an item as healthy,
prunes, or drops items. -/
theorem next_cases {s s' : State ι} {a : Act ι} (h : s.next a = some s') :
    (∃ pid addr now hnew, s'.pool = s.pool.insert (.new pid addr now) hnew ∧ s'.pruning = s.pruning + 1) ∨
    (∃ pid err now, s'.pool = s.pool.modify pid (·.record err now) (fun it => it.peerID_record err now) ∧
      s'.pruning = s.pruning + 1 ∧ (a = .record pid err now ∨ err ≠ .nil)) ∨
    (∃ pid rtt, s'.pool = s.pool.modify pid (·.healthy rtt) (fun it => it.peerID_healthy rtt) ∧
      s'.pruning = s.pruning ∧ a = .pingOK rtt ∧ s.targets.head? = some pid) ∨
    (∃ now weigh srt, s'.pool = s.pool.prune now weigh srt) ∨
    (s'.pool.items.Sublist s.pool.items ∧ s'.pool.highWater = s.pool.highWater ∧ s'.pruning = s.pruning) := by
  cases a with
  | add pid addr now =>
    simp only [next] at h
    split at h
    · rename_i hnew
      cases h
      exact .inl ⟨pid, addr, now, hnew, rfl, rfl⟩
    · cases h
      exact .inr <| .inr <| .inr <| .inr ⟨List.Sublist.refl _, rfl, rfl⟩
  | record pid err now =>
    cases h
    unfold record
    split
    · exact .inr <| .inl ⟨pid, err, now, rfl, rfl, .inl rfl⟩
    · exact .inr <| .inr <| .inr <| .inr ⟨List.Sublist.refl _, rfl, rfl⟩
  | prune now weigh srt =>
    simp only [next, Option.ite_none_right_eq_some] at h
    obtain ⟨-, h⟩ := h
    cases h
    exact .inr <| .inr <| .inr <| .inl ⟨now, weigh, srt, rfl⟩
  | protect pid | unprotect pid =>
    cases h
    exact .inr <| .inr <| .inr <| .inr ⟨List.Sublist.refl _, rfl, rfl⟩
  | remove pid =>
    cases h
    exact .inr <| .inr <| .inr <| .inr ⟨List.filter_sublist, rfl, rfl⟩
  | snapshot connected =>
    simp only [next, Option.ite_none_right_eq_some] at h
    obtain ⟨-, h⟩ := h
    cases h
    exact .inr <| .inr <| .inr <| .inr ⟨List.Sublist.refl _, rfl, rfl⟩
  | pingOK rtt =>
    cases ht : s.targets with
    | nil =>
      rw [next, ht] at h
      cases h
    | cons pid rest =>
      rw [next, ht] at h
      cases h
      exact .inr <| .inr <| .inl ⟨pid, rtt, rfl, rfl, rfl, rfl⟩
  | pingFailed err now =>
    cases ht : s.targets with
    | nil =>
      rw [next, ht] at h
      cases h
    | cons pid rest =>
      simp only [next, ht, Option.ite_none_left_eq_some] at h
      obtain ⟨herr, h⟩ := h
      cases h
      unfold record
      split
      · exact .inr <| .inl ⟨pid, err, now, rfl, rfl, .inr herr⟩
      · exact .inr <| .inr <| .inr <| .inr ⟨List.Sublist.refl _, rfl, rfl⟩

/-! ### The size of the pool -/

/-- A result without an error promotes an item only while the main tier is below `highWater`. -/
def RoomInMain (s : State ι) : Act ι → Prop
  | .record pid err _ =>
    classifyError err = .errOK → (∃ it ∈ s.pool.items, it.peerID = pid ∧ it.inMain = false) →
      s.pool.main.length < s.pool.highWater
  | _ => True

/-- The main tier is within `highWater`, and a pool that is not has a call that will prune. -/
structure Bounded (s : State ι) : Prop where
  high : s.pool.highWater = poolHighWater
  main : s.pool.main.length ≤ poolHighWater
  size : s.pruning = 0 → s.pool.items.length ≤ poolHighWater

omit [DecidableEq ι] in
theorem main_le_of_sublist {p q : RelayPool ι} (h : q.items.Sublist p.items) : q.main.length ≤ p.main.length :=
  (h.filter _).length_le

theorem Bounded.next {s s' : State ι} {a : Act ι} (h : s.Bounded) (hroom : s.RoomInMain a)
    (hnext : s.next a = some s') : s'.Bounded := by
  obtain ⟨hhigh, hmain, hsize⟩ := h
  rcases next_cases hnext with ⟨pid, addr, now, hnew, hpool, hpruning⟩ | ⟨pid, err, now, hpool, hpruning, hact⟩ |
    ⟨pid, rtt, hpool, hpruning, -, -⟩ | ⟨now, weigh, srt, hpool⟩ | ⟨hsub, hhigh', hpruning⟩
  · -- a new item starts in probation
    have hmain' : s'.pool.main = s.pool.main := by
      simp [hpool, RelayPool.main, RelayPool.insert, RelayItem.new]
    exact ⟨by rw [hpool]; exact hhigh, by rwa [hmain'], by omega⟩
  · refine ⟨by rw [hpool]; exact hhigh, ?_, by omega⟩
    rw [hpool]
    by_cases hpromotes : classifyError err = .errOK ∧ ∃ it ∈ s.pool.items, it.peerID = pid ∧ it.inMain = false
    · obtain ⟨hok, hit⟩ := hpromotes
      rcases hact with rfl | herr
      · have hlt := hroom hok hit
        have hle := s.pool.length_main_modify_le_succ pid (·.record err now) fun it => it.peerID_record err now
        omega
      · cases err with
        | nil => exact absurd rfl herr
        | reservation refused => cases refused <;> cases hok
        | _ => cases hok
    · refine le_trans (RelayPool.length_main_modify_le ?_) hmain
      intro it hit hpid hinMain
      by_cases hok : classifyError err = .errOK
      · by_contra hnot
        exact hpromotes ⟨hok, it, hit, hpid, by simpa using hnot⟩
      · exact RelayItem.inMain_record hok hinMain
  · refine ⟨by rw [hpool]; exact hhigh, ?_, ?_⟩
    · rw [hpool]
      exact le_trans (RelayPool.length_main_modify_le fun it _ _ hit => hit) hmain
    · rw [hpool, hpruning]
      simpa [RelayPool.modify] using hsize
  · -- after a `prune` the pool is within `highWater`, as the main tier is
    have hframe := s.pool.prune_frame now weigh srt
    have hle := s.pool.length_prune_le now weigh srt (by omega)
    have hmain' := main_le_of_sublist hframe.2
    rw [← hpool] at hframe hle hmain'
    exact ⟨by omega, by omega, fun _ => by omega⟩
  · have hmain' := main_le_of_sublist hsub
    have hle := hsub.length_le
    exact ⟨by omega, by omega, fun h0 => by have := hsize (by omega); omega⟩

/-- If main has room for what is promoted, then the pool is within `highWater` whenever all calls have returned. -/
theorem pool_within_highWater {s : State ι} (h : system.Reach RoomInMain s) (hdone : s.pruning = 0) :
    s.pool.items.length ≤ s.pool.highWater := by
  have hbounded : s.Bounded := by
    refine h.invariant (I := Bounded) ?_ ?_
    · rintro s rfl
      exact ⟨rfl, Nat.zero_le _, fun _ => Nat.zero_le _⟩
    · intro s a s' _ hs hroom hnext
      exact hs.next hroom hnext
  rw [hbounded.high]
  exact hbounded.size hdone

/-- An `Add` that returns, and the whole of a `RecordResult` without an error. -/
def addAndPromote (pid : Nat) : List (Act Nat) :=
  [.add pid "" 0, .prune 0 (fun _ => 0) .insertion, .record pid .nil 0, .prune 0 (fun _ => 0) .insertion]

theorem pool_within_highWater_one :
    ∃ s : State Nat, system.Reach RoomInMain s ∧ s.pool.items.length = 1 ∧ s.pool.items.length ≤ s.pool.highWater := by
  have hreach : (system (ι := Nat)).Reach RoomInMain _ :=
    ⟨_, rfl, exec_steps_getD (show (exec next State.start (addAndPromote 0)).isSome = true by decide +kernel)
      ⟨trivial, trivial, fun _ _ => by decide +kernel, trivial, trivial⟩⟩
  exact ⟨_, hreach, by decide +kernel, pool_within_highWater hreach (by decide +kernel)⟩

def promoteBeforePrune : List (Act Nat) :=
  (List.range 50).flatMap addAndPromote ++
    [.add 50 "" 0, .record 50 .nil 0, .prune 0 (fun _ => 0) .insertion, .prune 0 (fun _ => 0) .insertion]

/-- All calls have returned, and the pool holds 51 items. -/
theorem pool_above_highWater :
    ∃ s : State Nat, system.Reach anyStep s ∧ s.pruning = 0 ∧ s.pool.highWater = 50 ∧ s.pool.items.length = 51 := by
  have hreach : (system (ι := Nat)).Reach anyStep _ :=
    ⟨_, rfl, exec_steps_getD (show (exec next State.start promoteBeforePrune).isSome = true by decide +kernel)
      (execMeets_anyStep _ _ _)⟩
  exact ⟨_, hreach, by decide +kernel, by decide +kernel, by decide +kernel⟩

end State

/-! ### The circuit breaker -/

/-- The circuit is open exactly from `circuitThreshold` failures on, and an item of main has fewer than
`demoteThreshold`. -/
structure RelayItem.Consistent (it : RelayItem ι) : Prop where
  circuit : it.circuitOpen = true ↔ it.consecutiveFails ≥ circuitThreshold
  main : it.inMain = true → it.consecutiveFails < demoteThreshold

namespace RelayItem.Consistent

omit [DecidableEq ι]

theorem new (pid : ι) (addr : String) (now : Int) : (RelayItem.new pid addr now).Consistent :=
  ⟨by simp [RelayItem.new, circuitThreshold], nofun⟩

theorem fail {it : RelayItem ι} (h : it.Consistent) : it.fail.Consistent := by
  obtain ⟨hcircuit, -⟩ := h
  constructor
  · simp only [RelayItem.fail, Bool.or_eq_true, decide_eq_true_eq, hcircuit]
    omega
  · simp only [RelayItem.fail, Bool.and_eq_true, Bool.not_eq_true', Bool.and_eq_false_iff, decide_eq_false_iff_not]
    rintro ⟨hmain, hnot | hlt⟩
    · rw [hmain] at hnot
      cases hnot
    · omega

theorem record {it : RelayItem ι} (h : it.Consistent) (err : RelayError) (now : Int) :
    (it.record err now).Consistent := by
  have hresult : (it.result err).Consistent := by
    unfold RelayItem.result
    cases classifyError err with
    | errOK => exact ⟨by simp [circuitThreshold], fun _ => by simp [demoteThreshold]⟩
    | errRateLimited => exact ⟨h.circuit, h.main⟩
    | errFailed => exact h.fail
  exact ⟨hresult.circuit, hresult.main⟩

theorem healthy_iff (it : RelayItem ι) (rtt : Int) : (it.healthy rtt).Consistent ↔ it.circuitOpen = false := by
  constructor
  · intro h
    by_contra hopen
    have hfails := h.circuit.1 (by simpa [RelayItem.healthy] using hopen)
    simp [RelayItem.healthy, circuitThreshold] at hfails
  · intro hclosed
    exact ⟨by simp [RelayItem.healthy, hclosed, circuitThreshold], fun _ => by simp [RelayItem.healthy, demoteThreshold]⟩

end RelayItem.Consistent

namespace State

/-- A relay counted as healthy is not in the pool any more or its circuit is closed. -/
def PingsClosed (s : State ι) : Act ι → Prop
  | .pingOK _ => ∀ it ∈ s.pool.items, s.targets.head? = some it.peerID → it.circuitOpen = false
  | _ => True

def AllConsistent (s : State ι) : Prop := ∀ it ∈ s.pool.items, it.Consistent

theorem AllConsistent.next {s s' : State ι} {a : Act ι} (h : s.AllConsistent) (hping : s.PingsClosed a)
    (hnext : s.next a = some s') : s'.AllConsistent := by
  intro it hit
  rcases next_cases hnext with ⟨pid, addr, now, hnew, hpool, -⟩ | ⟨pid, err, now, hpool, -, -⟩ |
    ⟨pid, rtt, hpool, -, rfl, htarget⟩ | ⟨now, weigh, srt, hpool⟩ | ⟨hsub, -, -⟩
  · rw [hpool] at hit
    rcases List.mem_append.1 hit with hold | hnew
    · exact h it hold
    · rw [List.mem_singleton.1 hnew]
      exact .new pid addr now
  · rw [hpool] at hit
    rcases RelayPool.mem_modify hit with hold | ⟨it', hit', -, rfl⟩
    · exact h it hold
    · exact (h it' hit').record err now
  · rw [hpool] at hit
    rcases RelayPool.mem_modify hit with hold | ⟨it', hit', hpid, rfl⟩
    · exact h it hold
    · exact (RelayItem.Consistent.healthy_iff it' rtt).2 (hping it' hit' (hpid ▸ htarget))
  · rw [hpool] at hit
    exact h it ((s.pool.prune_frame now weigh srt).2.subset hit)
  · exact h it (hsub.subset hit)

/-- If pings count for closed circuits only, then in every item the circuit is open exactly from five failures in a
row on, and no item of main has three. -/
theorem circuit_consistent {s : State ι} (h : system.Reach PingsClosed s) :
    ∀ it ∈ s.pool.items, (it.circuitOpen = true ↔ it.consecutiveFails ≥ 5) ∧
      (it.inMain = true → it.consecutiveFails < demoteThreshold) := by
  have hall : s.AllConsistent := by
    refine h.invariant (I := AllConsistent) ?_ ?_
    · rintro s rfl it hit
      cases hit
    · intro s a s' _ hs hping hnext
      exact hs.next hping hnext
  intro it hit
  exact ⟨(hall it hit).circuit, (hall it hit).main⟩

def failAfterSnapshot : List (Act Nat) :=
  [.add 0 "" 0, .snapshot fun _ => true] ++ List.replicate 5 (.record 0 .other 0)

theorem circuit_consistent_five :
    ∃ s : State Nat, system.Reach PingsClosed s ∧ s.pool.items.map (·.consecutiveFails) = [5] ∧
      ∀ it ∈ s.pool.items, it.circuitOpen = true := by
  have hreach : (system (ι := Nat)).Reach PingsClosed _ :=
    ⟨_, rfl, exec_steps_getD (show (exec next State.start failAfterSnapshot).isSome = true by decide +kernel)
      ⟨trivial, trivial, trivial, trivial, trivial, trivial, trivial, trivial⟩⟩
  refine ⟨_, hreach, by decide +kernel, fun it hit => ((circuit_consistent hreach it hit).1).2 ?_⟩
  revert it
  decide +kernel

/-- The ping that was due from the snapshot succeeds: the circuit stays open with no failure counted. -/
theorem circuit_open_without_failures :
    ∃ s : State Nat, system.Reach anyStep s ∧
      ∃ it ∈ s.pool.items, it.circuitOpen = true ∧ it.consecutiveFails = 0 := by
  have hreach : (system (ι := Nat)).Reach anyStep _ :=
    ⟨_, rfl, exec_steps_getD
      (show (exec next State.start (failAfterSnapshot ++ [.pingOK 1])).isSome = true by decide +kernel)
      (execMeets_anyStep _ _ _)⟩
  exact ⟨_, hreach, by decide +kernel⟩

end State

end Libp2px.Relays
