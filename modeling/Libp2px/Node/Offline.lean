import Mathlib.Data.List.Induction
import Mathlib.Tactic.Tauto

/-!
# The offline detector

`p2put/offline.go`: `evaluate` looks whether the host has a connection and changes the state once the answer has been
the same for `confirmDur`.  The two timestamps `goodSince` and `badSince` are the time at which the present run of
equal answers began (`runStart`), so a transition is a statement about the evaluations themselves
(`changes_iff_long_run`).
-/

namespace Libp2px.Node

inductive OfflineState
  | offline
  | online
  deriving DecidableEq

def OfflineState.string : OfflineState → String
  | .online => "online"
  | .offline => "offline"

/-- `network.Direction`. -/
inductive Direction
  | unknown
  | inbound
  | outbound
  deriving DecidableEq

/-- `confirmDur`: three ticks of 1.5 s, in nanoseconds. -/
def confirmDur : Nat := 1500000000 * 3

/-- The times are those of `time.Now()`, in nanoseconds; `none` is the zero `time.Time`. -/
structure OfflineDetector where
  state : OfflineState := .offline
  lastTransitionTime : Nat
  goodSince : Option Nat := none
  badSince : Option Nat := none

/-- What a call of `evaluate` sees: the time, and the connections at each of its two looks at the network. -/
structure Evaluation where
  now : Nat
  conns : List Direction
  conns' : List Direction

/-- `active > 0`. -/
def Evaluation.active (e : Evaluation) : Bool :=
  decide ((if .outbound ∈ e.conns then 1 else 0) + (if .inbound ∈ e.conns' then 1 else 0) > 0)

namespace OfflineDetector

/-- The timestamps after the `switch`. -/
def mark (d : OfflineDetector) (e : Evaluation) : OfflineDetector :=
  if e.active then { d with goodSince := some (d.goodSince.getD e.now), badSince := none }
  else { d with badSince := some (d.badSince.getD e.now), goodSince := none }

def target (d : OfflineDetector) (now : Nat) : OfflineState :=
  if d.goodSince.any fun t => now - t ≥ confirmDur then .online
  else if d.badSince.any fun t => now - t ≥ confirmDur then .offline
  else d.state

/-- `evaluate`: the detector, and what it tells `OnChange`. -/
def evaluate (d : OfflineDetector) (e : Evaluation) : OfflineDetector × Option (OfflineState × String) :=
  let d := d.mark e
  let target := d.target e.now
  if target ≠ d.state then
    ({ d with state := target, lastTransitionTime := e.now }, some (target, target.string))
  else (d, none)

def after (created : Nat) (evals : List Evaluation) : OfflineDetector :=
  evals.foldl (fun d e => (d.evaluate e).1) { lastTransitionTime := created }

/-- When the evaluations that end the list and see `b` begin. -/
def runStart (b : Bool) (evals : List Evaluation) : Option Nat :=
  evals.foldl (fun s e => if e.active = b then some (s.getD e.now) else none) none

variable {b : Bool} {e : Evaluation} {evals : List Evaluation}

theorem runStart_append (b : Bool) (evals : List Evaluation) (e : Evaluation) :
    runStart b (evals ++ [e]) = if e.active = b then some ((runStart b evals).getD e.now) else none := by
  simp [runStart]

theorem since_after (created : Nat) (evals : List Evaluation) :
    (after created evals).goodSince = runStart true evals ∧ (after created evals).badSince = runStart false evals := by
  induction evals using List.reverseRecOn with
  | nil => exact ⟨rfl, rfl⟩
  | append_singleton evals e ih =>
    have heval : ∀ d : OfflineDetector, (d.evaluate e).1.goodSince = (d.mark e).goodSince ∧
        (d.evaluate e).1.badSince = (d.mark e).badSince := by
      intro d
      unfold evaluate
      simp only
      split <;> exact ⟨rfl, rfl⟩
    have happ : after created (evals ++ [e]) = ((after created evals).evaluate e).1 := by simp [after]
    rw [happ, (heval _).1, (heval _).2, runStart_append, runStart_append, ← ih.1, ← ih.2, mark]
    cases e.active <;> exact ⟨rfl, rfl⟩

/-- The evaluations end with a run that sees `b` and begins at `s`. -/
def EndsWith (b : Bool) (evals : List Evaluation) (s : Nat) : Prop :=
  ∃ before first rest, evals = before ++ first :: rest ∧ first.now = s ∧ ∀ e ∈ first :: rest, e.active = b

theorem endsWith_runStart {s : Nat} (h : runStart b evals = some s) : EndsWith b evals s := by
  induction evals using List.reverseRecOn generalizing s with
  | nil => cases h
  | append_singleton evals e ih =>
    rw [runStart_append] at h
    split at h
    · rename_i hb
      cases hs : runStart b evals with
      | none =>
        rw [hs] at h
        exact ⟨evals, e, [], rfl, Option.some.inj h, by simpa using hb⟩
      | some s' =>
        rw [hs] at h
        obtain ⟨before, first, rest, heq, hfirst, hall⟩ := ih hs
        refine ⟨before, first, rest ++ [e], by simp [heq], hfirst.trans (Option.some.inj h), ?_⟩
        simpa [or_imp, forall_and, hb] using hall
    · cases h

theorem runStart_le {s : Nat} (h : EndsWith b evals s) (hsorted : evals.Pairwise (·.now ≤ ·.now)) :
    ∃ s' ≤ s, runStart b evals = some s' := by
  obtain ⟨before, first, rest, rfl, rfl, hall⟩ := h
  induction rest using List.reverseRecOn with
  | nil =>
    rw [runStart_append, if_pos (hall first List.mem_cons_self)]
    cases hs : runStart b before with
    | none => exact ⟨first.now, Nat.le_refl _, rfl⟩
    | some s' =>
      obtain ⟨before', first', rest', rfl, rfl, -⟩ := endsWith_runStart hs
      exact ⟨first'.now, (List.pairwise_append.1 hsorted).2.2 first' (by simp) first (by simp), rfl⟩
  | append_singleton rest e ih =>
    have happ : before ++ first :: (rest ++ [e]) = (before ++ first :: rest) ++ [e] := by simp
    rw [happ] at hsorted ⊢
    obtain ⟨s', hle, hs⟩ := ih (List.pairwise_append.1 hsorted).1 fun x hx => hall x (by simp at hx ⊢; tauto)
    exact ⟨s', hle, by rw [runStart_append, if_pos (hall e (by simp)), hs]; rfl⟩

/-- The state that a run of `b` leads to. -/
def confirmed (b : Bool) : OfflineState := if b then .online else .offline

theorem state_after_append (created : Nat) (evals : List Evaluation) (e : Evaluation) :
    (after created (evals ++ [e])).state =
      if (runStart e.active (evals ++ [e])).any fun t => e.now - t ≥ confirmDur then confirmed e.active
      else (after created evals).state := by
  have heval : ∀ d : OfflineDetector, (d.evaluate e).1.state = (d.mark e).target e.now := by
    intro d
    unfold evaluate
    simp only
    split
    · rfl
    · rename_i hsame
      exact (not_not.1 hsame).symm
  have happ : after created (evals ++ [e]) = ((after created evals).evaluate e).1 := by simp [after]
  obtain ⟨hgood, hbad⟩ := since_after created evals
  rw [happ, heval, runStart_append, if_pos rfl, target, mark]
  cases e.active
  · simp [hbad, confirmed]
  · simp [hgood, confirmed]

/-- An evaluation changes the state exactly if a run of evaluations that ends with it and began `confirmDur` ago or
earlier saw what it sees, and that is not what the state says. -/
theorem changes_iff_long_run (created : Nat) (evals : List Evaluation) (e : Evaluation)
    (hsorted : (evals ++ [e]).Pairwise (·.now ≤ ·.now)) :
    (after created (evals ++ [e])).state ≠ (after created evals).state ↔
      (∃ s, s + confirmDur ≤ e.now ∧ EndsWith e.active (evals ++ [e]) s) ∧
        confirmed e.active ≠ (after created evals).state := by
  have hlong : (runStart e.active (evals ++ [e])).any (fun t => e.now - t ≥ confirmDur) = true ↔
      ∃ s, s + confirmDur ≤ e.now ∧ EndsWith e.active (evals ++ [e]) s := by
    have hpos : 0 < confirmDur := by decide
    simp only [Option.any_eq_true, decide_eq_true_eq]
    constructor
    · rintro ⟨s, hs, hge⟩
      exact ⟨s, by omega, endsWith_runStart hs⟩
    · rintro ⟨s, hle, hends⟩
      obtain ⟨s', hs', heq⟩ := runStart_le hends hsorted
      exact ⟨s', heq, by omega⟩
  rw [state_after_append, ← hlong]
  split
  · rename_i h
    exact ⟨fun hne => ⟨h, hne⟩, And.right⟩
  · rename_i h
    exact ⟨fun hne => absurd rfl hne, fun hrun => absurd hrun.1 h⟩

/-- Two evaluations 4.5 s apart that see a connection. -/
theorem changes_iff_long_run_online :
    let e : Nat → Evaluation := fun t => ⟨t, [.outbound], []⟩
    (after 0 ([e 1] ++ [e (1 + confirmDur)])).state ≠ (after 0 [e 1]).state :=
  (changes_iff_long_run 0 [⟨1, [.outbound], []⟩] ⟨1 + confirmDur, [.outbound], []⟩ (by simp)).2
    ⟨⟨1, Nat.le_refl _, [], _, _, rfl, rfl, by decide⟩, by decide⟩

end OfflineDetector

end Libp2px.Node
