import Libp2px.RelayFile.Crash

/-!
# The end of a session

A receiving session with `CancelFileSession` and the goroutine that waits for its context.  `CancelFileSession` looks
the session up in `sessions` and then sets its state under the lock, whatever the state is; `receiveLoop` does not look
at the state at all; and `cleanupSession` does nothing for a session that was cancelled.  So a session that was cancelled
can still be done, or stays registered with its `.part` file.  A session that nobody cancels while it is registered ends
once, and cleans up after an error.
-/

namespace Libp2px.RelayFile

open Transition

/-- A session that can be cancelled: how many calls of `CancelFileSession` have found it and not set its state;
whether one has returned without error; and whether the goroutine on the context has run. -/
structure Watched where
  fs : FS
  ses : Session
  loaded : Nat := 0
  cancelled : Bool := false
  watched : Bool := false

namespace Watched

inductive Move
  | session (a : Act)
  /-- `sessions.Load` in `CancelFileSession` -/
  | load
  /-- the rest of `CancelFileSession` for a session that was found -/
  | cancel
  /-- the goroutine after `<-ctx.Done()` -/
  | watch
  deriving DecidableEq

def start (i : Init) (peer : String) (fs : FS) : Watched := ⟨fs, { init := i, peer }, 0, false, false⟩

def next (env : Env) (t : Watched) : Move → Option Watched
  | .session a => (t.ses.step env t.fs a).map fun r => { t with fs := r.1, ses := r.2.1 }
  | .load => some { t with loaded := t.loaded + if t.ses.registered then 1 else 0 }
  | .cancel =>
    if t.loaded = 0 then none
    else some { t with
      ses := { t.ses with state := .cancelled, ctxDone := true }, loaded := t.loaded - 1, cancelled := true }
  | .watch =>
    if t.ses.ctxDone = true ∧ t.watched = false then
      some { t with
        ses := { t.ses with
          state := if t.ses.state ≠ .done ∧ t.ses.state ≠ .error then .cancelled else t.ses.state }
        watched := true }
    else none

def system (env : Env) (i : Init) (peer : String) (fs : FS) : System Watched Move :=
  .ofNext (· = start i peer fs) (next env)

def NotFound (t : Watched) : Move → Prop
  | .load => t.ses.registered = false
  | _ => True

instance decidableNotFound (t : Watched) : (m : Move) → Decidable (t.NotFound m)
  | .load => inferInstanceAs (Decidable (t.ses.registered = false))
  | .session _ | .cancel | .watch => inferInstanceAs (Decidable True)

end Watched

def Stage.late : Stage → Bool
  | finished | failed | unregister | returned => true
  | _ => false

theorem Session.late_step {env : Env} {fs : FS} {s : Session} {a : Act} {r : FS × Session × List Reply}
    (h : s.step env fs a = some r) (hlate : s.stage.late = true) : r.2.1.stage.late = true := by
  have hfits := fits_of_step h
  cases stepped h with
  | done | notDone | ended | cleaned | deleted => rfl
  | _ =>
    generalize s.stage = stage at hlate hfits
    cases stage with
    | finished | failed | unregister | returned => cases hfits
    | _ => cases hlate

namespace Watched

variable {env : Env} {i : Init} {peer : String} {fs : FS} {t t' : Watched}

/-- What holds of a session that nobody finds: an end is reached once, and an error has been cleaned up. -/
structure Clean (env : Env) (t : Watched) : Prop where
  loaded : t.loaded = 0
  cancelled : t.cancelled = false
  ctxDone : t.ses.ctxDone = false
  state : t.ses.state ≠ .cancelled
  done : t.ses.state = .done → t.ses.stage.late = true
  error : t.ses.state = .error → t.fs.dir (t.ses.tmpPath env) = none ∧
    (t.ses.stage = .unregister ∨ t.ses.stage = .returned ∧ t.ses.registered = false)

theorem Clean.late (h : t.Clean env) (hended : t.ses.state.ended = true) : t.ses.stage.late = true := by
  cases hstate : t.ses.state with
  | done => exact h.done hstate
  | error =>
    rcases (h.error hstate).2 with hst | ⟨hst, -⟩ <;> rw [hst] <;> rfl
  | cancelled => exact absurd hstate h.state
  | init | transfer =>
    rw [hstate] at hended
    cases hended

variable {r : FS × Session × List Reply}

theorem Clean.state_step (h : t.Clean env) {a : Act}
    (hstep : t.ses.step env t.fs a = some r) (hended : t.ses.state.ended = true) : r.2.1.state = t.ses.state := by
  rcases Session.step_kept hstep with hkept | ⟨-, -, heq⟩ | ⟨hst, -, -⟩ | ⟨-, hnot, -⟩ | ⟨-, -, heq⟩
  · simp only [Session.kept, Prod.mk.injEq] at hkept
    exact hkept.2.2.1
  · rw [heq]
  · have hlate := h.late hended
    rw [hst] at hlate
    cases hlate
  · rw [hnot] at hended
    cases hended
  · rw [heq]

theorem Clean.delete (h : t.Clean env) (herror : t.ses.state = .error) {a : Act}
    (hstep : t.ses.step env t.fs a = some r) :
    t.ses.stage = .unregister ∧ r = (t.fs, { t.ses with stage := .returned, registered := false }, []) := by
  have hfits := Session.fits_of_step hstep
  cases Session.stepped hstep with
  | deleted hst => exact ⟨hst, rfl⟩
  | _ => rcases (h.error herror).2 with hst | ⟨hst, -⟩ <;> rw [hst] at hfits <;> cases hfits

theorem Clean.session (h : t.Clean env) {a : Act}
    (hstep : t.ses.step env t.fs a = some r) : Clean env { t with fs := r.1, ses := r.2.1 } := by
  by_cases herror : t.ses.state = .error
  · obtain ⟨-, heq⟩ := h.delete herror hstep
    have hdir := (h.error herror).1
    rw [heq]
    exact { h with
      done := fun hdone => absurd (herror.symm.trans hdone) (by decide)
      error := fun _ => ⟨hdir, .inr ⟨rfl, rfl⟩⟩ }
  · rcases Session.step_kept hstep with hkept | ⟨hst, -, heq⟩ | ⟨-, -, heq⟩ | ⟨-, -, hfs, heq⟩ | ⟨hst, -, heq⟩
    · simp only [Session.kept, Prod.mk.injEq] at hkept
      obtain ⟨-, -, hstate, -, hctx⟩ := hkept
      refine ⟨h.loaded, h.cancelled, hctx.trans h.ctxDone, ?_, ?_, ?_⟩
      · rw [hstate]
        exact h.state
      · intro hdone
        exact Session.late_step hstep (h.done (hstate.symm.trans hdone))
      · intro herr
        exact absurd (hstate.symm.trans herr) herror
    · refine ⟨h.loaded, h.cancelled, by rw [heq]; exact h.ctxDone, by rw [heq]; exact h.state, ?_, ?_⟩
      · rw [heq]
        intro hdone
        have hlate := h.done hdone
        rw [hst] at hlate
        cases hlate
      · rw [heq]
        exact fun herr => absurd herr herror
    · refine ⟨h.loaded, h.cancelled, by rw [heq]; exact h.ctxDone, ?_, ?_, ?_⟩ <;> rw [heq]
      · exact fun hno => by cases hno
      · exact fun _ => rfl
      · exact fun hno => by cases hno
    · refine ⟨h.loaded, h.cancelled, by rw [heq]; exact h.ctxDone, ?_, ?_, ?_⟩ <;> rw [heq]
      · exact fun hno => by cases hno
      · exact fun hno => by cases hno
      · refine fun _ => ⟨?_, .inl rfl⟩
        rw [hfs]
        exact Function.update_self ..
    · refine ⟨h.loaded, h.cancelled, by rw [heq]; exact h.ctxDone, by rw [heq]; exact h.state, ?_, ?_⟩ <;> rw [heq]
      · exact fun _ => rfl
      · exact fun herr => absurd herr herror

theorem Clean.next (h : t.Clean env) {m : Move} (hno : t.NotFound m) (hnext : t.next env m = some t') :
    t'.Clean env ∧ (t.ses.state.ended = true → t'.ses.state = t.ses.state) := by
  cases m with
  | session a =>
    obtain ⟨r, hr, rfl⟩ := Option.map_eq_some_iff.1 hnext
    exact ⟨h.session hr, h.state_step hr⟩
  | load =>
    have hreg : t.ses.registered = false := hno
    cases hnext
    refine ⟨{ h with loaded := ?_ }, fun _ => rfl⟩
    simp [h.loaded, hreg]
  | cancel =>
    simp [Watched.next, h.loaded] at hnext
  | watch =>
    simp [Watched.next, h.ctxDone] at hnext

theorem clean_start (env : Env) (i : Init) (peer : String) (fs : FS) : (start i peer fs).Clean env :=
  ⟨rfl, rfl, rfl, fun hno => (by cases hno), fun hno => (by cases hno), fun hno => (by cases hno)⟩

theorem clean_reach (h : (system env i peer fs).Reach NotFound t) : t.Clean env := by
  refine h.invariant (I := Clean env) ?_ ?_
  · rintro t rfl
    exact clean_start env i peer fs
  · intro t m t' _ ht hno hnext
    exact (ht.next hno hnext).1

/-- If `CancelFileSession` never finds the session, then its end is final; and a session that ended with an error or
cancelled has removed its `.part` file and is not in `sessions`. -/
theorem end_is_final_and_clean (h : (system env i peer fs).Reach NotFound t) :
    (∀ t', (system env i peer fs).Steps NotFound t t' → t.ses.state.ended = true → t'.ses.state = t.ses.state) ∧
      (∀ t', (system env i peer fs).Steps NotFound t t' → t.cancelled = true →
        t'.fs.dir (t.ses.savePath env) = t.fs.dir (t.ses.savePath env)) ∧
      (t.ses.stage = .returned → t.ses.state = .error ∨ t.ses.state = .cancelled →
        t.fs.dir (t.ses.tmpPath env) = none ∧ t.ses.registered = false) := by
  have hclean := clean_reach h
  refine ⟨fun t' hsteps hended => ?_, fun t' _ hcancelled => ?_, fun hst hstate => ?_⟩
  · have hend := hsteps.induction (I := fun u => u.Clean env ∧ u.ses.state = t.ses.state) ⟨hclean, rfl⟩ ?_
    · exact hend.2
    · rintro u m v ⟨hu, heq⟩ hno hnext
      obtain ⟨hv, hsame⟩ := hu.next hno hnext
      exact ⟨hv, (hsame (heq ▸ hended)).trans heq⟩
  · rw [hclean.cancelled] at hcancelled
    cases hcancelled
  · rcases hstate with herror | hcancelled
    · obtain ⟨hdir, hend⟩ := hclean.error herror
      refine ⟨hdir, ?_⟩
      rcases hend with hno | ⟨-, hreg⟩
      · rw [hst] at hno
        cases hno
      · exact hreg
    · exact absurd hcancelled hclean.state

def emptyInit : Init := { Receiving.resumeInit 1 1 with offset := 0, checksum := .sha256 "" }

/-- An environment in which every file has the checksum that was announced. -/
def trustingEnv : Env where
  zstd := storing
  json :=
    { init := fun _ => some emptyInit
      finChecksum := fun _ => emptyInit.checksum
      init_fits := fun _ _ h => Option.some.inj h ▸ (by decide) }
  sha256 := fun _ => ""
  finalPath := id

def untilLoop : List Move := [.session (.begin true true), .session (.prepare true), .session (.accept true)]

def breakOff : List Move := [.session .readError, .session .cleanup]

def complete : List Move :=
  [.session (.recv ⟨frameTypeFin, []⟩ .ok), .session .openPart, .session .hashEnd, .session (.rename true),
    .session .finish]

theorem end_is_final_and_clean_error :
    ∃ t, (system trustingEnv emptyInit "peer" (.ofFiles fun _ => none)).Reach NotFound t ∧ t.ses.state = .error ∧
      t.fs.dir (t.ses.tmpPath trustingEnv) = none ∧ t.ses.registered = false := by
  have hreach : (system trustingEnv emptyInit "peer" (.ofFiles fun _ => none)).Reach NotFound _ :=
    ⟨_, rfl, exec_steps_getD
      (show (exec (next trustingEnv) (start emptyInit "peer" (.ofFiles fun _ => none))
        (untilLoop ++ breakOff ++ [.session .delete, .load])).isSome = true by decide +kernel)
      (by decide +kernel)⟩
  exact ⟨_, hreach, by decide +kernel,
    (end_is_final_and_clean hreach).2.2 (by decide +kernel) (.inl (by decide +kernel))⟩

/-- A session that was cancelled becomes done and takes its file name; another one stays registered, with its `.part`
file. -/
theorem cancelled_is_not_the_end :
    (∃ t t', (system trustingEnv emptyInit "peer" (.ofFiles fun _ => none)).Reach anyStep t ∧
        (system trustingEnv emptyInit "peer" (.ofFiles fun _ => none)).Steps anyStep t t' ∧ t.cancelled = true ∧
        t.ses.state = .cancelled ∧ t'.ses.state = .done ∧ t.fs.read "a" = none ∧ t'.fs.read "a" = some []) ∧
      ∃ t, (system trustingEnv emptyInit "peer" (.ofFiles fun _ => none)).Reach anyStep t ∧
        t.ses.stage = .returned ∧ t.ses.state = .cancelled ∧ t.fs.read "a.relayfile.part" = some [] ∧
        t.ses.registered = true := by
  have hcancel : (system trustingEnv emptyInit "peer" (.ofFiles fun _ => none)).Reach anyStep _ :=
    ⟨_, rfl, exec_steps_getD
      (show (exec (next trustingEnv) (start emptyInit "peer" (.ofFiles fun _ => none))
        (untilLoop ++ [.load, .cancel])).isSome = true by decide +kernel)
      (execMeets_anyStep _ _ _)⟩
  have hdone : (system trustingEnv emptyInit "peer" (.ofFiles fun _ => none)).Steps anyStep _ _ :=
    exec_steps_getD
      (show (exec (next trustingEnv) ((exec (next trustingEnv) (start emptyInit "peer" (.ofFiles fun _ => none))
        (untilLoop ++ [.load, .cancel])).getD (start emptyInit "peer" (.ofFiles fun _ => none))) complete).isSome = true
        by decide +kernel)
      (execMeets_anyStep _ _ _)
  have hleft : (system trustingEnv emptyInit "peer" (.ofFiles fun _ => none)).Reach anyStep _ :=
    ⟨_, rfl, exec_steps_getD
      (show (exec (next trustingEnv) (start emptyInit "peer" (.ofFiles fun _ => none))
        (untilLoop ++ [.load, .cancel] ++ breakOff)).isSome = true by decide +kernel)
      (execMeets_anyStep _ _ _)⟩
  exact ⟨⟨_, _, hcancel, hdone, by decide +kernel, by decide +kernel, by decide +kernel, by decide +kernel,
    by decide +kernel⟩, ⟨_, hleft, by decide +kernel, by decide +kernel, by decide +kernel, by decide +kernel⟩⟩

end Watched

end Libp2px.RelayFile
