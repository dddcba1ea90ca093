import Mathlib

/-!
# Labelled transition systems

A system is a set of initial states and a labelled step relation.  `Steps P s t` is a run from `s` to `t` all of
whose steps meet the condition `P` on the state before the step and its label, and `Reach P t` is such a run from an
initial state; with the condition `anyStep` these are the plain runs.  The rules of this file are the ones an
invariant proof needs: induction along a run (`Steps.induction`, `Reach.invariant`), and a list of labels executed by
a function is a run (`exec_steps`); `execMeets_congr` and `execMeets_iff_of_step` are the rules for a condition that
is exact at each step.
-/

namespace Transition

variable {S L : Type*}

structure System (S L : Type*) where
  init : S → Prop
  step : S → L → S → Prop

def anyStep : S → L → Prop := fun _ _ => True

namespace System

variable (M : System S L)

/-- The runs from `s` to `t` whose steps all meet `P`. -/
def Steps (P : S → L → Prop) : S → S → Prop :=
  Relation.ReflTransGen fun s t => ∃ l, P s l ∧ M.step s l t

/-- The states that end a run from an initial state whose steps all meet `P`. -/
def Reach (P : S → L → Prop) (t : S) : Prop := ∃ s, M.init s ∧ M.Steps P s t

variable {M} {P Q : S → L → Prop} {s t u : S}

theorem Steps.refl (s : S) : M.Steps P s s := Relation.ReflTransGen.refl

theorem Steps.single {l : L} (hP : P s l) (h : M.step s l t) : M.Steps P s t :=
  Relation.ReflTransGen.single ⟨l, hP, h⟩

theorem Steps.trans (h₁ : M.Steps P s t) (h₂ : M.Steps P t u) : M.Steps P s u :=
  Relation.ReflTransGen.trans h₁ h₂

theorem Steps.tail {l : L} (h₁ : M.Steps P s t) (hP : P t l) (h : M.step t l u) : M.Steps P s u :=
  Relation.ReflTransGen.tail h₁ ⟨l, hP, h⟩

theorem Steps.induction {I : S → Prop} (h : M.Steps P s t) (h₀ : I s)
    (hstep : ∀ s l t, I s → P s l → M.step s l t → I t) : I t := by
  induction h with
  | refl => exact h₀
  | tail _ hs ih =>
    obtain ⟨l, hP, hs⟩ := hs
    exact hstep _ l _ ih hP hs

theorem Reach.init (h : M.init s) : M.Reach P s := ⟨s, h, Steps.refl s⟩

theorem Reach.steps (h : M.Reach P s) (hs : M.Steps P s t) : M.Reach P t := by
  obtain ⟨s₀, h₀, hr⟩ := h
  exact ⟨s₀, h₀, hr.trans hs⟩

theorem Reach.step {l : L} (h : M.Reach P s) (hP : P s l) (hs : M.step s l t) : M.Reach P t :=
  h.steps (Steps.single hP hs)

/-- An invariant holds in every state reached: it holds initially and every step from a reached state keeps it. -/
theorem Reach.invariant {I : S → Prop} (h : M.Reach P t) (h₀ : ∀ s, M.init s → I s)
    (hstep : ∀ s l t, M.Reach P s → I s → P s l → M.step s l t → I t) : I t := by
  obtain ⟨s₀, hinit, hr⟩ := h
  have key : M.Reach P t ∧ I t := by
    refine hr.induction (I := fun s => M.Reach P s ∧ I s) ⟨Reach.init hinit, h₀ _ hinit⟩ ?_
    intro s l t ⟨hs, hI⟩ hP hst
    exact ⟨hs.step hP hst, hstep s l t hs hI hP hst⟩
  exact key.2

end System

/-! ### Systems given by a function -/

/-- The system whose steps are computed by `next` (`none`: the step is not enabled). -/
def System.ofNext (init : S → Prop) (next : S → L → Option S) : System S L where
  init := init
  step s l t := next s l = some t

/-- The labels of a list executed one after the other. -/
def exec (next : S → L → Option S) : S → List L → Option S
  | s, [] => some s
  | s, l :: ls => (next s l).bind fun t => exec next t ls

/-- Every step of the execution of a list meets a condition. -/
def execMeets (next : S → L → Option S) (P : S → L → Prop) : S → List L → Prop
  | _, [] => True
  | s, l :: ls =>
    P s l ∧
      match next s l with
      | some t => execMeets next P t ls
      | none => True

instance decidableExecMeets {next : S → L → Option S} {P : S → L → Prop} [∀ s l, Decidable (P s l)] :
    (s : S) → (ls : List L) → Decidable (execMeets next P s ls)
  | _, [] => inferInstanceAs (Decidable True)
  | s, l :: ls =>
    have : Decidable (match next s l with
        | some t => execMeets next P t ls
        | none => True) :=
      match next s l with
      | some t => decidableExecMeets t ls
      | none => inferInstanceAs (Decidable True)
    inferInstanceAs (Decidable (P s l ∧ _))

variable {next : S → L → Option S} {P : S → L → Prop} {ls : List L}

theorem exec_steps {init : S → Prop} {s t : S}
    (h : exec next s ls = some t) (hP : execMeets next P s ls) : (System.ofNext init next).Steps P s t := by
  induction ls generalizing s with
  | nil =>
    cases h
    exact System.Steps.refl _
  | cons l ls ih =>
    simp only [exec, Option.bind_eq_some_iff] at h
    obtain ⟨u, hu, hr⟩ := h
    have hmeets := hP.2
    rw [hu] at hmeets
    exact (System.Steps.single hP.1 hu).trans (ih hr hmeets)

theorem exec_steps_getD {init : S → Prop} {s : S} (h : (exec next s ls).isSome = true) (hP : execMeets next P s ls) :
    (System.ofNext init next).Steps P s ((exec next s ls).getD s) := by
  obtain ⟨t, ht⟩ := Option.isSome_iff_exists.1 h
  rw [ht]
  exact exec_steps ht hP

theorem execMeets_of_forall (h : ∀ l ∈ ls, ∀ s, P s l) (s : S) : execMeets next P s ls := by
  induction ls generalizing s with
  | nil => trivial
  | cons l ls ih =>
    refine ⟨h l List.mem_cons_self s, ?_⟩
    split
    · exact ih (fun l' hl' => h l' (List.mem_cons_of_mem l hl')) _
    · trivial

theorem execMeets_anyStep (next : S → L → Option S) (s : S) (ls : List L) : execMeets next anyStep s ls :=
  execMeets_of_forall (fun _ _ _ => trivial) s

/-- Two conditions that agree on the steps from states of an invariant agree on an execution; the second one keeps the
invariant. -/
theorem execMeets_congr {P Q R : S → L → Prop} {I : S → Prop} (hiff : ∀ s l, I s → R s l → (P s l ↔ Q s l))
    (hkeep : ∀ s l t, I s → R s l → Q s l → next s l = some t → I t) {s : S} (hs : I s) (hR : execMeets next R s ls) :
    execMeets next P s ls ↔ execMeets next Q s ls := by
  induction ls generalizing s with
  | nil => exact Iff.rfl
  | cons l ls ih =>
    obtain ⟨hl, hrest⟩ := hR
    unfold execMeets
    rw [hiff s l hs hl]
    apply and_congr_right
    intro hQ
    cases hn : next s l with
    | none => exact Iff.rfl
    | some t =>
      rw [hn] at hrest
      exact ih (hkeep s l t hs hl hQ hn) hrest

/-- If a step from a good state leads to a good state exactly when it meets the condition, then all the steps of an
execution lead to good states exactly when all of them meet it. -/
theorem execMeets_iff_of_step {I : S → Prop} (hsome : ∀ s l t, I s → next s l = some t → (I t ↔ P s l))
    (hnone : ∀ s l, I s → next s l = none → P s l) {s : S} (hs : I s) (ls : List L) :
    execMeets next (fun s l => ∀ t, next s l = some t → I t) s ls ↔ execMeets next P s ls := by
  refine execMeets_congr (R := anyStep) ?_ ?_ hs (execMeets_anyStep next s ls)
  · intro s l hI _
    constructor
    · intro h
      cases hn : next s l with
      | none => exact hnone s l hI hn
      | some t => exact (hsome s l t hI hn).1 (h t hn)
    · intro hP t hn
      exact (hsome s l t hI hn).2 hP
  · intro s l t hI _ hP hn
    exact (hsome s l t hI hn).2 hP

end Transition
