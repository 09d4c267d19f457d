import Mathlib.Data.List.Basic
import Mathlib.Tactic.TypeStar

/-!
# Runs of a deterministic machine

A machine is a total function `step : σ → ε → σ` of a state and an event.
`run` applies it along a list of events and `Along P` says that every step of
that run meets the condition `P`, a relation between the state before the step
and the event. The induction over a run is made once here: `invariant_run`
carries an invariant along a run.

A machine that answers is a function `step : σ → ε → σ × ο`; `next` forgets the
answers and `outputs` collects them. `simulation_run` carries a relation between
two such machines along a run and shows that they answer alike. What a machine should do can
also be a relation `A` of a state, an event, an answer and the next state; `Explains A` is a
run of it, and `refinement_run` finds one for the run of a machine.
-/

namespace Machine

variable {σ τ ε ο : Type*}

/-- The state reached from `s` by the events in order. -/
def run (step : σ → ε → σ) (s : σ) (es : List ε) : σ := es.foldl step s

@[simp] theorem run_nil (step : σ → ε → σ) (s : σ) : run step s [] = s := rfl

@[simp] theorem run_cons (step : σ → ε → σ) (s : σ) (e : ε) (es : List ε) :
    run step s (e :: es) = run step (step s e) es := rfl

theorem run_append (step : σ → ε → σ) (s : σ) (es fs : List ε) :
    run step s (es ++ fs) = run step (run step s es) fs := by
  simp [run]

/-- Every step of the run from `s` meets `P`, which sees the state before the
step and the event. -/
def Along (step : σ → ε → σ) (P : σ → ε → Prop) : σ → List ε → Prop
  | _, [] => True
  | s, e :: es => P s e ∧ Along step P (step s e) es

@[simp] theorem along_nil (step : σ → ε → σ) (P : σ → ε → Prop) (s : σ) :
    Along step P s [] := trivial

@[simp] theorem along_cons (step : σ → ε → σ) (P : σ → ε → Prop) (s : σ) (e : ε)
    (es : List ε) :
    Along step P s (e :: es) ↔ P s e ∧ Along step P (step s e) es := Iff.rfl

theorem along_append (step : σ → ε → σ) (P : σ → ε → Prop) (s : σ) (es fs : List ε) :
    Along step P s (es ++ fs) ↔
      Along step P s es ∧ Along step P (run step s es) fs := by
  induction es generalizing s with
  | nil => simp
  | cons e es ih => simp [ih, and_assoc]

instance decidableAlong (step : σ → ε → σ) (P : σ → ε → Prop)
    [∀ s e, Decidable (P s e)] : ∀ s es, Decidable (Along step P s es)
  | _, [] => isTrue trivial
  | s, e :: es =>
      have := decidableAlong step P (step s e) es
      inferInstanceAs (Decidable (P s e ∧ Along step P (step s e) es))

/-- An invariant that every admitted step keeps holds at the end of the run. -/
theorem invariant_run {step : σ → ε → σ} {P : σ → ε → Prop} {I : σ → Prop}
    (hstep : ∀ s e, I s → P s e → I (step s e))
    {s : σ} (hs : I s) {es : List ε} (hes : Along step P s es) :
    I (run step s es) := by
  induction es generalizing s with
  | nil => exact hs
  | cons e es ih =>
      obtain ⟨he, hes⟩ := hes
      exact ih (hstep s e hs he) hes

/-- What every admitted step from a state of the invariant meets is met along the run. -/
theorem along_run {step : σ → ε → σ} {P Q : σ → ε → Prop} {I : σ → Prop}
    (hstep : ∀ s e, I s → P s e → I (step s e)) (hmeets : ∀ s e, I s → P s e → Q s e)
    {s : σ} (hs : I s) {es : List ε} (hes : Along step P s es) : Along step Q s es := by
  induction es generalizing s with
  | nil => trivial
  | cons e es ih =>
      obtain ⟨he, hes⟩ := hes
      exact ⟨hmeets s e hs he, ih (hstep s e hs he) hes⟩

theorem Along.and {step : σ → ε → σ} {P Q : σ → ε → Prop} {s : σ} {es : List ε}
    (hP : Along step P s es) (hQ : Along step Q s es) :
    Along step (fun s e => P s e ∧ Q s e) s es := by
  induction es generalizing s with
  | nil => trivial
  | cons e es ih => exact ⟨⟨hP.1, hQ.1⟩, ih hP.2 hQ.2⟩

section Outputs

/-- The state component of a machine that answers. -/
def next (step : σ → ε → σ × ο) (s : σ) (e : ε) : σ := (step s e).1

/-- The answers of a machine to the events in order. -/
def outputs (step : σ → ε → σ × ο) : σ → List ε → List ο
  | _, [] => []
  | s, e :: es => (step s e).2 :: outputs step (step s e).1 es

@[simp] theorem outputs_cons (step : σ → ε → σ × ο) (s : σ) (e : ε) (es : List ε) :
    outputs step s (e :: es) = (step s e).2 :: outputs step (next step s e) es := rfl

/-- Related machines stay related along a run whose steps are admitted, and give
the same answers. -/
theorem simulation_run {f : σ → ε → σ × ο} {g : τ → ε → τ × ο} {P : σ → ε → Prop}
    {R : σ → τ → Prop}
    (hstep : ∀ s t e, R s t → P s e → R (f s e).1 (g t e).1 ∧ (f s e).2 = (g t e).2)
    {s : σ} {t : τ} (hst : R s t) {es : List ε} (hes : Along (next f) P s es) :
    R (run (next f) s es) (run (next g) t es) ∧ outputs f s es = outputs g t es := by
  induction es generalizing s t with
  | nil => exact ⟨hst, rfl⟩
  | cons e es ih =>
      obtain ⟨he, hes⟩ := hes
      obtain ⟨hnext, hanswer⟩ := hstep s t e hst he
      obtain ⟨hrun, houtputs⟩ := ih hnext hes
      refine ⟨hrun, ?_⟩
      rw [outputs_cons, outputs_cons, hanswer]
      exact congrArg _ houtputs

/-- A run of a relation between a state, an event, an answer and the next state. -/
inductive Explains (A : τ → ε → ο → τ → Prop) : τ → List ε → List ο → τ → Prop
  | nil (t : τ) : Explains A t [] [] t
  | cons {t t' t'' : τ} {e : ε} {o : ο} {es : List ε} {os : List ο} :
      A t e o t' → Explains A t' es os t'' → Explains A t (e :: es) (o :: os) t''

/-- If the relation explains every admitted step from related states, then it explains every
run of such steps. -/
theorem refinement_run {f : σ → ε → σ × ο} {A : τ → ε → ο → τ → Prop} {P : σ → ε → Prop}
    {R : σ → τ → Prop}
    (hstep : ∀ s t e, R s t → P s e → ∃ t', A t e (f s e).2 t' ∧ R (f s e).1 t')
    {s : σ} {t : τ} (hst : R s t) {es : List ε} (hes : Along (next f) P s es) :
    ∃ t', Explains A t es (outputs f s es) t' ∧ R (run (next f) s es) t' := by
  induction es generalizing s t with
  | nil => exact ⟨t, .nil t, hst⟩
  | cons e es ih =>
      obtain ⟨he, hes⟩ := hes
      obtain ⟨t', hact, hnext⟩ := hstep s t e hst he
      obtain ⟨t'', hexplains, hrun⟩ := ih hnext hes
      exact ⟨t'', .cons hact hexplains, hrun⟩

end Outputs

end Machine
