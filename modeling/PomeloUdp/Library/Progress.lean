import PomeloUdp.Library.Run

/-!
# What happens along a run

`Sometime P` says that some step of a run meets `P`, as `Machine.Along P` says it of every step.
A run whose steps all make a measure smaller is no longer than the measure (`length_le_measure`),
so it ends where no such step is left.
-/

namespace Machine

variable {σ ε : Type*} {step : σ → ε → σ} {P Q : σ → ε → Prop}

/-- Some step of the run from `s` meets `P`, which sees the state before the step and the
event. -/
def Sometime (step : σ → ε → σ) (P : σ → ε → Prop) : σ → List ε → Prop
  | _, [] => False
  | s, e :: es => P s e ∨ Sometime step P (step s e) es

theorem sometime_append (s : σ) (es fs : List ε) :
    Sometime step P s (es ++ fs) ↔ Sometime step P s es ∨ Sometime step P (run step s es) fs := by
  induction es generalizing s with
  | nil => simp [Sometime]
  | cons e es ih => simp [Sometime, ih, or_assoc]

/-- The last step of a run. -/
theorem sometime_concat (s : σ) (es : List ε) (e : ε) :
    Sometime step P s (es ++ [e]) ↔ Sometime step P s es ∨ P (run step s es) e := by
  rw [sometime_append]
  simp [Sometime]

theorem run_concat (s : σ) (es : List ε) (e : ε) :
    run step s (es ++ [e]) = step (run step s es) e := by
  rw [run_append]
  rfl

/-- Steps that make a measure smaller. -/
theorem length_le_measure {m : σ → ℕ} (hstep : ∀ s e, P s e → m (step s e) < m s) {s : σ}
    {es : List ε} (hes : Along step P s es) : es.length + m (run step s es) ≤ m s := by
  induction es generalizing s with
  | nil => exact Nat.le_of_eq (Nat.zero_add _)
  | cons e es ih =>
      have hfirst := hstep s e hes.1
      have hrest := ih hes.2
      rw [List.length_cons, run_cons]
      omega

end Machine
