import Mathlib.Data.List.Basic

/-! Runs of a labelled step relation, and the two rules every invariant below is
derived with: one over whole runs, one over runs whose steps meet a condition. -/

namespace StepRuns

variable {σ ε : Type}

/-- The states reached from a start state, with the labels of the steps taken, oldest first. -/
inductive Run (step : σ → ε → σ → Prop) : σ → List ε → σ → Prop where
  | nil (s : σ) : Run step s [] s
  | snoc {s t u : σ} {es : List ε} {e : ε} :
      Run step s es t → step t e u → Run step s (es ++ [e]) u

/-- The steps of a relation taken only where a condition on the state before
the step and its label holds. -/
def Guarded (step : σ → ε → σ → Prop) (meets : σ → ε → Prop) (s : σ) (e : ε) (t : σ) : Prop :=
  meets s e ∧ step s e t

theorem Run.invariant {step : σ → ε → σ → Prop} {I : σ → Prop}
    (keeps : ∀ s e t, I s → step s e t → I t) {s t : σ} {es : List ε}
    (h : Run step s es t) (h0 : I s) : I t := by
  induction h with
  | nil => exact h0
  | snoc _ hs ih => exact keeps _ _ _ ih hs

variable {step : σ → ε → σ → Prop} {es : List ε}

/-- One more step of a guarded run. -/
theorem Run.also {meets : σ → ε → Prop} {s t u : σ} {e : ε}
    (h : Run (Guarded step meets) s es t) (hs : step t e u) (hm : meets t e) :
    Run (Guarded step meets) s (es++[e]) u :=
  .snoc h ⟨hm,hs⟩

/-- The run that starts where another has come to. -/
theorem Run.here {s t : σ} (_ : Run step s es t) :
    Run step t [] t :=
  .nil t

/-- A guarded run is a run. -/
theorem Run.unguarded {meets : σ → ε → Prop} {s t : σ}
    (h : Run (Guarded step meets) s es t) : Run step s es t := by
  induction h with
  | nil => exact .nil _
  | snoc _ hs ih => exact .snoc ih hs.2

theorem Run.append {s t u : σ} {fs : List ε}
    (h : Run step s es t) (g : Run step t fs u) : Run step s (es++fs) u := by
  induction g with
  | nil => simpa using h
  | snoc _ hs ih =>
    rw [←List.append_assoc]
    exact .snoc ih hs

theorem Run.short {s t : σ}
    (h : Run step s es t) (hs : es.length ≤ 1) : t = s ∨ ∃ e, step s e t := by
  cases h with
  | nil => exact .inl rfl
  | snoc run step =>
    cases run with
    | nil => exact .inr ⟨_,step⟩
    | snoc => simp at hs

/-- A relation that holds of equal states and is extended by every step holds
between the ends of every run. -/
theorem Run.relates {I : σ → Prop} {R : σ → σ → Prop}
    (refl : ∀ s, R s s) (trans : ∀ s t u, R s t → R t u → R s u)
    (keeps : ∀ s e t, I s → step s e t → I t) (moves : ∀ s e t, I s → step s e t → R s t)
    {s t : σ} (h : Run step s es t) (h0 : I s) : R s t := by
  induction h with
  | nil => exact refl _
  | snoc hr hs ih => exact trans _ _ _ ih (moves _ _ _ (hr.invariant keeps h0) hs)

end StepRuns
