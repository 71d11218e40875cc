import Mathlib.Data.Option.Basic

/-! Machines with labelled steps: their runs, and what a run keeps. -/

namespace Machine
variable {σ ε : Type*} {step : σ → ε → Option σ} {s s' : σ} {e : ε} {es : List ε}

/-- The state after some events, none when one of them cannot happen in its turn. -/
def run (step : σ → ε → Option σ) : σ → List ε → Option σ
  | s, [] => some s
  | s, e :: es => (step s e).bind fun s' => run step s' es

/-- Every event of a run meets a condition on the state in which it happens. -/
def Meets (step : σ → ε → Option σ) (C : σ → ε → Prop) : σ → List ε → Prop
  | _, [] => True
  | s, e :: es => C s e ∧ (step s e).elim True fun s' => Meets step C s' es

instance decidableMeets {C : σ → ε → Prop} [∀ s e, Decidable (C s e)] :
    ∀ (s : σ) (es : List ε), Decidable (Meets step C s es)
  | _, [] => isTrue trivial
  | s, e :: es =>
    have : Decidable ((step s e).elim True fun s' => Meets step C s' es) :=
      match step s e with
      | none => isTrue trivial
      | some s' => decidableMeets s' es
    inferInstanceAs (Decidable (C s e ∧ _))

@[simp] theorem run_nil : run step s [] = some s := rfl

theorem run_cons_eq_some : run step s (e :: es) = some s' ↔ ∃ t, step s e = some t ∧ run step t es = some s' := by
  rw [run, Option.bind_eq_some_iff]

theorem meets_true (s : σ) (es : List ε) : Meets step (fun _ _ => True) s es := by
  induction es generalizing s with
  | nil => trivial
  | cons e es ih =>
    refine ⟨trivial, ?_⟩
    cases step s e with
    | none => trivial
    | some t => exact ih t

/-- What every step under a condition keeps holds at the end of a run whose events meet the condition. -/
theorem run_induct {C : σ → ε → Prop} {P : σ → Prop} (hstep : ∀ s e s', P s → C s e → step s e = some s' → P s')
    (hs : P s) (hmeets : Meets step C s es) (h : run step s es = some s') : P s' := by
  induction es generalizing s with
  | nil =>
    cases h
    exact hs
  | cons e es ih =>
    obtain ⟨t, ht, h⟩ := run_cons_eq_some.1 h
    obtain ⟨hC, hrest⟩ := hmeets
    rw [ht] at hrest
    exact ih (hstep s e t hs hC ht) hrest h

/-- What every step keeps holds at the end of a run. -/
theorem run_invariant {P : σ → Prop} (hstep : ∀ s e s', P s → step s e = some s' → P s') (hs : P s)
    (h : run step s es = some s') : P s' :=
  run_induct (fun s e s' hP _ => hstep s e s' hP) hs (meets_true s es) h

/-- When every event that meets a condition can happen and keeps `P`, a run of such events comes to its end. -/
theorem run_total {C : σ → ε → Prop} {P : σ → Prop} (hstep : ∀ s e, P s → C s e → ∃ s', step s e = some s' ∧ P s')
    (hs : P s) (hmeets : Meets step C s es) : ∃ s', run step s es = some s' ∧ P s' := by
  induction es generalizing s with
  | nil => exact ⟨s, rfl, hs⟩
  | cons e es ih =>
    obtain ⟨hC, hrest⟩ := hmeets
    obtain ⟨t, ht, hP⟩ := hstep s e hs hC
    rw [ht] at hrest
    obtain ⟨s', hrun, hP'⟩ := ih hP hrest
    exact ⟨s', run_cons_eq_some.2 ⟨t, ht, hrun⟩, hP'⟩

end Machine
