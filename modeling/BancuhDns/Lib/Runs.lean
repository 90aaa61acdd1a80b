import Mathlib.Data.List.Induction

/-!
# Runs of a guarded transition function

A system is a step function that may refuse an event, and a run is a list of
events none of which is refused. An invariant of the runs may speak of the events
that led to a state, not of the state alone: `Runs.invariant` is the induction
rule for such an invariant, and the last event of a run is the one it peels.
-/

namespace Runs

variable {S E : Type}

/-- The state a list of events leads to, if none of them is refused. -/
def run (step : S → E → Option S) : S → List E → Option S
  | s, [] => some s
  | s, e :: es => (step s e).bind fun s' => run step s' es

variable {step : S → E → Option S}

@[simp] theorem run_nil (s : S) : run step s [] = some s := rfl

@[simp] theorem run_cons (s : S) (e : E) (es : List E) :
    run step s (e :: es) = (step s e).bind fun s' => run step s' es := rfl

/-- A run of a concatenation is a run of the first part and one of the second. -/
theorem run_append (s : S) (es es' : List E) :
    run step s (es ++ es') = (run step s es).bind fun s' => run step s' es' := by
  induction es generalizing s with
  | nil => rfl
  | cons e es ih =>
    rw [List.cons_append, run_cons, run_cons]
    cases step s e with
    | none => rfl
    | some s' => exact ih s'

theorem run_concat (s : S) (es : List E) (e : E) :
    run step s (es ++ [e]) = (run step s es).bind fun s' => step s' e := by
  have hone : ∀ s', run step s' [e] = step s' e := fun s' => by
    rw [run_cons]
    cases step s' e <;> rfl
  simp only [run_append, hone]

theorem run_singleton (s : S) (e : E) : run step s [e] = step s e := by
  rw [run_cons]
  cases step s e <;> rfl

/-- **The invariant rule**: what holds of the start with no event, and is carried
from a run to the run with one more event, holds of every run. -/
theorem invariant {s₀ : S} (P : List E → S → Prop) (h₀ : P [] s₀)
    (hstep : ∀ es s e s', run step s₀ es = some s → P es s → step s e = some s' →
      P (es ++ [e]) s') :
    ∀ {es s}, run step s₀ es = some s → P es s := by
  intro es
  -- by the last event: a run is a run with one event less, and a step
  induction es using List.reverseRecOn with
  | nil =>
    intro s hs
    obtain rfl := Option.some.inj hs
    exact h₀
  | append_singleton es e ih =>
    intro s' hs'
    rw [run_concat, Option.bind_eq_some_iff] at hs'
    obtain ⟨s, hs, he⟩ := hs'
    exact hstep es s e s' hs (ih hs) he

/-- An event of a run is the last one, or one of the run before. -/
theorem concat_eq_append_cons_iff {es es₁ es₂ : List E} {e x : E} :
    es ++ [e] = es₁ ++ x :: es₂ ↔
      (es = es₁ ∧ e = x ∧ es₂ = []) ∨ ∃ es₂', es = es₁ ++ x :: es₂' ∧ es₂ = es₂' ++ [e] := by
  rcases List.eq_nil_or_concat es₂ with rfl | ⟨es₂, y, rfl⟩
  · refine ⟨fun h => ?_, ?_⟩
    · obtain ⟨rfl, hx⟩ := List.append_inj' h rfl
      exact Or.inl ⟨rfl, (List.cons.inj hx).1, rfl⟩
    · rintro (⟨rfl, rfl, -⟩ | ⟨es₂', -, hnil⟩)
      · rfl
      · simp at hnil
  · rw [List.concat_eq_append, ← List.cons_append, ← List.append_assoc]
    refine ⟨fun h => ?_, ?_⟩
    · obtain ⟨rfl, hy⟩ := List.append_inj' h rfl
      exact Or.inr ⟨es₂, rfl, by rw [(List.cons.inj hy).1]⟩
    · rintro (⟨-, -, hnil⟩ | ⟨es₂', rfl, hes⟩)
      · simp at hnil
      · rw [(List.append_inj' hes rfl).1, (List.cons.inj (List.append_inj' hes rfl).2).1]

end Runs
