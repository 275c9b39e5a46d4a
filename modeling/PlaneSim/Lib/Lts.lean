import Mathlib.Data.List.Basic

/-!
# Runs of a labelled transition system

A system is a partial function `step`: from a state, an action gives the events it emits and the
next state, or it is not enabled. `Run step s tr s'` says that some actions lead from `s` to `s'`
emitting `tr`.

1. Invariants (`Run.invariant`), also of the state together with what was emitted.
2. Simulation of one system by the steps of another (`Run.simulation`).
3. What holds in front of every event of a trace (`forall_split_append`).
4. Runs by evaluation (`exec`, `run_of_exec`).
-/

namespace PlaneSim.Lts

variable {σ α ε τ β : Type*}

/-- The runs of `step` from `s`, with their events. -/
inductive Run (step : σ → α → Option (List ε × σ)) (s : σ) : List ε → σ → Prop where
  | refl : Run step s [] s
  | step {tr es : List ε} {s1 s2 : σ} {a : α} (run : Run step s tr s1)
      (last : step s1 a = some (es, s2)) : Run step s (tr ++ es) s2

variable {step : σ → α → Option (List ε × σ)}

theorem Run.trans {s s1 s2 : σ} {tr tr' : List ε} (h : Run step s tr s1)
    (h' : Run step s1 tr' s2) : Run step s (tr ++ tr') s2 := by
  induction h' with
  | refl => simpa using h
  | step _ last ih =>
    rw [← List.append_assoc]
    exact ih.step last

/-- What holds at the start and is preserved by every step holds after every run. -/
theorem Run.invariant {s s' : σ} {tr : List ε} (h : Run step s tr s') {P : σ → Prop} (h0 : P s)
    (hstep : ∀ s1 a es s2, P s1 → step s1 a = some (es, s2) → P s2) : P s' := by
  induction h with
  | refl => exact h0
  | step _ last ih => exact hstep _ _ _ _ ih last

/-- The same for a relation between the events so far and the state. -/
theorem Run.history {s s' : σ} {tr : List ε} (h : Run step s tr s') {P : List ε → σ → Prop}
    (h0 : P [] s)
    (hstep : ∀ tr s1 a es s2, P tr s1 → step s1 a = some (es, s2) → P (tr ++ es) s2) :
    P tr s' := by
  induction h with
  | refl => exact h0
  | step _ last ih => exact hstep _ _ _ _ _ ih last

/-- Simulation: every step is matched by some steps of the other system, whose events `f` reads off
the events of the step. -/
theorem Run.simulation {ε' : Type*} {stepT : τ → β → Option (List ε' × τ)} {R : σ → τ → Prop}
    {f : ε → Option ε'}
    (hstep : ∀ s1 a es s2 t1, R s1 t1 → step s1 a = some (es, s2) →
      ∃ t2, Run stepT t1 (es.filterMap f) t2 ∧ R s2 t2)
    {s s' : σ} {tr : List ε} (h : Run step s tr s') {t : τ} (h0 : R s t) :
    ∃ t', Run stepT t (tr.filterMap f) t' ∧ R s' t' := by
  induction h with
  | refl => exact ⟨t, .refl, h0⟩
  | step _ last ih =>
    obtain ⟨t1, hrun, hR⟩ := ih
    obtain ⟨t2, hrun', hR'⟩ := hstep _ _ _ _ _ hR last
    refine ⟨t2, ?_, hR'⟩
    rw [List.filterMap_append]
    exact hrun.trans hrun'

/-- A single step. -/
theorem Run.single {s s' : σ} {a : α} {es : List ε} (h : step s a = some (es, s')) :
    Run step s es s' := Run.step .refl h

/-- Splitting a trace in front of one of its events. -/
theorem forall_split_append {Q : List ε → ε → Prop} {tr es : List ε}
    (h : ∀ before e after, tr = before ++ e :: after → Q before e)
    (hnew : ∀ before e after, es = before ++ e :: after → Q (tr ++ before) e) :
    ∀ before e after, tr ++ es = before ++ e :: after → Q before e := by
  intro before e after heq
  rcases List.append_eq_append_iff.mp heq with ⟨rest, rfl, hes⟩ | ⟨rest, htr, hrest⟩
  · exact hnew rest e after hes
  · cases rest with
    | nil =>
      rw [List.append_nil] at htr
      rw [← htr, ← List.append_nil tr]
      exact hnew [] e after hrest.symm
    | cons x rest =>
      obtain ⟨rfl, rfl⟩ := List.cons_eq_cons.mp hrest
      exact h before e rest htr

/-- Taking the given actions one after the other. -/
def exec (step : σ → α → Option (List ε × σ)) : σ → List α → Option (List ε × σ)
  | s, [] => some ([], s)
  | s, a :: as => do
    let (es, s1) ← step s a
    let (tr, s2) ← exec step s1 as
    pure (es ++ tr, s2)

theorem run_of_exec {as : List α} {s s' : σ} {tr : List ε} (h : exec step s as = some (tr, s')) :
    Run step s tr s' := by
  induction as generalizing s tr with
  | nil =>
    cases h
    exact .refl
  | cons a as ih =>
    obtain ⟨⟨es, s1⟩, hstep, h⟩ := Option.bind_eq_some_iff.mp h
    obtain ⟨⟨tr1, s2⟩, hrest, h⟩ := Option.bind_eq_some_iff.mp h
    cases h
    exact (Run.step .refl hstep).trans (ih hrest)

end PlaneSim.Lts
