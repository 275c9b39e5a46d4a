import PlaneSim.Lib.Lts
import Mathlib.Algebra.BigOperators.Ring.List
import Mathlib.Tactic.Ring

/-!
# Ranking a transition system

A rank is a number for every state. Where every step lowers it by what the step spends, and raises
it by no more than the step earns, the actions of an execution are counted (`exec_rank`, `exec_countP`). Where
some step lowers it until the system is done, the system can be driven there
(`exists_exec_of_rank`).
-/

namespace PlaneSim.Lts

variable {σ α ε : Type*} {step : σ → α → Option (List ε × σ)} {s s' : σ} {as as' : List α}
  {tr tr' : List ε}

theorem exec_cons {a : α} (h : exec step s (a :: as) = some (tr, s')) :
    ∃ es s1 tr1, step s a = some (es, s1) ∧ exec step s1 as = some (tr1, s') ∧ tr = es ++ tr1 := by
  obtain ⟨⟨es, s1⟩, hstep, h⟩ := Option.bind_eq_some_iff.mp h
  obtain ⟨⟨tr1, s2⟩, hrest, h⟩ := Option.bind_eq_some_iff.mp h
  cases h
  exact ⟨es, s1, tr1, hstep, hrest, rfl⟩

theorem exec_append (h : exec step s as = some (tr, s')) {s'' : σ}
    (h' : exec step s' as' = some (tr', s'')) :
    exec step s (as ++ as') = some (tr ++ tr', s'') := by
  induction as generalizing s tr with
  | nil =>
    cases h
    exact h'
  | cons a as ih =>
    obtain ⟨es, s1, tr1, hstep, hrest, rfl⟩ := exec_cons h
    show (step s a).bind _ = _
    rw [hstep, Option.bind_some]
    show (exec step s1 (as ++ as')).bind _ = _
    rw [ih hrest, List.append_assoc]
    rfl

/-- **Accounts of an execution.** -/
theorem exec_rank {P : σ → Prop} (hkeep : ∀ s a es s', P s → step s a = some (es, s') → P s')
    {rank : σ → ℕ} {spend earn : α → ℕ}
    (hrank : ∀ s a es s', P s → step s a = some (es, s') → rank s' + spend a ≤ rank s + earn a)
    (h0 : P s) (h : exec step s as = some (tr, s')) :
    rank s' + (as.map spend).sum ≤ rank s + (as.map earn).sum := by
  induction as generalizing s tr with
  | nil =>
    cases h
    exact Nat.le_refl _
  | cons a as ih =>
    obtain ⟨es, s1, tr1, hstep, hrest, rfl⟩ := exec_cons h
    have hfirst := hrank s a es s1 h0 hstep
    have hlast := ih (hkeep s a es s1 h0 hstep) hrest
    rw [List.map_cons, List.sum_cons, List.map_cons, List.sum_cons]
    omega

/-- Spending one for each action of a kind. -/
theorem sum_map_ite_eq_countP (p : α → Bool) (as : List α) :
    (as.map fun a => if p a then 1 else 0).sum = as.countP p := by
  induction as with
  | nil => rfl
  | cons a as ih =>
    rw [List.map_cons, List.sum_cons, ih, List.countP_cons, Nat.add_comm]

/-- Where an action of the kind lowers the rank, and no other raises it, they are counted. -/
theorem exec_countP {P : σ → Prop} (hkeep : ∀ s a es s', P s → step s a = some (es, s') → P s')
    (rank : σ → ℕ) {p : α → Bool}
    (hrank : ∀ s a es s', P s → step s a = some (es, s') →
      rank s' + (if p a then 1 else 0) ≤ rank s)
    (h0 : P s) (h : exec step s as = some (tr, s')) : rank s' + as.countP p ≤ rank s := by
  have hearn : ∀ s a es s', P s → step s a = some (es, s') →
      rank s' + (if p a then 1 else 0) ≤ rank s + (fun _ => 0) a := hrank
  have hsum := exec_rank hkeep hearn h0 h
  rw [sum_map_ite_eq_countP] at hsum
  simpa using hsum

/-- **Being done is reached.** -/
theorem exists_exec_of_rank {P done : σ → Prop}
    (hkeep : ∀ s a es s', P s → step s a = some (es, s') → P s') (rank : σ → ℕ)
    (hprogress : ∀ s, P s → ¬done s → ∃ a es s', step s a = some (es, s') ∧ rank s' < rank s)
    (h0 : P s) : ∃ as tr s', exec step s as = some (tr, s') ∧ done s' := by
  induction hr : rank s using Nat.strongRecOn generalizing s with
  | ind r ih =>
    by_cases hdone : done s
    · exact ⟨[], [], s, rfl, hdone⟩
    · obtain ⟨a, es, s1, hstep, hlt⟩ := hprogress s h0 hdone
      obtain ⟨as, tr, s', hexec, hdone'⟩ := ih (rank s1) (hr ▸ hlt) (hkeep s a es s1 h0 hstep) rfl
      refine ⟨a :: as, es ++ tr, s', ?_, hdone'⟩
      show (step s a).bind _ = _
      rw [hstep, Option.bind_some]
      show (exec step s1 as).bind _ = _
      rw [hexec]
      rfl

end PlaneSim.Lts
