import PlaneSim.Lib.Update

/-!
# Condition variables

A condition variable as its waiting threads show it: each is asleep on it, or woken and not yet
running again (`Cond`). A signal wakes one sleeper, if there is one (`signal`).

A resource is covered (`Covered`) when nobody sleeps on it, or no more of it is available than
threads are woken for it. One signal for each unit that becomes available keeps it covered
(`Covered.signal`), also when a thread that was not woken takes a unit (`Covered.take`).
-/

namespace PlaneSim.CondVar

open Update

variable {τ : Type*}

structure Cond (τ : Type*) where
  asleep : τ → Bool
  woken : τ → Bool
  wake : τ → τ
  asleep_wake : ∀ x, asleep x = true → asleep (wake x) = false
  woken_wake : ∀ x, asleep x = true → woken (wake x) = true
  woken_asleep : ∀ x, asleep x = true → woken x = false

variable {c : Cond τ} {threads threads' : List τ} {i n : ℕ} {x y : τ}

/-- Thread `i` is the sleeper that is woken; without a sleeper nothing happens. -/
def signal (c : Cond τ) (threads : List τ) (i : ℕ) : Option (List τ) :=
  if threads.any c.asleep then
    match threads[i]? with
    | some x => if c.asleep x then some (threads.set i (c.wake x)) else none
    | none => none
  else some threads

theorem signal_cases (h : signal c threads i = some threads') :
    (threads.countP c.asleep = 0 ∧ threads' = threads) ∨
      ∃ x, threads[i]? = some x ∧ c.asleep x = true ∧ threads' = threads.set i (c.wake x) := by
  unfold signal at h
  split at h
  · split at h
    · rename_i x hx
      split at h
      · rename_i hasleep
        exact .inr ⟨x, hx, hasleep, (Option.some.inj h).symm⟩
      · cases h
    · cases h
  · rename_i hany
    refine .inl ⟨?_, (Option.some.inj h).symm⟩
    rw [List.countP_eq_zero]
    simpa using hany

/-- Some sleeper can always be chosen. -/
theorem exists_signal (c : Cond τ) (threads : List τ) :
    ∃ i threads', signal c threads i = some threads' := by
  by_cases hany : threads.any c.asleep
  · obtain ⟨x, hx, hasleep⟩ := List.any_eq_true.mp hany
    obtain ⟨i, hi⟩ := List.mem_iff_getElem?.mp hx
    refine ⟨i, threads.set i (c.wake x), ?_⟩
    rw [signal, if_pos hany, hi]
    exact if_pos hasleep
  · exact ⟨0, threads, if_neg hany⟩

/-- Some thread is woken, or nobody sleeps, or nothing is available. -/
def Covered (c : Cond τ) (threads : List τ) (available : ℕ) : Prop :=
  0 < threads.countP c.asleep → available ≤ threads.countP c.woken

theorem covered_zero (c : Cond τ) (threads : List τ) : Covered c threads 0 := fun _ => Nat.zero_le _

/-- Waking a sleeper, for whatever reason. -/
theorem Covered.wake (h : Covered c threads n) (hi : threads[i]? = some x)
    (hasleep : c.asleep x = true) : Covered c (threads.set i (c.wake x)) n := by
  have h1 := countP_set c.asleep hi (c.wake x)
  have h2 := countP_set c.woken hi (c.wake x)
  simp only [hasleep, c.asleep_wake x hasleep, c.woken_wake x hasleep, c.woken_asleep x hasleep,
    if_true, Bool.false_eq_true, if_false] at h1 h2
  intro hpos
  have := h (by omega)
  omega

/-- One more unit, and a signal for it. -/
theorem Covered.signal (h : Covered c threads n) (hs : signal c threads i = some threads') :
    Covered c threads' (n + 1) := by
  rcases signal_cases hs with ⟨hzero, rfl⟩ | ⟨x, hi, hasleep, rfl⟩
  · intro hpos
    omega
  · have h1 := countP_set c.asleep hi (c.wake x)
    have h2 := countP_set c.woken hi (c.wake x)
    simp only [hasleep, c.asleep_wake x hasleep, c.woken_wake x hasleep,
      c.woken_asleep x hasleep, if_true, Bool.false_eq_true, if_false] at h1 h2
    intro _
    have := h (by omega)
    omega

/-- A thread takes a unit and goes its way, woken before or not. -/
theorem Covered.take (h : Covered c threads (n + 1)) (hi : threads[i]? = some x)
    (hasleep : c.asleep y = false) : Covered c (threads.set i y) n := by
  have h1 := countP_set c.asleep hi y
  have h2 := countP_set c.woken hi y
  simp only [hasleep, Bool.false_eq_true, if_false] at h1
  intro hpos
  have := h (by omega)
  split at h2 <;> split at h2 <;> omega

/-- A thread that has nothing to do with the condition changes. -/
theorem Covered.other (h : Covered c threads n) (hi : threads[i]? = some x)
    (hx : c.woken x = false) (hy : c.asleep y = false) : Covered c (threads.set i y) n := by
  have h1 := countP_set c.asleep hi y
  have h2 := countP_set c.woken hi y
  simp only [hx, hy, Bool.false_eq_true, if_false] at h1 h2
  intro hpos
  have := h (by omega)
  omega

/-- A signal on another condition. -/
theorem Covered.signal_other {d : Cond τ} (h : Covered c threads n)
    (hwoken : ∀ x, d.asleep x = true → c.woken x = false)
    (hasleep : ∀ x, d.asleep x = true → c.asleep (d.wake x) = false)
    (hs : CondVar.signal d threads i = some threads') : Covered c threads' n := by
  rcases signal_cases hs with ⟨-, rfl⟩ | ⟨x, hi, hx, rfl⟩
  · exact h
  · exact h.other hi (hwoken x hx) (hasleep x hx)

/-- While somebody sleeps on what is available, somebody is woken. -/
theorem Covered.exists_woken (h : Covered c threads n) (hi : threads[i]? = some x)
    (hasleep : c.asleep x = true) (hn : 0 < n) :
    ∃ (j : ℕ) (y : τ), threads[j]? = some y ∧ c.woken y = true := by
  have hpos : 0 < threads.countP c.asleep :=
    List.countP_pos_iff.mpr ⟨x, List.mem_of_getElem? hi, hasleep⟩
  obtain ⟨y, hy, hwoken⟩ := List.countP_pos_iff.mp (Nat.lt_of_lt_of_le hn (h hpos))
  obtain ⟨j, hj⟩ := List.mem_iff_getElem?.mp hy
  exact ⟨j, y, hj, hwoken⟩

/-- A signal wakes one sleeper. -/
theorem countP_signal (hs : signal c threads i = some threads') :
    threads'.countP c.asleep = threads.countP c.asleep - 1 := by
  rcases signal_cases hs with ⟨hzero, rfl⟩ | ⟨x, hi, hasleep, rfl⟩
  · omega
  · have h1 := countP_set c.asleep hi (c.wake x)
    simp only [hasleep, c.asleep_wake x hasleep, if_true, Bool.false_eq_true, if_false] at h1
    omega

/-- A thread that is awake, and stays awake. -/
theorem countP_set_eq (hi : threads[i]? = some x) (hx : c.asleep x = false)
    (hy : c.asleep y = false) : (threads.set i y).countP c.asleep = threads.countP c.asleep := by
  have h1 := countP_set c.asleep hi y
  simp only [hx, hy, Bool.false_eq_true, if_false] at h1
  omega

/-- A thread that does not fall asleep. -/
theorem countP_set_le (hi : threads[i]? = some x) (hy : c.asleep y = false) :
    (threads.set i y).countP c.asleep ≤ threads.countP c.asleep := by
  have h1 := countP_set c.asleep hi y
  simp only [hy, Bool.false_eq_true, if_false] at h1
  omega

/-- A signal on another condition puts nobody to sleep. -/
theorem countP_signal_other {d : Cond τ}
    (hasleep : ∀ x, d.asleep x = true → c.asleep (d.wake x) = false)
    (hs : signal d threads i = some threads') :
    threads'.countP c.asleep ≤ threads.countP c.asleep := by
  rcases signal_cases hs with ⟨-, rfl⟩ | ⟨x, hi, hx, rfl⟩
  · exact le_rfl
  · exact countP_set_le hi (hasleep x hx)

end PlaneSim.CondVar
