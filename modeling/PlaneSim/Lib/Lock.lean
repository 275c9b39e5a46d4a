import Mathlib.Data.List.Basic

/-!
# Locks

A lock is the thread that has taken it, if any. `Held lock holds` ties it to the threads whose
program counters say that they hold it, and so excludes that two of them do. `HeldAll locks sec` does
so for many locks, of which a thread holds at most one.
-/

namespace PlaneSim.Lock

variable {ι : Type*}

/-- The lock is with exactly the threads that hold it. -/
def Held (lock : Option ι) (holds : ι → Prop) : Prop := ∀ i, lock = some i ↔ holds i

theorem Held.congr {lock : Option ι} {holds holds' : ι → Prop} (h : Held lock holds)
    (h' : ∀ i, holds' i ↔ holds i) : Held lock holds' :=
  fun i => (h i).trans (h' i).symm

/-- Two holders are one. -/
theorem Held.unique {lock : Option ι} {holds : ι → Prop} (h : Held lock holds) {i j : ι}
    (hi : holds i) (hj : holds j) : i = j :=
  Option.some.inj (((h i).mpr hi).symm.trans ((h j).mpr hj))

/-- A lock that is not free has a holder. -/
theorem Held.exists_holder {lock : Option ι} {holds : ι → Prop} (h : Held lock holds)
    (hne : lock ≠ none) : ∃ i, holds i := by
  obtain ⟨i, hi⟩ := Option.ne_none_iff_exists'.mp hne
  exact ⟨i, (h i).mp hi⟩

theorem Held.free {lock : Option ι} {holds : ι → Prop} (h : Held lock holds)
    (hfree : ∀ i, ¬holds i) : lock = none := by
  by_contra hne
  obtain ⟨i, hi⟩ := h.exists_holder hne
  exact hfree i hi

/-- Thread `i` takes the free lock. -/
theorem Held.acquire {holds holds' : ι → Prop} (h : Held none holds) {i : ι} (hi : holds' i)
    (h' : ∀ j, j ≠ i → (holds' j ↔ holds j)) : Held (some i) holds' := by
  intro j
  constructor
  · rintro ⟨⟩
    exact hi
  · intro hj
    by_contra hne
    have hji : j ≠ i := fun he => hne (by rw [he])
    cases (h j).mpr ((h' j hji).mp hj)

/-- Thread `i` gives the lock back. -/
theorem Held.release {lock : Option ι} {holds holds' : ι → Prop} (h : Held lock holds) {i : ι}
    (hi : holds i) (hi' : ¬holds' i) (h' : ∀ j, j ≠ i → (holds' j ↔ holds j)) :
    Held none holds' := by
  intro j
  constructor
  · rintro ⟨⟩
  · intro hj
    have hji : j ≠ i := by
      rintro rfl
      exact hi' hj
    exact absurd (h.unique ((h' j hji).mp hj) hi) hji

/-! ## Many locks -/

/-- Every lock is with exactly the threads that are in its section. -/
def HeldAll (locks : List (Option ι)) (sec : ι → Option ℕ) : Prop :=
  ∀ (c : ℕ) lock, locks[c]? = some lock → Held lock fun i => sec i = some c

theorem HeldAll.congr {locks : List (Option ι)} {sec sec' : ι → Option ℕ} (h : HeldAll locks sec)
    (h' : ∀ i, sec' i = sec i) : HeldAll locks sec' :=
  fun c lock hlock => (h c lock hlock).congr fun i => by rw [h' i]

theorem heldAll_free {n : ℕ} {sec : ι → Option ℕ} (h : ∀ i, sec i = none) :
    HeldAll (List.replicate n none) sec := by
  intro c lock hlock i
  obtain rfl := List.eq_of_mem_replicate (List.mem_of_getElem? hlock)
  simp [h i]

/-- Thread `i` enters the section of the free lock `c`. -/
theorem HeldAll.acquire {locks : List (Option ι)} {sec sec' : ι → Option ℕ}
    (h : HeldAll locks sec) {i : ι} {c : ℕ} (hfree : locks[c]? = some none) (hout : sec i = none)
    (hin : sec' i = some c) (h' : ∀ j, j ≠ i → sec' j = sec j) :
    HeldAll (locks.set c (some i)) sec' := by
  intro d lock hlock
  by_cases hdc : c = d
  · subst hdc
    rw [List.getElem?_set_self (List.getElem?_eq_some_iff.mp hfree).1] at hlock
    cases hlock
    exact (h c none hfree).acquire hin fun j hj => by rw [h' j hj]
  · rw [List.getElem?_set_ne hdc] at hlock
    refine (h d lock hlock).congr fun j => ?_
    by_cases hji : j = i
    · subst hji
      rw [hin, hout]
      simpa using hdc
    · rw [h' j hji]

/-- Thread `i` leaves the section of lock `c`. -/
theorem HeldAll.release {locks : List (Option ι)} {sec sec' : ι → Option ℕ}
    (h : HeldAll locks sec) {i : ι} {c : ℕ} (hin : sec i = some c) (hout : sec' i = none)
    (h' : ∀ j, j ≠ i → sec' j = sec j) : HeldAll (locks.set c none) sec' := by
  intro d lock hlock
  by_cases hdc : c = d
  · subst hdc
    have hc : c < locks.length := by simpa using (List.getElem?_eq_some_iff.mp hlock).1
    rw [List.getElem?_set_self hc] at hlock
    cases hlock
    refine (h c locks[c] (List.getElem?_eq_getElem hc)).release hin (fun hs => ?_)
      fun j hj => by rw [h' j hj]
    rw [hout] at hs
    cases hs
  · rw [List.getElem?_set_ne hdc] at hlock
    refine (h d lock hlock).congr fun j => ?_
    by_cases hji : j = i
    · subst hji
      rw [hin, hout]
      simpa using hdc
    · rw [h' j hji]

end PlaneSim.Lock
