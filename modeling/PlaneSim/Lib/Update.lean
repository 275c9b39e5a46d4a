import Mathlib.Algebra.BigOperators.Group.List.Basic
import Mathlib.Algebra.Order.Group.Int
import Mathlib.Algebra.BigOperators.Ring.List
import Mathlib.Algebra.Order.BigOperators.Group.List
import Mathlib.Tactic.Ring

/-!
# Updating one place of a list

What a count or a sum over a list becomes when one entry changes, for lists and for lists of lists
(`get2`, `set2`).
-/

namespace PlaneSim.Update

theorem countP_set {α : Type*} (p : α → Bool) {l : List α} {i : ℕ} {x : α} (h : l[i]? = some x)
    (y : α) :
    (l.set i y).countP p + (if p x then 1 else 0) = l.countP p + (if p y then 1 else 0) := by
  obtain ⟨hi, rfl⟩ := List.getElem?_eq_some_iff.mp h
  rw [List.countP_set hi]
  by_cases hp : p l[i]
  · have : 0 < l.countP p := List.countP_pos_iff.mpr ⟨_, List.getElem_mem hi, hp⟩
    simp only [hp, if_true]
    omega
  · simp [hp]

/-- What holds of the new entry and of the others holds of all. -/
theorem forall_getElem?_set {α : Type*} {l : List α} {i : ℕ} {x y : α} (h : l[i]? = some x)
    {Q : ℕ → α → Prop} (hother : ∀ j z, j ≠ i → l[j]? = some z → Q j z) (hnew : Q i y) :
    ∀ j z, (l.set i y)[j]? = some z → Q j z := by
  intro j z hz
  by_cases hij : i = j
  · subst hij
    rw [List.getElem?_set_self (List.getElem?_eq_some_iff.mp h).1] at hz
    cases hz
    exact hnew
  · rw [List.getElem?_set_ne hij] at hz
    exact hother j z (Ne.symm hij) hz

theorem sum_map_set {α : Type*} (f : α → Int) {l : List α} {i : ℕ} {x : α} (h : l[i]? = some x)
    (y : α) : ((l.set i y).map f).sum = (l.map f).sum - f x + f y := by
  induction l generalizing i with
  | nil => simp at h
  | cons z l ih =>
    cases i with
    | zero =>
      obtain rfl : z = x := by simpa using h
      rw [List.set_cons_zero, List.map_cons, List.sum_cons, List.map_cons, List.sum_cons]
      ring
    | succ i =>
      rw [List.set_cons_succ, List.map_cons, List.sum_cons, List.map_cons, List.sum_cons,
        ih (by simpa using h)]
      ring

/-- The same without subtraction. -/
theorem sum_map_set_add {α M : Type*} [AddCommMonoid M] (f : α → M) {l : List α} {i : ℕ} {x : α}
    (h : l[i]? = some x) (y : α) :
    ((l.set i y).map f).sum + f x = (l.map f).sum + f y := by
  induction l generalizing i with
  | nil => simp at h
  | cons z l ih =>
    cases i with
    | zero =>
      obtain rfl : z = x := by simpa using h
      rw [List.set_cons_zero, List.map_cons, List.sum_cons, List.map_cons, List.sum_cons]
      ac_rfl
    | succ i =>
      rw [List.set_cons_succ, List.map_cons, List.sum_cons, List.map_cons, List.sum_cons,
        add_assoc, ih (by simpa using h), add_assoc]

section Grid

variable {α : Type*}

/-- Entry `p` of row `a`. -/
def get2 (g : List (List α)) (a p : ℕ) : Option α := g[a]?.bind (·[p]?)

def set2 (g : List (List α)) (a p : ℕ) (x : α) : List (List α) := g.modify a (·.set p x)

theorem get2_eq_some {g : List (List α)} {a p : ℕ} {x : α} :
    get2 g a p = some x ↔ ∃ row, g[a]? = some row ∧ row[p]? = some x :=
  Option.bind_eq_some_iff

theorem get2_set2_self {g : List (List α)} {a p : ℕ} {x : α} (h : get2 g a p = some x) (y : α) :
    get2 (set2 g a p y) a p = some y := by
  obtain ⟨row, hrow, hp⟩ := get2_eq_some.mp h
  have hlt := (List.getElem?_eq_some_iff.mp hp).1
  simp [get2, set2, hrow, List.getElem?_set_self hlt]

theorem get2_set2_ne {g : List (List α)} {a p b q : ℕ} (h : ¬(b = a ∧ q = p)) (y : α) :
    get2 (set2 g a p y) b q = get2 g b q := by
  unfold get2 set2
  rw [List.getElem?_modify]
  by_cases hb : a = b
  · subst hb
    have hq : p ≠ q := fun hq => h ⟨rfl, hq.symm⟩
    cases g[a]? with
    | none => rfl
    | some row => simp [List.getElem?_set_ne hq]
  · simp [hb]

/-- An entry of the updated grid is the new one or one that was there. -/
theorem get2_set2_cases {g : List (List α)} {a p b q : ℕ} {x y z : α} (h : get2 g a p = some x)
    (hz : get2 (set2 g a p y) b q = some z) :
    (b = a ∧ q = p ∧ z = y) ∨ (¬(b = a ∧ q = p) ∧ get2 g b q = some z) := by
  by_cases hb : b = a ∧ q = p
  · obtain ⟨rfl, rfl⟩ := hb
    rw [get2_set2_self h] at hz
    cases hz
    exact .inl ⟨rfl, rfl, rfl⟩
  · rw [get2_set2_ne hb] at hz
    exact .inr ⟨hb, hz⟩

theorem get2_map {β : Type*} (f : α → β) (g : List (List α)) (a p : ℕ) :
    get2 (g.map fun row => row.map f) a p = (get2 g a p).map f := by
  unfold get2
  rw [List.getElem?_map]
  cases g[a]? with
  | none => rfl
  | some row => simp

theorem set2_eq_set {g : List (List α)} {a p : ℕ} {row : List α} (h : g[a]? = some row) (x : α) :
    set2 g a p x = g.set a (row.set p x) := by
  refine List.ext_getElem? fun i => ?_
  rw [set2, List.getElem?_modify, List.getElem?_set]
  by_cases hi : a = i
  · subst hi
    obtain ⟨hlt, rfl⟩ := List.getElem?_eq_some_iff.mp h
    simp [hlt]
  · simp [hi]

/-- A sum over all entries. -/
def sum2 (f : α → Int) (g : List (List α)) : Int := (g.map fun row => (row.map f).sum).sum

theorem sum2_set2 (f : α → Int) {g : List (List α)} {a p : ℕ} {x : α} (h : get2 g a p = some x)
    (y : α) : sum2 f (set2 g a p y) = sum2 f g - f x + f y := by
  obtain ⟨row, hrow, hp⟩ := get2_eq_some.mp h
  rw [set2_eq_set hrow, sum2, sum_map_set (fun row => (row.map f).sum) hrow, sum_map_set f hp, sum2]
  ring

theorem sum2_map {β : Type*} (h : β → Int) (f : α → β) (g : List (List α)) :
    sum2 h (g.map fun row => row.map f) = sum2 (fun x => h (f x)) g := by
  simp [sum2, List.map_map, Function.comp_def]

theorem exists_get2 {g : List (List α)} {row : List α} (hrow : row ∈ g) {x : α} (hx : x ∈ row) :
    ∃ a p, get2 g a p = some x := by
  obtain ⟨a, ha⟩ := List.mem_iff_getElem?.mp hrow
  obtain ⟨p, hp⟩ := List.mem_iff_getElem?.mp hx
  exact ⟨a, p, get2_eq_some.mpr ⟨row, ha, hp⟩⟩

theorem sum2_nonneg (f : α → Int) {g : List (List α)}
    (h : ∀ a p x, get2 g a p = some x → 0 ≤ f x) : 0 ≤ sum2 f g := by
  refine List.sum_nonneg ?_
  simp only [List.mem_map, forall_exists_index, and_imp, forall_apply_eq_imp_iff₂]
  intro row hrow
  refine List.sum_nonneg ?_
  simp only [List.mem_map, forall_exists_index, and_imp, forall_apply_eq_imp_iff₂]
  intro x hx
  obtain ⟨a, p, hget⟩ := exists_get2 hrow hx
  exact h a p x hget

theorem sum2_eq_zero (f : α → Int) {g : List (List α)}
    (h : ∀ a p x, get2 g a p = some x → f x = 0) : sum2 f g = 0 := by
  refine List.sum_eq_zero ?_
  simp only [List.mem_map, forall_exists_index, and_imp, forall_apply_eq_imp_iff₂]
  intro row hrow
  refine List.sum_eq_zero ?_
  simp only [List.mem_map, forall_exists_index, and_imp, forall_apply_eq_imp_iff₂]
  intro x hx
  obtain ⟨a, p, hget⟩ := exists_get2 hrow hx
  exact h a p x hget

end Grid

end PlaneSim.Update
