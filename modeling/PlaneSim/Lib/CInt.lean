import Mathlib.Data.Int.Basic
import Mathlib.Algebra.Order.Group.Int
import Mathlib.Algebra.Order.BigOperators.Group.List
import Mathlib.Tactic.Ring

/-!
# C `int` arithmetic

An `int` is an `Int` between `-2 ^ 31` and `2 ^ 31 - 1`. Addition wraps modulo `2 ^ 32`
(`addInt`); a sum that fits is the sum of the integers (`addInt_of_fits`), and so is a fold of
wrapping additions of non-negative terms whose total fits (`foldl_addInt`). A wider integer that is
stored in an `int` wraps in the same way (`toInt`).
-/

namespace PlaneSim.CInt

/-- The largest `int`. -/
def INT_MAX : Int := 2147483647

/-- `x` is a value of type `int`. -/
def Fits (x : Int) : Prop := -2147483648 ≤ x ∧ x ≤ INT_MAX

instance (x : Int) : Decidable (Fits x) := by unfold Fits; infer_instance

/-- `a + b` on `int`. -/
def addInt (a b : Int) : Int := Int.bmod (a + b) 4294967296

theorem addInt_of_fits {a b : Int} (h : Fits (a + b)) : addInt a b = a + b := by
  unfold Fits INT_MAX at h
  exact Int.bmod_eq_of_le (by omega) (by omega)

/-- A wider integer converted to `int`. -/
def toInt (x : Int) : Int := Int.bmod x 4294967296

theorem toInt_of_fits {x : Int} (h : Fits x) : toInt x = x := by
  unfold Fits INT_MAX at h
  exact Int.bmod_eq_of_le (by omega) (by omega)

theorem toInt_emod (x : Int) : toInt x % 4294967296 = x % 4294967296 := Int.bmod_emod

theorem fits_toInt (x : Int) : Fits (toInt x) := by
  have h1 := Int.le_bmod (x := x) (m := 4294967296) (by decide)
  have h2 := Int.bmod_lt (x := x) (m := 4294967296) (by decide)
  unfold Fits INT_MAX toInt
  omega

/-- Adding up non-negative terms never wraps when the whole sum fits. -/
theorem foldl_addInt {α : Type*} (f : α → Int) :
    ∀ (l : List α) (s : Int), 0 ≤ s → (∀ x ∈ l, 0 ≤ f x) → s + (l.map f).sum ≤ INT_MAX →
      l.foldl (fun acc x => addInt acc (f x)) s = s + (l.map f).sum := by
  intro l
  induction l with
  | nil => intro s _ _ _; simp
  | cons x l ih =>
    intro s hs hf hsum
    have hx : 0 ≤ f x := hf x (by simp)
    have hl : 0 ≤ (l.map f).sum := List.sum_nonneg (by simpa using fun y hy => hf y (by simp [hy]))
    rw [List.map_cons, List.sum_cons] at hsum
    have hadd : addInt s (f x) = s + f x := addInt_of_fits ⟨by omega, by omega⟩
    rw [List.foldl_cons, hadd, ih (s + f x) (by omega) (fun y hy => hf y (by simp [hy])) (by omega),
      List.map_cons, List.sum_cons]
    ring

end PlaneSim.CInt
