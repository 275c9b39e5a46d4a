import Mathlib.Data.List.Basic

/-!
# Ring buffers with an unused slot

A list kept in the slots from `first` on, wrapping at the end, with `tail` behind the last item
(`Holds`). It is never as long as the ring: equal indices mean an empty list (`Holds.empty_iff`),
and `tail` right before `first` a full ring (`Holds.full_iff`).

`Holds.push` and `Holds.pop`: writing at `tail` appends, and moving `first` on takes the front away.
-/

namespace PlaneSim.Ring

variable {α : Type*}

/-- The slots hold `items`; a slot that was never written is `none`. -/
structure Holds (slots : List (Option α)) (first tail : ℕ) (items : List α) : Prop where
  first_lt : first < slots.length
  length_lt : items.length < slots.length
  tail_eq : tail = (first + items.length) % slots.length
  stored : ∀ (i : ℕ) (x : α), items[i]? = some x →
    slots[(first + i) % slots.length]? = some (some x)

/-- The index `b` places after `a`. -/
theorem add_mod_cases {n a b : ℕ} (ha : a < n) (hb : b ≤ n) :
    ((a + b) % n = a + b ∧ a + b < n) ∨ ((a + b) % n = a + b - n ∧ n ≤ a + b) := by
  rcases Nat.lt_or_ge (a + b) n with hlt | hge
  · exact .inl ⟨Nat.mod_eq_of_lt hlt, hlt⟩
  · refine .inr ⟨?_, hge⟩
    rw [Nat.mod_eq_sub_mod hge]
    exact Nat.mod_eq_of_lt (by omega)

theorem holds_nil {n : ℕ} (hpos : 0 < n) : Holds (List.replicate n (none : Option α)) 0 0 [] where
  first_lt := by rwa [List.length_replicate]
  length_lt := by rwa [List.length_replicate]
  tail_eq := by rw [List.length_nil, Nat.zero_add, Nat.zero_mod]
  stored := by simp

section Indices

variable {slots : List (Option α)} {first tail : ℕ} {items : List α}

theorem Holds.tail_lt (h : Holds slots first tail items) : tail < slots.length := by
  rw [h.tail_eq]
  exact Nat.mod_lt _ (Nat.zero_lt_of_lt h.first_lt)

theorem Holds.empty_iff (h : Holds slots first tail items) : first = tail ↔ items = [] := by
  have hfirst := h.first_lt
  have hlen := h.length_lt
  rw [h.tail_eq, ← List.length_eq_zero_iff]
  rcases add_mod_cases hfirst (Nat.le_of_lt hlen) with ⟨hmod, hwrap⟩ | ⟨hmod, hwrap⟩ <;> omega

theorem Holds.full_iff (h : Holds slots first tail items) :
    (tail + 1) % slots.length = first ↔ items.length + 1 = slots.length := by
  have hfirst := h.first_lt
  have hlen := h.length_lt
  rw [h.tail_eq, Nat.mod_add_mod, Nat.add_assoc]
  rcases add_mod_cases (b := items.length + 1) hfirst hlen with ⟨hmod, hwrap⟩ | ⟨hmod, hwrap⟩ <;>
    omega

/-- The slot at `tail` holds no item. -/
theorem Holds.tail_ne (h : Holds slots first tail items) {i : ℕ} (hi : i < items.length) :
    (first + i) % slots.length ≠ tail := by
  have hfirst := h.first_lt
  have hlen := h.length_lt
  rw [h.tail_eq]
  rcases add_mod_cases hfirst (Nat.le_of_lt hlen) with ⟨hmod, hwrap⟩ | ⟨hmod, hwrap⟩ <;>
    rcases add_mod_cases (b := i) hfirst (by omega) with ⟨hmod', hwrap'⟩ | ⟨hmod', hwrap'⟩ <;> omega

end Indices

section Operations

variable {slots : List (Option α)} {first tail : ℕ} {items : List α}

theorem Holds.push (h : Holds slots first tail items) (hroom : items.length + 1 < slots.length)
    (x : α) :
    Holds (slots.set tail (some x)) first ((tail + 1) % slots.length) (items ++ [x]) where
  first_lt := by
    rw [List.length_set]
    exact h.first_lt
  length_lt := by
    rw [List.length_set, List.length_append, List.length_singleton]
    exact hroom
  tail_eq := by
    rw [List.length_set, List.length_append, List.length_singleton, h.tail_eq, Nat.mod_add_mod,
      Nat.add_assoc]
  stored i y hy := by
    rw [List.length_set]
    rcases Nat.lt_or_ge i items.length with hlt | hge
    · rw [List.getElem?_append_left hlt] at hy
      rw [List.getElem?_set_ne (h.tail_ne hlt).symm]
      exact h.stored i y hy
    · have hlast := (List.getElem?_eq_some_iff.mp hy).1
      rw [List.length_append, List.length_singleton] at hlast
      obtain rfl : i = items.length := by omega
      rw [List.getElem?_concat_length] at hy
      rw [← h.tail_eq, List.getElem?_set_self h.tail_lt, Option.some.inj hy]

theorem Holds.front {x : α} (h : Holds slots first tail (x :: items)) :
    slots[first]? = some (some x) := by
  have hfront := h.stored 0 x rfl
  rwa [Nat.add_zero, Nat.mod_eq_of_lt h.first_lt] at hfront

theorem Holds.pop {x : α} (h : Holds slots first tail (x :: items)) :
    Holds slots ((first + 1) % slots.length) tail items where
  first_lt := Nat.mod_lt _ (Nat.zero_lt_of_lt h.first_lt)
  length_lt := Nat.lt_trans (Nat.lt_succ_self _) h.length_lt
  tail_eq := by
    rw [h.tail_eq, List.length_cons, Nat.mod_add_mod, Nat.add_assoc, Nat.add_comm 1]
  stored i y hy := by
    rw [Nat.mod_add_mod, Nat.add_assoc, Nat.add_comm 1]
    exact h.stored (i + 1) y hy

end Operations

end PlaneSim.Ring
