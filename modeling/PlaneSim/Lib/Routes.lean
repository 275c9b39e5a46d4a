import Mathlib.Algebra.BigOperators.Group.Finset.Basic
import Mathlib.Algebra.Order.BigOperators.Group.Finset
import Mathlib.Algebra.Order.Group.Int
import Mathlib.Data.List.Nodup
import Mathlib.Data.Finset.Dedup
import Mathlib.Tactic.Linarith

/-!
# Shortest routes

A graph on the natural numbers is given by the weights of its edges, with `0` for no edge. A route
from `i` to `j` is the list of the vertices between them.

1. A route between different vertices can be cut to a simple one that is not longer
   (`exists_simple`).
2. `Shortest edge k D`: `D` holds the lengths of the shortest routes through vertices below `k`, and
   `0` where there is none; `detour` also takes routes through `k` (`Shortest.next`).
3. A simple route is at most half as long as all edges together, both ways (`Simple.length_le`).
-/

namespace PlaneSim.Routes

variable {edge : ℕ → ℕ → Int}

/-- The length of the route from `i` through `l` to `j`. -/
def length (edge : ℕ → ℕ → Int) : ℕ → List ℕ → ℕ → Int
  | i, [], j => edge i j
  | i, x :: l, j => edge i x + length edge x l j

/-- Every step of the route is an edge. -/
def Joined (edge : ℕ → ℕ → Int) : ℕ → List ℕ → ℕ → Prop
  | i, [], j => edge i j ≠ 0
  | i, x :: l, j => edge i x ≠ 0 ∧ Joined edge x l j

/-- A route that passes through no vertex twice. -/
structure Simple (edge : ℕ → ℕ → Int) (i : ℕ) (l : List ℕ) (j : ℕ) : Prop where
  joined : Joined edge i l j
  nodup : (i :: (l ++ [j])).Nodup

theorem length_append (i : ℕ) (l : List ℕ) (x : ℕ) (m : List ℕ) (j : ℕ) :
    length edge i (l ++ x :: m) j = length edge i l x + length edge x m j := by
  induction l generalizing i with
  | nil => rfl
  | cons y l ih =>
    show edge i y + length edge y (l ++ x :: m) j = edge i y + length edge y l x + _
    rw [ih, add_assoc]

theorem joined_append {i : ℕ} {l : List ℕ} {x : ℕ} {m : List ℕ} {j : ℕ} :
    Joined edge i (l ++ x :: m) j ↔ Joined edge i l x ∧ Joined edge x m j := by
  induction l generalizing i with
  | nil => exact Iff.rfl
  | cons y l ih =>
    show edge i y ≠ 0 ∧ Joined edge y (l ++ x :: m) j ↔ (edge i y ≠ 0 ∧ Joined edge y l x) ∧ _
    rw [ih, and_assoc]

/-- A route ends with an edge. -/
theorem Joined.exists_edge {i j : ℕ} {l : List ℕ} (h : Joined edge i l j) : ∃ x, edge x j ≠ 0 := by
  induction l generalizing i with
  | nil => exact ⟨i, h⟩
  | cons x l ih => exact ih h.2

theorem length_pos (hedge : ∀ i j, 0 ≤ edge i j) {i j : ℕ} {l : List ℕ} (h : Joined edge i l j) :
    0 < length edge i l j := by
  induction l generalizing i with
  | nil => exact lt_of_le_of_ne (hedge i j) (Ne.symm h)
  | cons x l ih =>
    have h1 := hedge i x
    have h2 := ih h.2
    show 0 < edge i x + length edge x l j
    omega

theorem Simple.ne {i j : ℕ} {l : List ℕ} (h : Simple edge i l j) : i ≠ j := by
  rintro rfl
  have := h.nodup
  simp at this

/-- A simple route is simple on both sides of a vertex it passes. -/
theorem Simple.split {i : ℕ} {l : List ℕ} {x : ℕ} {m : List ℕ} {j : ℕ}
    (h : Simple edge i (l ++ x :: m) j) : Simple edge i l x ∧ Simple edge x m j := by
  obtain ⟨h1, h2⟩ := joined_append.mp h.joined
  have hnodup : ((i :: (l ++ [x])) ++ (m ++ [j])).Nodup := by
    have := h.nodup
    simpa using this
  have hnodup' : ((i :: l) ++ (x :: (m ++ [j]))).Nodup := by
    have := h.nodup
    simpa using this
  exact ⟨⟨h1, hnodup.of_append_left⟩, ⟨h2, hnodup'.of_append_right⟩⟩

/-- It does not pass that vertex again. -/
theorem Simple.ne_of_mem {i : ℕ} {l : List ℕ} {x : ℕ} {m : List ℕ} {j : ℕ}
    (h : Simple edge i (l ++ x :: m) j) : (∀ y ∈ l, y ≠ x) ∧ ∀ y ∈ m, y ≠ x := by
  have hnodup : (l ++ x :: m).Nodup :=
    ((List.nodup_cons.mp h.nodup).2).of_append_left
  obtain ⟨hx, -⟩ := List.nodup_cons.mp (List.nodup_middle.mp hnodup)
  constructor
  · rintro y hy rfl
    exact hx (List.mem_append_left _ hy)
  · rintro y hy rfl
    exact hx (List.mem_append_right _ hy)

/-- **Cutting.** A route between different vertices can be made simple, through some of its own
vertices, without becoming longer. -/
theorem exists_simple (hedge : ∀ i j, 0 ≤ edge i j) {i j : ℕ} {l : List ℕ} (hne : i ≠ j)
    (h : Joined edge i l j) :
    ∃ l', Simple edge i l' j ∧ (∀ x ∈ l', x ∈ l) ∧ length edge i l' j ≤ length edge i l j := by
  induction l generalizing i with
  | nil => exact ⟨[], ⟨h, by simpa using hne⟩, by simp, le_rfl⟩
  | cons x l ih =>
    obtain ⟨hedge_x, htail⟩ := h
    have hx := hedge i x
    have htail_pos := length_pos hedge htail
    have hlength : length edge i (x :: l) j = edge i x + length edge x l j := rfl
    by_cases hxj : x = j
    · subst hxj
      exact ⟨[], ⟨hedge_x, by simpa using hne⟩, by simp, by
        rw [hlength]
        show edge i x ≤ _
        omega⟩
    obtain ⟨l', hsimple, hsub, hle⟩ := ih hxj htail
    by_cases hi : i = x ∨ i ∈ l'
    · -- the route comes back to where it began
      rcases hi with rfl | hi
      · exact ⟨l', hsimple, fun y hy => List.mem_cons_of_mem _ (hsub y hy), by omega⟩
      · obtain ⟨m1, m2, rfl⟩ := List.append_of_mem hi
        obtain ⟨hfirst, hlast⟩ := hsimple.split
        have hcut := @length_append edge x m1 i m2 j
        have hpos := length_pos hedge hfirst.joined
        exact ⟨m2, hlast, fun y hy => List.mem_cons_of_mem _ (hsub y (by simp [hy])), by omega⟩
    · obtain ⟨hix, hil⟩ := not_or.mp hi
      refine ⟨x :: l', ⟨⟨hedge_x, hsimple.joined⟩, ?_⟩, fun y hy => ?_, ?_⟩
      · refine List.nodup_cons.mpr ⟨?_, hsimple.nodup⟩
        simp [hix, hil, hne]
      · rcases List.mem_cons.mp hy with rfl | hy
        · exact List.mem_cons_self
        · exact List.mem_cons_of_mem _ (hsub y hy)
      · show edge i x + length edge x l' j ≤ edge i x + length edge x l j
        omega

/-! ## Distances through the first vertices -/

/-- `D` holds the lengths of the shortest routes through vertices below `k`, and `0` where there is
none; the diagonal is not used. -/
structure Shortest (edge : ℕ → ℕ → Int) (k : ℕ) (D : ℕ → ℕ → Int) : Prop where
  diag : ∀ i, 0 ≤ D i i
  path : ∀ i j, i ≠ j → D i j ≠ 0 →
    ∃ l, Simple edge i l j ∧ (∀ x ∈ l, x < k) ∧ length edge i l j = D i j
  le : ∀ i j l, Simple edge i l j → (∀ x ∈ l, x < k) → D i j ≠ 0 ∧ D i j ≤ length edge i l j

/-- The distance from `i` to `j` when routes may also pass `k`. -/
def detour (D : ℕ → ℕ → Int) (k i j : ℕ) : Int :=
  let through := if D i k ≠ 0 ∧ D k j ≠ 0 then D i k + D k j else 0
  if through ≠ 0 ∧ i ≠ j ∧ (D i j = 0 ∨ through < D i j) then through else D i j

/-- Either nothing changes, or the way through `k` is new or shorter. -/
theorem detour_cases (D : ℕ → ℕ → Int) (k i j : ℕ) :
    (detour D k i j = D i j ∧
        (i = j ∨ D i k = 0 ∨ D k j = 0 ∨ D i k + D k j = 0 ∨ D i j ≠ 0 ∧ D i j ≤ D i k + D k j)) ∨
      (detour D k i j = D i k + D k j ∧ i ≠ j ∧ D i k ≠ 0 ∧ D k j ≠ 0 ∧ D i k + D k j ≠ 0 ∧
        (D i j = 0 ∨ D i k + D k j < D i j)) := by
  unfold detour
  dsimp only
  by_cases hboth : D i k ≠ 0 ∧ D k j ≠ 0
  · rw [if_pos hboth]
    split
    · rename_i h
      exact .inr ⟨rfl, h.2.1, hboth.1, hboth.2, h.1, h.2.2⟩
    · rename_i h
      refine .inl ⟨rfl, ?_⟩
      by_contra hno
      push Not at hno
      exact h ⟨hno.2.2.2.1, hno.1, by
        by_cases hz : D i j = 0
        · exact .inl hz
        · exact .inr (hno.2.2.2.2 hz)⟩
  · rw [if_neg hboth, if_neg (by simp)]
    refine .inl ⟨rfl, ?_⟩
    by_cases h1 : D i k = 0
    · exact .inr (.inl h1)
    · exact .inr (.inr (.inl (by
        by_contra h2
        exact hboth ⟨h1, h2⟩)))

theorem detour_symm {D : ℕ → ℕ → Int} (h : ∀ i j, D i j = D j i) (k i j : ℕ) :
    detour D k i j = detour D k j i := by
  simp only [detour, h i k, h k j, h i j, add_comm (D k i), and_comm (a := D k i ≠ 0),
    ne_comm (a := i) (b := j)]

theorem Shortest.pos {k : ℕ} {D : ℕ → ℕ → Int} (hedge : ∀ i j, 0 ≤ edge i j)
    (h : Shortest edge k D) {i j : ℕ} (hne : i ≠ j) (hD : D i j ≠ 0) : 0 < D i j := by
  obtain ⟨l, hl, -, hlen⟩ := h.path i j hne hD
  rw [← hlen]
  exact length_pos hedge hl.joined

/-- **One more vertex.** -/
theorem Shortest.next {k : ℕ} {D : ℕ → ℕ → Int} (hedge : ∀ i j, 0 ≤ edge i j)
    (h : Shortest edge k D) : Shortest edge (k + 1) (detour D k) where
  diag i := by
    rcases detour_cases D k i i with ⟨he, -⟩ | ⟨-, hne, -⟩
    · rw [he]
      exact h.diag i
    · exact absurd rfl hne
  path i j hne hD := by
    rcases detour_cases D k i j with ⟨he, -⟩ | ⟨he, -, hik, hkj, -, hbetter⟩
    · rw [he] at hD ⊢
      obtain ⟨l, hl, hlt, hlen⟩ := h.path i j hne hD
      exact ⟨l, hl, fun x hx => (hlt x hx).trans (Nat.lt_succ_self k), hlen⟩
    · have hik' : i ≠ k := by
        rintro rfl
        have := h.diag i
        rcases hbetter with hz | hlt
        · exact hkj hz
        · omega
      have hkj' : k ≠ j := by
        rintro rfl
        have := h.diag k
        rcases hbetter with hz | hlt
        · exact hik hz
        · omega
      obtain ⟨l1, hl1, hlt1, hlen1⟩ := h.path i k hik' hik
      obtain ⟨l2, hl2, hlt2, hlen2⟩ := h.path k j hkj' hkj
      obtain ⟨l, hl, hsub, hle⟩ := exists_simple hedge hne (joined_append.mpr ⟨hl1.joined, hl2.joined⟩)
      rw [length_append, hlen1, hlen2] at hle
      have hlt : ∀ x ∈ l, x ≠ k → x < k := by
        intro x hx hxk
        rcases List.mem_append.mp (hsub x hx) with hx | hx
        · exact hlt1 x hx
        · rcases List.mem_cons.mp hx with hx | hx
          · exact absurd hx hxk
          · exact hlt2 x hx
      by_cases hk : k ∈ l
      · obtain ⟨m1, m2, rfl⟩ := List.append_of_mem hk
        obtain ⟨hs1, hs2⟩ := hl.split
        obtain ⟨hne1, hne2⟩ := hl.ne_of_mem
        have hm1 : ∀ x ∈ m1, x < k := fun x hx => hlt x (by simp [hx]) (hne1 x hx)
        have hm2 : ∀ x ∈ m2, x < k := fun x hx => hlt x (by simp [hx]) (hne2 x hx)
        have h1 := (h.le i k m1 hs1 hm1).2
        have h2 := (h.le k j m2 hs2 hm2).2
        rw [length_append] at hle
        refine ⟨m1 ++ k :: m2, hl, fun x hx => ?_, by rw [he, length_append]; omega⟩
        by_cases hxk : x = k
        · omega
        · have := hlt x hx hxk
          omega
      · -- a route without `k` would have been known
        obtain ⟨hnz, hle'⟩ := h.le i j l hl fun x hx => hlt x hx fun hxk => hk (hxk ▸ hx)
        rcases hbetter with hz | hlt'
        · exact absurd hz hnz
        · omega
  le i j l hl hlt := by
    have hne := hl.ne
    have hcases := detour_cases D k i j
    by_cases hk : k ∈ l
    · obtain ⟨m1, m2, rfl⟩ := List.append_of_mem hk
      obtain ⟨hs1, hs2⟩ := hl.split
      obtain ⟨hne1, hne2⟩ := hl.ne_of_mem
      have hm1 : ∀ x ∈ m1, x < k := by
        intro x hx
        have := hlt x (by simp [hx])
        have := hne1 x hx
        omega
      have hm2 : ∀ x ∈ m2, x < k := by
        intro x hx
        have := hlt x (by simp [hx])
        have := hne2 x hx
        omega
      obtain ⟨hik, hle1⟩ := h.le i k m1 hs1 hm1
      obtain ⟨hkj, hle2⟩ := h.le k j m2 hs2 hm2
      have hpos1 := h.pos hedge hs1.ne hik
      have hpos2 := h.pos hedge hs2.ne hkj
      rw [length_append]
      rcases hcases with ⟨he, hcase⟩ | ⟨he, -, -, -, hnz, -⟩
      · rw [he]
        rcases hcase with hij | hz | hz | hz | ⟨hnz, hle⟩
        · exact absurd hij hne
        · exact absurd hz hik
        · exact absurd hz hkj
        · omega
        · exact ⟨hnz, by omega⟩
      · rw [he]
        exact ⟨hnz, by omega⟩
    · obtain ⟨hnz, hle⟩ := h.le i j l hl fun x hx => by
        have := hlt x hx
        have hxk : x ≠ k := fun hxk => hk (hxk ▸ hx)
        omega
      rcases hcases with ⟨he, -⟩ | ⟨he, -, -, -, hsum, hz | hlt'⟩
      · rw [he]
        exact ⟨hnz, hle⟩
      · exact absurd hz hnz
      · rw [he]
        exact ⟨hsum, by omega⟩

/-- The edges themselves are the routes through no vertex. -/
theorem shortest_zero (hedge : ∀ i j, 0 ≤ edge i j) : Shortest edge 0 edge where
  diag i := hedge i i
  path i j hne hD := ⟨[], ⟨hD, by simpa using hne⟩, by simp, rfl⟩
  le i j l hl hlt := by
    cases l with
    | nil => exact ⟨hl.joined, le_rfl⟩
    | cons x l => exact absurd (hlt x (by simp)) (Nat.not_lt_zero x)

/-- Through all vertices: `0` says that no route exists, anything else is the least length. -/
theorem Shortest.isLeast {n : ℕ} {D : ℕ → ℕ → Int} (hedge : ∀ i j, 0 ≤ edge i j)
    (h : Shortest edge n D) (hn : ∀ i j, edge i j ≠ 0 → i < n) {i j : ℕ} (hne : i ≠ j) :
    ((∃ l, Joined edge i l j) → IsLeast {w | ∃ l, Joined edge i l j ∧ length edge i l j = w} (D i j)) ∧
      ((¬∃ l, Joined edge i l j) → D i j = 0) := by
  have hvertex : ∀ {i j : ℕ} {l : List ℕ}, Joined edge i l j → ∀ x ∈ l, x < n := by
    intro i j l hl
    induction l generalizing i with
    | nil => simp
    | cons y l ih =>
      intro x hx
      rcases List.mem_cons.mp hx with rfl | hx
      · cases l with
        | nil => exact hn x j hl.2
        | cons z l => exact hn x z hl.2.1
      · exact ih hl.2 x hx
  have hleast : ∀ l, Joined edge i l j → D i j ≠ 0 ∧ D i j ≤ length edge i l j := by
    intro l hl
    obtain ⟨l', hs, -, hle⟩ := exists_simple hedge hne hl
    obtain ⟨hnz, hle'⟩ := h.le i j l' hs (hvertex hs.joined)
    exact ⟨hnz, hle'.trans hle⟩
  constructor
  · rintro ⟨l, hl⟩
    obtain ⟨l', hs, -, hlen⟩ := h.path i j hne (hleast l hl).1
    refine ⟨⟨l', hs.joined, hlen⟩, ?_⟩
    rintro w ⟨m, hm, rfl⟩
    exact (hleast m hm).2
  · intro hno
    by_contra hD
    obtain ⟨l, hs, -, -⟩ := h.path i j hne hD
    exact hno ⟨l, hs.joined⟩

/-! ## How long a simple route can be -/

/-- Twice the length of a simple route is at most the sum of all edges between its vertices. -/
theorem Simple.two_mul_length_le (hedge : ∀ i j, 0 ≤ edge i j)
    (hsymm : ∀ i j, edge i j = edge j i) {i j : ℕ} {l : List ℕ} (h : Simple edge i l j) :
    2 * length edge i l j ≤ ∑ u ∈ (i :: (l ++ [j])).toFinset, ∑ v ∈ (i :: (l ++ [j])).toFinset,
      edge u v := by
  have hinsert : ∀ (V : Finset ℕ) (i x : ℕ), i ∉ V → x ∈ V →
      2 * edge i x + ∑ u ∈ V, ∑ v ∈ V, edge u v ≤
        ∑ u ∈ insert i V, ∑ v ∈ insert i V, edge u v := by
    intro V i x hi hx
    have hrow : edge i x ≤ ∑ v ∈ V, edge i v :=
      Finset.single_le_sum (f := fun v => edge i v) (fun v _ => hedge i v) hx
    have hcol : edge i x ≤ ∑ u ∈ V, edge u i := by
      rw [hsymm i x]
      exact Finset.single_le_sum (f := fun u => edge u i) (fun u _ => hedge u i) hx
    have hii := hedge i i
    rw [Finset.sum_insert hi, Finset.sum_insert hi]
    have hrest : ∑ u ∈ V, ∑ v ∈ insert i V, edge u v =
        ∑ u ∈ V, edge u i + ∑ u ∈ V, ∑ v ∈ V, edge u v := by
      rw [← Finset.sum_add_distrib]
      exact Finset.sum_congr rfl fun u _ => Finset.sum_insert hi
    rw [hrest]
    linarith
  induction l generalizing i with
  | nil =>
    have hi : i ∉ ([j] : List ℕ).toFinset := by simpa using h.ne
    have := hinsert [j].toFinset i j hi (by simp)
    have hjj := hedge j j
    have hsum : ∑ u ∈ [j].toFinset, ∑ v ∈ [j].toFinset, edge u v = edge j j := by simp
    rw [hsum] at this
    rw [List.nil_append, List.toFinset_cons]
    show 2 * edge i j ≤ _
    linarith
  | cons x l ih =>
    have htail : Simple edge x l j := ⟨h.joined.2, (List.nodup_cons.mp h.nodup).2⟩
    have hi : i ∉ (x :: (l ++ [j])).toFinset := by
      rw [List.mem_toFinset]
      exact (List.nodup_cons.mp h.nodup).1
    have h1 := hinsert (x :: (l ++ [j])).toFinset i x hi (by simp)
    have h2 := ih htail
    rw [List.cons_append, List.toFinset_cons]
    show 2 * (edge i x + length edge x l j) ≤ _
    linarith

/-- The same for all edges of a graph on `n` vertices. -/
theorem Simple.length_le {n : ℕ} (hedge : ∀ i j, 0 ≤ edge i j) (hsymm : ∀ i j, edge i j = edge j i)
    (hn : ∀ i j, edge i j ≠ 0 → i < n) {i j : ℕ} {l : List ℕ} (h : Simple edge i l j) :
    2 * length edge i l j ≤ ∑ u ∈ Finset.range n, ∑ v ∈ Finset.range n, edge u v := by
  refine (h.two_mul_length_le hedge hsymm).trans ?_
  have hsub : (i :: (l ++ [j])).toFinset ⊆ Finset.range n := by
    have hmem : ∀ {i : ℕ} {l : List ℕ}, Joined edge i l j → ∀ x ∈ i :: (l ++ [j]), x < n := by
      intro i l hl
      induction l generalizing i with
      | nil =>
        intro x hx
        rcases List.mem_cons.mp hx with rfl | hx
        · exact hn x j hl
        · obtain rfl : x = j := by simpa using hx
          exact hn x i (by rw [hsymm]; exact hl)
      | cons y l ih =>
        intro x hx
        rcases List.mem_cons.mp hx with rfl | hx
        · exact hn x y hl.1
        · exact ih hl.2 x hx
    intro x hx
    exact Finset.mem_range.mpr (hmem h.joined x (List.mem_toFinset.mp hx))
  calc ∑ u ∈ (i :: (l ++ [j])).toFinset, ∑ v ∈ (i :: (l ++ [j])).toFinset, edge u v
      ≤ ∑ u ∈ (i :: (l ++ [j])).toFinset, ∑ v ∈ Finset.range n, edge u v :=
        Finset.sum_le_sum fun u _ =>
          Finset.sum_le_sum_of_subset_of_nonneg hsub fun v _ _ => hedge u v
    _ ≤ ∑ u ∈ Finset.range n, ∑ v ∈ Finset.range n, edge u v :=
        Finset.sum_le_sum_of_subset_of_nonneg hsub fun u _ _ =>
          Finset.sum_nonneg fun v _ => hedge u v

end PlaneSim.Routes
