import PlaneSim.Lib.CInt
import PlaneSim.Lib.Routes
import Mathlib.Data.List.Basic
import Mathlib.Data.List.ProdSigma

/-!
# The distance matrix

`floydMatrix` of `parser.c`, in place on a square matrix where `0` off the diagonal means that no
path is known. The sums are `int` additions.

1. One round of the outer loop admits one more city on the way (`entry_round`), although it reads
   the matrix that it is writing.
2. The distances are those of the shortest routes (`floydMatrix_shortest`).
-/

namespace PlaneSim

open CInt Routes

/-- `matrix[i][j]`. -/
def entry (matrix : List (List Int)) (i j : ℕ) : Int := (matrix.getD i []).getD j 0

/-- `matrix[i][j] = w`. -/
def setEntry (matrix : List (List Int)) (i j : ℕ) (w : Int) : List (List Int) :=
  matrix.modify i (·.set j w)

/-- The body of the three loops. -/
def relax (matrix : List (List Int)) (k i j : ℕ) : List (List Int) :=
  let aux1 := entry matrix i j
  let aux2 := if entry matrix i k ≠ 0 ∧ entry matrix k j ≠ 0
    then addInt (entry matrix i k) (entry matrix k j) else 0
  if aux2 ≠ 0 ∧ i ≠ j ∧ (aux1 = 0 ∨ aux2 < aux1) then setEntry matrix i j aux2 else matrix

def floydMatrix (matrix : List (List Int)) (counter : ℕ) : List (List Int) :=
  (List.range counter).foldl (fun matrix k =>
    (List.range counter).foldl (fun matrix i =>
      (List.range counter).foldl (fun matrix j => relax matrix k i j) matrix) matrix) matrix

/-- `(k, i, j)` in the order of the loops. -/
def loops (counter : ℕ) : List (ℕ × ℕ × ℕ) :=
  (List.range counter).flatMap fun k => (List.range counter).flatMap fun i =>
    (List.range counter).map fun j => (k, i, j)

theorem floydMatrix_eq_foldl (matrix : List (List Int)) (counter : ℕ) :
    floydMatrix matrix counter =
      (loops counter).foldl (fun matrix s => relax matrix s.1 s.2.1 s.2.2) matrix := by
  simp only [floydMatrix, loops, List.foldl_flatMap, List.foldl_map]

/-- `n` rows of `n` entries. -/
def Square (n : ℕ) (matrix : List (List Int)) : Prop :=
  matrix.length = n ∧ ∀ row ∈ matrix, row.length = n

theorem Square.setEntry {n : ℕ} {matrix : List (List Int)} (h : Square n matrix) (i j : ℕ)
    (w : Int) : Square n (setEntry matrix i j w) := by
  unfold PlaneSim.setEntry
  refine ⟨by rw [List.length_modify]; exact h.1, fun row hrow => ?_⟩
  obtain ⟨k, hk⟩ := List.mem_iff_getElem?.mp hrow
  rw [List.getElem?_modify] at hk
  obtain ⟨old, hold, hnew⟩ := Option.map_eq_some_iff.mp hk
  have hlen := h.2 old (List.mem_of_getElem? hold)
  split at hnew
  · rw [← hnew, List.length_set]
    exact hlen
  · rw [← hnew]
    exact hlen

theorem Square.relax {n : ℕ} {matrix : List (List Int)} (h : Square n matrix) (k i j : ℕ) :
    Square n (relax matrix k i j) := by
  unfold PlaneSim.relax
  dsimp only
  split_ifs
  all_goals first | exact h.setEntry .. | exact h

theorem Square.floydMatrix {n : ℕ} {matrix : List (List Int)} (h : Square n matrix)
    (counter : ℕ) : Square n (floydMatrix matrix counter) := by
  rw [floydMatrix_eq_foldl]
  generalize loops counter = steps
  induction steps generalizing matrix with
  | nil => exact h
  | cons s steps ih => exact ih (h.relax ..)

/-! ## One round -/

/-- The indices of the two inner loops. -/
def cells (counter : ℕ) : List (ℕ × ℕ) := (List.range counter).product (List.range counter)

/-- One round of the outer loop. -/
def round (matrix : List (List Int)) (counter k : ℕ) : List (List Int) :=
  (cells counter).foldl (fun matrix c => relax matrix k c.1 c.2) matrix

theorem floydMatrix_eq_round (matrix : List (List Int)) (counter : ℕ) :
    floydMatrix matrix counter =
      (List.range counter).foldl (fun matrix k => round matrix counter k) matrix := by
  simp only [floydMatrix, round, cells, List.product, List.foldl_flatMap, List.foldl_map]

theorem entry_setEntry {n : ℕ} {matrix : List (List Int)} (h : Square n matrix) {i j : ℕ}
    (hi : i < n) (hj : j < n) (w : Int) (a b : ℕ) :
    entry (setEntry matrix i j w) a b = if a = i ∧ b = j then w else entry matrix a b := by
  have hi' : i < matrix.length := by rw [h.1]; exact hi
  have hj' : j < matrix[i].length := by rw [h.2 _ (List.getElem_mem hi')]; exact hj
  unfold entry setEntry
  rw [List.getD_eq_getElem?_getD, List.getD_eq_getElem?_getD, List.getElem?_modify]
  by_cases ha : a = i
  · subst ha
    by_cases hb : b = j
    · subst hb
      simp [hi', hj']
    · simp [hi', hb, Ne.symm hb, List.getElem?_set_ne]
  · simp [ha, Ne.symm ha]

/-- Relaxing one entry admits `k` on the way from `i` to `j`. -/
theorem entry_relax {n : ℕ} {matrix : List (List Int)} (h : Square n matrix) {k i j : ℕ} (hi : i < n)
    (hj : j < n) (hfit : Fits (entry matrix i k + entry matrix k j)) (a b : ℕ) :
    entry (relax matrix k i j) a b =
      if a = i ∧ b = j then detour (entry matrix) k i j else entry matrix a b := by
  unfold relax detour
  dsimp only
  rw [addInt_of_fits hfit]
  generalize (if entry matrix i k ≠ 0 ∧ entry matrix k j ≠ 0 then
    entry matrix i k + entry matrix k j else 0) = through
  by_cases hnew : through ≠ 0 ∧ i ≠ j ∧ (entry matrix i j = 0 ∨ through < entry matrix i j)
  · rw [if_pos hnew, if_pos hnew]
    exact entry_setEntry h hi hj _ a b
  · rw [if_neg hnew, if_neg hnew]
    by_cases hab : a = i ∧ b = j
    · rw [if_pos hab, hab.1, hab.2]
    · rw [if_neg hab]

/-- The way through `k` is no way to `k`, nor from it. -/
theorem detour_self {D : ℕ → ℕ → Int} {k : ℕ} (h : 0 ≤ D k k) (i : ℕ) :
    detour D k i k = D i k ∧ detour D k k i = D k i := by
  constructor
  · rcases detour_cases D k i k with ⟨he, -⟩ | ⟨-, -, hik, -, -, hz | hlt⟩
    · exact he
    · exact absurd hz hik
    · omega
  · rcases detour_cases D k k i with ⟨he, -⟩ | ⟨-, -, -, hki, -, hz | hlt⟩
    · exact he
    · exact absurd hz hki
    · omega

/-- The inner loops, from a matrix where the entries still to be visited, column `k` and row `k` are
as they were. -/
theorem entry_foldl_relax {n k : ℕ} {D : ℕ → ℕ → Int} (hdiag : 0 ≤ D k k)
    (hfit : ∀ i j, i < n → j < n → Fits (D i k + D k j)) :
    ∀ (cells : List (ℕ × ℕ)) (matrix : List (List Int)), cells.Nodup → Square n matrix →
      (∀ c ∈ cells, c.1 < n ∧ c.2 < n ∧ entry matrix c.1 c.2 = D c.1 c.2) →
      (∀ i, entry matrix i k = D i k) → (∀ j, entry matrix k j = D k j) →
        Square n (cells.foldl (fun matrix c => relax matrix k c.1 c.2) matrix) ∧
          ∀ a b, entry (cells.foldl (fun matrix c => relax matrix k c.1 c.2) matrix) a b =
            if (a, b) ∈ cells then detour D k a b else entry matrix a b := by
  intro cells
  induction cells with
  | nil => exact fun matrix _ hs _ _ _ => ⟨hs, fun a b => by simp⟩
  | cons c cells ih =>
    obtain ⟨i, j⟩ := c
    intro matrix hnodup hs hcells hcol hrow
    obtain ⟨hnot, hnodup⟩ := List.nodup_cons.mp hnodup
    obtain ⟨hi, hj, hij⟩ := hcells (i, j) (by simp)
    have hdetour : detour (entry matrix) k i j = detour D k i j := by
      simp only [detour, hij, hcol, hrow]
    have hnew : ∀ a b, entry (relax matrix k i j) a b =
        if a = i ∧ b = j then detour D k i j else entry matrix a b := by
      intro a b
      rw [entry_relax hs hi hj (by rw [hcol, hrow]; exact hfit i j hi hj), hdetour]
    have hcells' : ∀ c ∈ cells, c.1 < n ∧ c.2 < n ∧ entry (relax matrix k i j) c.1 c.2 = D c.1 c.2 := by
      intro c hc
      obtain ⟨h1, h2, h3⟩ := hcells c (List.mem_cons_of_mem _ hc)
      have hne : ¬(c.1 = i ∧ c.2 = j) := by
        rintro ⟨hc1, hc2⟩
        exact hnot (by rw [← hc1, ← hc2]; exact hc)
      exact ⟨h1, h2, by rw [hnew, if_neg hne, h3]⟩
    have hcol' : ∀ a, entry (relax matrix k i j) a k = D a k := by
      intro a
      rw [hnew]
      split
      · rename_i hab
        rw [hab.1, ← hab.2]
        exact (detour_self hdiag i).1
      · exact hcol a
    have hrow' : ∀ b, entry (relax matrix k i j) k b = D k b := by
      intro b
      rw [hnew]
      split
      · rename_i hab
        rw [hab.2, ← hab.1]
        exact (detour_self hdiag j).2
      · exact hrow b
    obtain ⟨hs', hih⟩ := ih (relax matrix k i j) hnodup (hs.relax k i j) hcells' hcol' hrow'
    refine ⟨hs', fun a b => ?_⟩
    rw [List.foldl_cons, hih, hnew]
    by_cases hab : a = i ∧ b = j
    · obtain ⟨rfl, rfl⟩ := hab
      simp [hnot]
    · have hne : (a, b) ≠ (i, j) := fun he => hab (by simpa using he)
      simp [hab, hne]

/-- **A round admits one more city on the way**, in place. -/
theorem entry_round {n k : ℕ} {matrix : List (List Int)} (h : Square n matrix)
    (hdiag : 0 ≤ entry matrix k k)
    (hfit : ∀ i j, i < n → j < n → Fits (entry matrix i k + entry matrix k j)) :
    Square n (round matrix n k) ∧
      ∀ i j, entry (round matrix n k) i j =
        if i < n ∧ j < n then detour (entry matrix) k i j else entry matrix i j := by
  have hmem : ∀ c : ℕ × ℕ, c ∈ cells n ↔ c.1 < n ∧ c.2 < n := by
    rintro ⟨i, j⟩
    simp [cells, List.pair_mem_product]
  have hnodup : (cells n).Nodup := List.nodup_range.product List.nodup_range
  obtain ⟨hs, hentry⟩ := entry_foldl_relax hdiag hfit (cells n) matrix hnodup h
    (fun c hc => ⟨((hmem c).mp hc).1, ((hmem c).mp hc).2, rfl⟩) (fun _ => rfl) fun _ => rfl
  refine ⟨hs, fun i j => ?_⟩
  rw [round, hentry]
  by_cases hij : i < n ∧ j < n
  · rw [if_pos ((hmem (i, j)).mpr hij), if_pos hij]
  · rw [if_neg fun h => hij ((hmem (i, j)).mp h), if_neg hij]

/-! ## The shortest routes -/

/-- Connections: a square matrix, the same both ways. -/
structure Connections (n : ℕ) (matrix : List (List Int)) : Prop where
  square : Square n matrix
  symm : ∀ i j, entry matrix i j = entry matrix j i

/-- With weights that are not negative. -/
structure Roads (n : ℕ) (matrix : List (List Int)) : Prop extends Connections n matrix where
  nonneg : ∀ i j, 0 ≤ entry matrix i j

/-- Twice the sum of all weights is an `int`. -/
def RoadsFit (n : ℕ) (matrix : List (List Int)) : Prop :=
  ∑ i ∈ Finset.range n, ∑ j ∈ Finset.range n, entry matrix i j +
    ∑ i ∈ Finset.range n, entry matrix i i ≤ INT_MAX

theorem Square.entry_eq_zero {n : ℕ} {matrix : List (List Int)} (h : Square n matrix) {i j : ℕ}
    (hij : ¬(i < n ∧ j < n)) : entry matrix i j = 0 := by
  unfold entry
  rw [List.getD_eq_getElem?_getD, List.getD_eq_getElem?_getD]
  by_cases hi : i < n
  · have hi' : i < matrix.length := by rw [h.1]; exact hi
    have hlen : matrix[i].length = n := h.2 _ (List.getElem_mem hi')
    have hj : n ≤ j := by
      by_contra hj
      exact hij ⟨hi, by omega⟩
    rw [List.getElem?_eq_getElem hi', Option.getD_some, List.getElem?_eq_none (by omega)]
    rfl
  · have hlen := h.1
    rw [List.getElem?_eq_none (l := matrix) (by omega)]
    rfl

theorem Roads.lt {n : ℕ} {matrix : List (List Int)} (h : Roads n matrix) {i j : ℕ}
    (hij : entry matrix i j ≠ 0) : i < n := by
  by_contra hi
  exact hij (h.square.entry_eq_zero fun hlt => hi hlt.1)

/-- The shortest routes through the first cities, and what of the matrix does not change. -/
structure Distances (n k : ℕ) (roads matrix : List (List Int)) : Prop where
  square : Square n matrix
  symm : ∀ i j, entry matrix i j = entry matrix j i
  diag : ∀ i, entry matrix i i = entry roads i i
  shortest : Shortest (entry roads) k (entry matrix)

/-- Half of what an `int` holds is enough for every distance. -/
theorem Distances.two_mul_le {n k : ℕ} {roads matrix : List (List Int)} (h : Roads n roads)
    (hfit : RoadsFit n roads) (hd : Distances n k roads matrix) (i j : ℕ) :
    0 ≤ entry matrix i j ∧ 2 * entry matrix i j ≤ INT_MAX := by
  have hsum : 0 ≤ ∑ i ∈ Finset.range n, entry roads i i :=
    Finset.sum_nonneg fun i _ => h.nonneg i i
  have htotal : 0 ≤ ∑ i ∈ Finset.range n, ∑ j ∈ Finset.range n, entry roads i j :=
    Finset.sum_nonneg fun i _ => Finset.sum_nonneg fun j _ => h.nonneg i j
  unfold RoadsFit at hfit
  by_cases hij : i = j
  · subst hij
    rw [hd.diag]
    have hnn := h.nonneg i i
    refine ⟨hnn, ?_⟩
    by_cases hi : i < n
    · have hmem := Finset.mem_range.mpr hi
      have h1 : entry roads i i ≤ ∑ i ∈ Finset.range n, entry roads i i :=
        Finset.single_le_sum (f := fun i => entry roads i i) (fun i _ => h.nonneg i i) hmem
      have h2 : entry roads i i ≤ ∑ j ∈ Finset.range n, entry roads i j :=
        Finset.single_le_sum (f := fun j => entry roads i j) (fun j _ => h.nonneg i j) hmem
      have h3 : ∑ j ∈ Finset.range n, entry roads i j ≤
          ∑ i ∈ Finset.range n, ∑ j ∈ Finset.range n, entry roads i j :=
        Finset.single_le_sum (f := fun i => ∑ j ∈ Finset.range n, entry roads i j)
          (fun i _ => Finset.sum_nonneg fun j _ => h.nonneg i j) hmem
      linarith
    · rw [h.square.entry_eq_zero fun hlt => hi hlt.1]
      decide
  · by_cases hz : entry matrix i j = 0
    · rw [hz]
      exact ⟨le_rfl, by decide⟩
    · obtain ⟨l, hl, -, hlen⟩ := hd.shortest.path i j hij hz
      have hpos := length_pos h.nonneg hl.joined
      have := hl.length_le h.nonneg h.symm fun _ _ => h.lt
      rw [hlen] at this hpos
      exact ⟨hpos.le, by linarith⟩

theorem Distances.round {n k : ℕ} {roads matrix : List (List Int)} (h : Roads n roads)
    (hfit : RoadsFit n roads) (hd : Distances n k roads matrix) :
    Distances n (k + 1) roads (round matrix n k) := by
  have hbound := hd.two_mul_le h hfit
  obtain ⟨hs, hentry⟩ := entry_round hd.square (hbound k k).1 (k := k) fun i j _ _ => by
    have h1 := hbound i k
    have h2 := hbound k j
    unfold Fits
    constructor <;> omega
  have hdetour : entry (PlaneSim.round matrix n k) = detour (entry matrix) k := by
    funext i j
    rw [hentry]
    split
    · rfl
    · rename_i hij
      rcases detour_cases (entry matrix) k i j with ⟨he, -⟩ | ⟨-, -, hik, hkj, -⟩
      · exact he.symm
      · exfalso
        refine hij ⟨?_, ?_⟩
        · by_contra hi
          exact hik (hd.square.entry_eq_zero fun hlt => hi hlt.1)
        · by_contra hj
          exact hkj (hd.square.entry_eq_zero fun hlt => hj hlt.2)
  refine ⟨hs, fun i j => ?_, fun i => ?_, ?_⟩
  · rw [hdetour]
    exact detour_symm hd.symm k i j
  · rw [hdetour]
    rcases detour_cases (entry matrix) k i i with ⟨he, -⟩ | ⟨-, hne, -⟩
    · rw [he]
      exact hd.diag i
    · exact absurd rfl hne
  · rw [hdetour]
    exact hd.shortest.next h.nonneg

/-- **Shortest routes.** The loops leave the shortest distances through all cities. -/
theorem floydMatrix_distances {n : ℕ} {roads : List (List Int)} (h : Roads n roads)
    (hfit : RoadsFit n roads) : Distances n n roads (floydMatrix roads n) := by
  have hall : ∀ k, Distances n k roads
      ((List.range k).foldl (fun matrix k => PlaneSim.round matrix n k) roads) := by
    intro k
    induction k with
    | zero => exact ⟨h.square, h.symm, fun _ => rfl, shortest_zero h.nonneg⟩
    | succ k ih =>
      rw [List.range_succ, List.foldl_append]
      exact ih.round h hfit
  rw [floydMatrix_eq_round]
  exact hall n

/-- Outside the matrix there are no roads. -/
theorem roads_of_lt {n : ℕ} {matrix : List (List Int)} (hsquare : Square n matrix)
    (hsymm : ∀ i < n, ∀ j < n, entry matrix i j = entry matrix j i)
    (hnonneg : ∀ i < n, ∀ j < n, 0 ≤ entry matrix i j) : Roads n matrix := by
  refine ⟨⟨hsquare, fun i j => ?_⟩, fun i j => ?_⟩
  · by_cases hij : i < n ∧ j < n
    · exact hsymm i hij.1 j hij.2
    · rw [hsquare.entry_eq_zero hij, hsquare.entry_eq_zero fun h => hij ⟨h.2, h.1⟩]
  · by_cases hij : i < n ∧ j < n
    · exact hnonneg i hij.1 j hij.2
    · rw [hsquare.entry_eq_zero hij]

/-- On a symmetric matrix with a zero diagonal, where twice the sum of the weights fits, the loops
leave the least length of a path wherever there is one, and `0` elsewhere. -/
theorem floydMatrix_shortest {n : ℕ} {matrix : List (List Int)} (hsquare : Square n matrix)
    (hsymm : ∀ i < n, ∀ j < n, entry matrix i j = entry matrix j i)
    (hnonneg : ∀ i < n, ∀ j < n, 0 ≤ entry matrix i j) (hdiag : ∀ i < n, entry matrix i i = 0)
    (hfit : ∑ i ∈ Finset.range n, ∑ j ∈ Finset.range n, entry matrix i j ≤ INT_MAX) :
    (∀ i < n, ∀ j < n, i ≠ j →
      ((∃ l, Joined (entry matrix) i l j) →
          IsLeast {w | ∃ l, Joined (entry matrix) i l j ∧ length (entry matrix) i l j = w}
            (entry (floydMatrix matrix n) i j)) ∧
        ((¬∃ l, Joined (entry matrix) i l j) → entry (floydMatrix matrix n) i j = 0)) ∧
      (∀ i < n, entry (floydMatrix matrix n) i i = 0) ∧
      ∀ i < n, ∀ j < n, entry (floydMatrix matrix n) i j = entry (floydMatrix matrix n) j i := by
  have hroads := roads_of_lt hsquare hsymm hnonneg
  have hroadsFit : RoadsFit n matrix := by
    unfold RoadsFit
    rw [Finset.sum_eq_zero fun i hi => hdiag i (Finset.mem_range.mp hi), add_zero]
    exact hfit
  have h := floydMatrix_distances hroads hroadsFit
  refine ⟨fun i _ j _ hne => h.shortest.isLeast hroads.nonneg (fun _ _ => hroads.lt) hne,
    fun i hi => ?_, fun i _ j _ => h.symm i j⟩
  rw [h.diag]
  exact hdiag i hi

/-- Three cities: the way over the third is shorter than the direct one. -/
def triangle : List (List Int) := [[0, 4, 1], [4, 0, 2], [1, 2, 0]]

theorem floydMatrix_shortest_triangle :
    IsLeast {w | ∃ l, Joined (entry triangle) 0 l 1 ∧ length (entry triangle) 0 l 1 = w} 3 := by
  have hsquare : Square 3 triangle := ⟨rfl, by decide⟩
  have h := ((floydMatrix_shortest hsquare (by decide) (by decide) (by decide) (by decide)).1
    0 (by decide) 1 (by decide) (by decide)).1 ⟨[], show entry triangle 0 1 ≠ 0 by decide⟩
  rwa [show entry (floydMatrix triangle 3) 0 1 = 3 by decide +kernel] at h

end PlaneSim
