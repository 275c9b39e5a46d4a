import PlaneSim.Visit

/-!
# Scores past the largest `int`

`getCityScore` adds up to fifty minima in an `int`, and each may be as large as an `int` can be.

1. The units a plane could leave in a city (`deliverable`), as an integer. Of any smaller number of
   units there is a city with the same products (`exists_deliverable`).
2. The score says whether a city is useful, and ranks it above all cities that take fewer units,
   exactly when these units are no more than the largest `int` (`scoresRightly_iff`).
-/

namespace PlaneSim

open CInt

/-! ## Deliverable units -/

/-- Of each product, the smaller of the need and the amount aboard. -/
def deliverable (city stocks : List Stock) : Int :=
  (city.map fun c => min c.amount (amountOf c.product.id stocks)).sum

/-- A list of stocks as the parser lets it pass. -/
structure Acceptable (stocks : List Stock) : Prop where
  length_le : stocks.length ≤ MAX_STOCKS
  amount : ∀ s ∈ stocks, 0 ≤ s.amount ∧ s.amount ≤ INT_MAX
  distinct : Distinct stocks

theorem Acceptable.nonneg {stocks : List Stock} (h : Acceptable stocks) : Nonneg stocks :=
  fun s hs => (h.amount s hs).1

/-- Amounts that fell are acceptable too. -/
theorem Acceptable.drained {old new : List Stock} (h : Acceptable old) (hd : Drained old new) :
    Acceptable new where
  length_le := by
    rw [← hd.length_eq]
    exact h.length_le
  amount t ht := by
    obtain ⟨s, hs, -, hle⟩ := hd.exists_of_mem ht
    exact ⟨hd.nonneg t ht, hle.trans (h.amount s hs).2⟩
  distinct := h.distinct.of_products hd.products

theorem scoreSum_eq_deliverable {city stocks : List Stock} (hc : Nonneg city)
    (hd : Distinct stocks) : scoreSum city stocks = deliverable city stocks := by
  unfold scoreSum deliverable
  congr 1
  exact List.map_congr_left fun c hcm => scoreTerm_eq_min hd (hc c hcm)

/-- Some product has both a need in the city and an amount aboard. -/
def Useful (city stocks : List Stock) : Prop :=
  ∃ c ∈ city, ∃ p ∈ stocks, c.product.id = p.product.id ∧ 0 < c.amount ∧ 0 < p.amount

theorem useful_iff_pos {city stocks : List Stock} (hc : Nonneg city) (hs : Acceptable stocks) :
    Useful city stocks ↔ 0 < deliverable city stocks := by
  have hterm : ∀ c ∈ city, 0 ≤ min c.amount (amountOf c.product.id stocks) := fun c hcm =>
    le_min (hc c hcm) (amountOf_nonneg _ hs.nonneg)
  have hterms : ∀ x ∈ city.map fun c => min c.amount (amountOf c.product.id stocks), 0 ≤ x := by
    intro x hx
    obtain ⟨c, hcm, rfl⟩ := List.mem_map.mp hx
    exact hterm c hcm
  constructor
  · rintro ⟨c, hcm, p, hpm, hid, hcpos, hppos⟩
    have hle : min c.amount (amountOf c.product.id stocks) ≤ deliverable city stocks :=
      List.single_le_sum hterms _ (List.mem_map.mpr ⟨c, hcm, rfl⟩)
    rw [hid, hs.distinct.amountOf_eq hpm] at hle
    omega
  · intro hpos
    by_contra hno
    have hzero : deliverable city stocks = 0 := by
      refine List.sum_eq_zero fun x hx => ?_
      obtain ⟨c, hcm, rfl⟩ := List.mem_map.mp hx
      by_cases haboard : ∃ p ∈ stocks, p.product.id = c.product.id
      · obtain ⟨p, hpm, hid⟩ := haboard
        have h1 := hc c hcm
        have h2 := hs.nonneg p hpm
        have hnot : ¬(0 < c.amount ∧ 0 < p.amount) := fun h =>
          hno ⟨c, hcm, p, hpm, hid.symm, h⟩
        rw [← hid, hs.distinct.amountOf_eq hpm]
        omega
      · rw [amountOf_eq_zero fun p hpm hid => haboard ⟨p, hpm, hid⟩]
        exact min_eq_right (hc c hcm)
    omega

/-- Lowering the needs of a city takes it down to any number of units. -/
theorem exists_deliverable {stocks : List Stock} (hs : Nonneg stocks) :
    ∀ {city : List Stock}, Nonneg city → ∀ n, 0 ≤ n → n ≤ deliverable city stocks →
      ∃ other, Drained city other ∧ deliverable other stocks = n := by
  intro city
  induction city with
  | nil =>
    intro _ n h0 hle
    exact ⟨[], .nil, le_antisymm h0 hle⟩
  | cons c rest ih =>
    intro hc n h0 hle
    have hrest : Nonneg rest := fun x hx => hc x (List.mem_cons_of_mem _ hx)
    have hcpos : 0 ≤ c.amount := hc c (List.mem_cons_self ..)
    have haboard : 0 ≤ amountOf c.product.id stocks := amountOf_nonneg _ hs
    have hcons : ∀ (x : Stock) (l : List Stock), deliverable (x :: l) stocks =
        min x.amount (amountOf x.product.id stocks) + deliverable l stocks :=
      fun _ _ => rfl
    rw [hcons] at hle
    by_cases hfew : n ≤ deliverable rest stocks
    · -- the rest alone takes enough
      obtain ⟨other, hother, hn⟩ := ih hrest n h0 hfew
      refine ⟨{ c with amount := 0 } :: other, .cons ⟨rfl, le_rfl, hcpos⟩ hother, ?_⟩
      rw [hcons, hn]
      dsimp only
      omega
    · refine ⟨{ c with amount := n - deliverable rest stocks } :: rest,
        .cons ⟨rfl, by dsimp only; omega, by dsimp only; omega⟩ (Drained.refl hrest), ?_⟩
      rw [hcons]
      dsimp only
      omega

/-! ## The score -/

/-- The score of the city is positive if and only if the city is useful, and a city that takes
fewer units gets a smaller one. -/
def ScoresRightly (city stocks : List Stock) : Prop :=
  (0 < getCityScore city stocks ↔ Useful city stocks) ∧
    ∀ other, Acceptable other → deliverable other stocks < deliverable city stocks →
      getCityScore other stocks < getCityScore city stocks

theorem getCityScore_eq_deliverable {city stocks : List Stock} (hc : Nonneg city)
    (hs : Acceptable stocks) (hfits : deliverable city stocks ≤ INT_MAX) :
    getCityScore city stocks = deliverable city stocks := by
  rw [← scoreSum_eq_deliverable hc hs.distinct] at hfits ⊢
  exact getCityScore_eq hc hs.nonneg hfits

/-- **Where the score can be trusted.** -/
theorem scoresRightly_iff {city stocks : List Stock} (hc : Acceptable city)
    (hs : Acceptable stocks) :
    ScoresRightly city stocks ↔ deliverable city stocks ≤ INT_MAX := by
  constructor
  · rintro ⟨-, hranks⟩
    by_contra hlarge
    -- a city that takes as many units as an `int` can be scores no less
    obtain ⟨other, hother, hunits⟩ :=
      exists_deliverable hs.nonneg hc.nonneg INT_MAX (by decide) (by omega)
    have hscore := getCityScore_eq_deliverable hother.nonneg hs hunits.le
    have hless := hranks other (hc.drained hother) (by omega)
    have hmax := (fits_getCityScore city stocks).2
    omega
  · intro hfits
    have hscore := getCityScore_eq_deliverable hc.nonneg hs hfits
    refine ⟨by rw [hscore, useful_iff_pos hc.nonneg hs], fun other hother hless => ?_⟩
    rw [hscore, getCityScore_eq_deliverable hother.nonneg hs (by omega)]
    exact hless

theorem scoresRightly_iff_para :
    ScoresRightly [{ amount := 5, product := para }] [{ amount := 6, product := para }] ↔
      deliverable [{ amount := 5, product := para }] [{ amount := 6, product := para }] ≤ INT_MAX :=
  scoresRightly_iff ⟨by decide, by decide, by decide⟩ ⟨by decide, by decide, by decide⟩

/-- Three products whose amounts add up to `2 ^ 32`. -/
def bulk : List Stock :=
  [{ amount := 2147483647, product := aspi }, { amount := 2147483647, product := para },
    { amount := 2, product := { id := 2, name := ['I', 'b', 'u'] } }]

/-- A city that needs them all. -/
def bulkMap : Map where
  cities := [{ name := ['R', 'o', 's', 'a', 'r', 'i', 'o'], id := 0, stock := bulk }]
  product := bulk.map (·.product)
  matrix := [[0]]

/-- A plane that brings them all. -/
def bulkPlane : Plane where
  id := 0
  stocks := bulk
  cityId := 0
  distance := 0

/-- The score wraps to zero: the city is passed over, and the plane is sent nowhere. -/
theorem not_scoresRightly_bulk :
    Acceptable bulk ∧ Useful bulk bulk ∧ getCityScore bulk bulk = 0 ∧ ¬ScoresRightly bulk bulk ∧
      (appGiveDestinations Qsort.insertion bulkMap bulkPlane).map (·.count) = some 0 := by
  have huseful : Useful bulk bulk :=
    ⟨_, List.mem_cons_self .., _, List.mem_cons_self .., rfl, by decide, by decide⟩
  have hscore : getCityScore bulk bulk = 0 := by decide +kernel
  refine ⟨⟨by decide, by decide, by decide⟩, huseful, hscore, fun h => ?_, by decide +kernel⟩
  have hpos := h.1.mpr huseful
  omega

end PlaneSim
