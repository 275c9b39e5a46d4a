import PlaneSim.Exchange

/-!
# What a visit delivers

A city is scored for the smaller of its need and the plane's stock of each product both hold
(`getCityScore`). `asScored_iff`: the visit delivers exactly that, product by product, if and only
if no entry of the plane is discharged on another product's need and the score is an `int`.
-/

namespace PlaneSim

open CInt

/-! ## Amounts of single products -/

theorem amountOf_eq_zero {id : Int} {stocks : List Stock}
    (h : ∀ s ∈ stocks, s.product.id ≠ id) : amountOf id stocks = 0 := by
  apply List.sum_eq_zero
  intro x hx
  obtain ⟨s, hs, rfl⟩ := List.mem_map.mp hx
  exact if_neg (h s hs)

theorem Distinct.amountOf_eq {stocks : List Stock} (hd : Distinct stocks) {s : Stock}
    (hs : s ∈ stocks) : amountOf s.product.id stocks = s.amount := by
  induction stocks with
  | nil => cases hs
  | cons x rest ih =>
    obtain ⟨hx, hrest⟩ := List.nodup_cons.mp hd
    rw [amountOf_cons]
    rcases List.mem_cons.mp hs with rfl | hs
    · rw [if_pos rfl, amountOf_eq_zero, add_zero]
      exact fun y hy he => hx (List.mem_map.mpr ⟨y, hy, he⟩)
    · have hne : x.product.id ≠ s.product.id := fun he => hx (List.mem_map.mpr ⟨s, hs, he.symm⟩)
      rw [if_neg hne, zero_add]
      exact ih hrest hs

/-- A list whose products fell by `g` is known entry by entry. -/
theorem Drained.eq_map {old new : List Stock} (h : Drained old new) (hd : Distinct old)
    {g : Int → Int} (hg : ∀ id, amountOf id new = amountOf id old - g id) :
    new = old.map fun s => { s with amount := s.amount - g s.product.id } := by
  have hd' : Distinct new := hd.of_products h.products
  apply List.ext_getElem (by rw [List.length_map, h.length_eq])
  intro i hnew hold
  rw [List.length_map] at hold
  obtain ⟨hprod, -, -⟩ := List.forall₂_iff_get.mp h |>.2 i hold hnew
  simp only [List.get_eq_getElem] at hprod
  have h1 := hd'.amountOf_eq (List.getElem_mem hnew)
  have h2 := hd.amountOf_eq (List.getElem_mem hold)
  rw [hprod, hg, h2] at h1
  rw [List.getElem_map, h1, ← hprod]

/-! ## The visit without a mismatch -/

/-- Each product falls by the smaller amount, in the city and aboard. -/
theorem amountOf_unloads_min {city stocks city' stocks' : List Stock}
    (h : Unloads city stocks city' stocks') (hc : Nonneg city) (hs : Nonneg stocks)
    (hd : Distinct city) (hd' : Distinct stocks) (hm : NoMismatch city stocks) (id : Int) :
    amountOf id city' = amountOf id city - min (amountOf id city) (amountOf id stocks) ∧
      amountOf id stocks' = amountOf id stocks - min (amountOf id city) (amountOf id stocks) := by
  obtain ⟨hdc, hds⟩ := drained_unloads h hc hs
  have hfall := amountOf_unloads h hc hs hd hm id
  have h1 := amountOf_nonneg id hdc.nonneg
  have h2 := amountOf_nonneg id hds.nonneg
  have hzero : amountOf id city' = 0 ∨ amountOf id stocks' = 0 := by
    by_cases hcity : ∃ c ∈ city', c.product.id = id
    swap
    · exact .inl (amountOf_eq_zero fun c hcm he => hcity ⟨c, hcm, he⟩)
    by_cases hplane : ∃ p ∈ stocks', p.product.id = id
    swap
    · exact .inr (amountOf_eq_zero fun p hpm he => hplane ⟨p, hpm, he⟩)
    obtain ⟨c, hcm, rfl⟩ := hcity
    obtain ⟨p, hpm, hid⟩ := hplane
    rw [(hd.of_products hdc.products).amountOf_eq hcm, ← hid,
      (hd'.of_products hds.products).amountOf_eq hpm]
    exact no_shared_unloads h hc hs hd c hcm p hpm hid.symm
  omega

/-- The needs of a city after what both hold has been delivered. -/
def needsAfter (city stocks : List Stock) : List Stock :=
  city.map fun c => { c with amount := c.amount - min c.amount (amountOf c.product.id stocks) }

/-- What is then left aboard. -/
def cargoAfter (city stocks : List Stock) : List Stock :=
  stocks.map fun p => { p with amount := p.amount - min (amountOf p.product.id city) p.amount }

theorem unloads_eq {city stocks city' stocks' : List Stock}
    (h : Unloads city stocks city' stocks') (hc : Nonneg city) (hs : Nonneg stocks)
    (hd : Distinct city) (hd' : Distinct stocks) (hm : NoMismatch city stocks) :
    city' = needsAfter city stocks ∧ stocks' = cargoAfter city stocks := by
  obtain ⟨hdc, hds⟩ := drained_unloads h hc hs
  have hmin := amountOf_unloads_min h hc hs hd hd' hm
  constructor
  · rw [hdc.eq_map hd fun id => (hmin id).1]
    refine List.map_congr_left fun c hcm => ?_
    rw [hd.amountOf_eq hcm]
  · rw [hds.eq_map hd' fun id => (hmin id).2]
    refine List.map_congr_left fun p hpm => ?_
    rw [hd'.amountOf_eq hpm]

/-! ## The score -/

theorem scoreTerm_eq_min {stocks : List Stock} (hd : Distinct stocks) {c : Stock}
    (hc : 0 ≤ c.amount) :
    scoreTerm stocks c = min c.amount (amountOf c.product.id stocks) := by
  unfold scoreTerm
  split
  · rename_i p hf
    have hid : c.product.id = p.product.id := by simpa using List.find?_some hf
    rw [hid, hd.amountOf_eq (List.mem_of_find?_eq_some hf)]
    split <;> omega
  · rename_i hf
    rw [amountOf_eq_zero fun p hpm he => ?_]
    · omega
    · have := List.find?_eq_none.mp hf p hpm
      rw [he] at this
      simp at this

/-- The needs fall by the score, as an integer. -/
theorem total_needsAfter {city stocks : List Stock} (hc : Nonneg city) (hd : Distinct stocks) :
    total city - total (needsAfter city stocks) = scoreSum city stocks := by
  induction city with
  | nil => rfl
  | cons c rest ih =>
    have hrest := ih fun x hx => hc x (by simp [hx])
    have hterm := scoreTerm_eq_min hd (hc c (by simp))
    unfold needsAfter scoreSum at hrest ⊢
    rw [List.map_cons, List.map_cons, total_cons, total_cons, List.sum_cons, hterm]
    dsimp only
    omega

theorem fits_addInt (a b : Int) : Fits (addInt a b) := fits_toInt (a + b)

theorem fits_getCityScore (city stocks : List Stock) : Fits (getCityScore city stocks) := by
  unfold getCityScore
  suffices h : ∀ (l : List Stock) (score : Int), Fits score →
      Fits (l.foldl (fun score c => addInt score (scoreTerm stocks c)) score) from
    h city 0 (by decide)
  intro l
  induction l with
  | nil => exact fun _ h => h
  | cons c rest ih => exact fun _ _ => ih _ (fits_addInt _ _)

/-! ## Strangers that keep their amount -/

theorem getLast?_set_self {city : List Stock} {j : ℕ} {c x : Stock} (at_j : city[j]? = some c)
    (hj : j + 1 = city.length) : (city.set j x).getLast? = some x := by
  rw [List.getLast?_eq_getElem?, List.length_set, ← hj, Nat.add_sub_cancel,
    List.getElem?_set_self (List.getElem?_eq_some_iff.mp at_j).1]

/-- If every entry the city does not list keeps its amount, there is no mismatch. -/
theorem noMismatch_of_kept {city stocks city' stocks' : List Stock}
    (h : Unloads city stocks city' stocks') (hc : Nonneg city) (hs : Nonneg stocks)
    (hkept : ∀ (i : ℕ) (p : Stock), stocks[i]? = some p → (∀ c ∈ city, c.product.id ≠ p.product.id) →
      stocks'[i]? = some p) : NoMismatch city stocks := by
  induction h with
  | nil =>
    intro pre p post hsplit
    simp at hsplit
  | @cons city rest city' rest' p c j search at_j tail ih =>
    have hp : 0 ≤ p.amount := hs p (by simp)
    have hcj := nonneg_of_getElem? hc at_j
    have hstep := drained_discharge hc at_j hp
    have hmem : ∀ {id : Int}, (∀ x ∈ city, x.product.id ≠ id) →
        ∀ x ∈ city.set j (discharge c p).1, x.product.id ≠ id := by
      intro id hne x hx
      obtain ⟨y, hy, hxy, -⟩ := hstep.exists_of_mem hx
      rw [hxy]
      exact hne y hy
    have hmem' : ∀ {id : Int}, (∀ x ∈ city.set j (discharge c p).1, x.product.id ≠ id) →
        ∀ x ∈ city, x.product.id ≠ id := by
      intro id hne x hx
      have hids : x.product ∈ (city.set j (discharge c p).1).map (·.product) := by
        rw [hstep.products]
        exact List.mem_map.mpr ⟨x, hx, rfl⟩
      obtain ⟨y, hy, hxy⟩ := List.mem_map.mp hids
      rw [← hxy]
      exact hne y hy
    have hrest : NoMismatch (city.set j (discharge c p).1) rest :=
      ih hstep.nonneg (fun x hx => hs x (by simp [hx]))
        fun i q hq hne => hkept (i + 1) q hq (hmem' hne)
    -- a stranger at the head finds nothing left to discharge on
    have hhead : (∀ x ∈ city, x.product.id ≠ p.product.id) → p.amount = 0 ∨ c.amount = 0 := by
      intro hne
      have hkeep : (discharge c p).2 = p := by simpa using hkept 0 p (by simp) hne
      have hamount := congrArg Stock.amount hkeep
      unfold discharge at hamount
      split at hamount <;> dsimp only at hamount <;> omega
    intro pre q post hsplit hq hne last hlast
    cases pre with
    | nil =>
      obtain ⟨rfl, rfl⟩ : p = q ∧ rest = post := by simpa using hsplit
      rcases search_cases search at_j with hid | ⟨-, hlast', -⟩
      · exact absurd hid (hne c (List.mem_of_getElem? at_j))
      · obtain rfl : c = last := Option.some.inj (hlast'.symm.trans hlast)
        rw [amountOf_nil]
        rcases hhead hne with hz | hz <;> omega
    | cons x pre =>
      obtain ⟨rfl, htail⟩ : p = x ∧ rest = pre ++ q :: post := by simpa using hsplit
      have hpre : 0 ≤ amountOf last.product.id pre :=
        amountOf_nonneg _ fun y hy => hs y (by rw [htail]; simp [hy])
      have hbound := hrest pre q post htail hq (hmem hne)
      rw [amountOf_cons]
      by_cases hj : j + 1 = city.length
      · -- the first entry was discharged on the last need
        have hlast' : c = last := by
          rw [List.getLast?_eq_getElem?, ← hj, Nat.add_sub_cancel, at_j] at hlast
          exact Option.some.inj hlast
        subst hlast'
        have hb := hbound _ (getLast?_set_self at_j hj)
        rw [discharge_city_product] at hb
        rcases search_cases search at_j with hid | ⟨hstranger, -, -⟩
        · rw [if_pos hid.symm]
          unfold discharge at hb
          split at hb <;> dsimp only at hb <;> omega
        · rcases hhead hstranger with hz | hz
          · unfold discharge at hb
            rw [hz, if_pos hcj] at hb
            dsimp only at hb
            split <;> omega
          · split <;> omega
      · have hlt := (List.getElem?_eq_some_iff.mp at_j).1
        have hlast' : (city.set j (discharge c p).1).getLast? = some last := by
          rw [List.getLast?_eq_getElem?, List.length_set, List.getElem?_set_ne (by omega),
            ← List.getLast?_eq_getElem?]
          exact hlast
        have hb := hbound last hlast'
        split <;> omega

/-! ## The visit is what was scored -/

/-- The visit of `plane` to `city`, the map's number `c`, delivers what the city is scored for. -/
structure AsScored (map : Map) (plane : Plane) (c : ℕ) (city : City) (map' : Map)
    (plane' : Plane) : Prop where
  /-- What the city and the plane both hold falls by the smaller amount; nothing else changes. -/
  needs : map' = { map with
    cities := map.cities.set c { city with stock := needsAfter city.stock plane.stocks } }
  cargo : plane' = { plane with stocks := cargoAfter city.stock plane.stocks }
  unloaded : total plane.stocks - total plane'.stocks = getCityScore city.stock plane.stocks
  met : ∀ city', map'.cities[c]? = some city' →
    total city.stock - total city'.stock = getCityScore city.stock plane.stocks

/-- **Scoring and unloading agree** exactly when nothing is discharged on another product's need
and the score is an `int`. -/
theorem asScored_iff {map : Map} {plane : Plane} {c : ℕ} {city : City}
    (hcity : plane.cityId = c) (hget : map.cities[c]? = some city) (hlist : city.stock ≠ [])
    (hneeds : Nonneg city.stock) (hcargo : Nonneg plane.stocks) (hd : Distinct city.stock)
    (hd' : Distinct plane.stocks) :
    ∃ map' plane', updateMap map plane = some (map', plane') ∧
      (AsScored map plane c city map' plane' ↔
        NoMismatch city.stock plane.stocks ∧ ScoreFits city.stock plane.stocks) := by
  obtain ⟨needs, stocks, hun⟩ := exists_unloads plane.stocks hlist
  have hget' : getFromVector map.cities plane.cityId = some city := by
    rw [hcity, getFromVector_natCast, hget]
  have htoNat : plane.cityId.toNat = c := by rw [hcity]; rfl
  refine ⟨_, _, updateMap_eq plane hget' hun, ?_⟩
  rw [htoNat]
  have hlt := (List.getElem?_eq_some_iff.mp hget).1
  have hat : ∀ x : City, (map.cities.set c x)[c]? = some x := fun x => List.getElem?_set_self hlt
  have hbalance := total_unloads hun
  constructor
  · rintro ⟨hmap, hplane, -, hmet⟩
    have hcities := congrArg (fun m : Map => m.cities[c]?) hmap
    rw [hat, hat] at hcities
    have hneedsEq : needs = needsAfter city.stock plane.stocks :=
      congrArg City.stock (Option.some.inj hcities)
    have hcargoEq : stocks = cargoAfter city.stock plane.stocks := congrArg Plane.stocks hplane
    refine ⟨noMismatch_of_kept hun hneeds hcargo fun i p hp hne => ?_, ?_⟩
    · have hp0 := nonneg_of_getElem? hcargo hp
      rw [hcargoEq, cargoAfter, List.getElem?_map, hp, Option.map_some, amountOf_eq_zero hne,
        min_eq_left hp0, sub_zero]
    · have hfall := hmet _ (hat _)
      have hscore := total_needsAfter hneeds hd'
      rw [hneedsEq, hscore] at hfall
      unfold ScoreFits
      rw [hfall]
      exact (fits_getCityScore _ _).2
  · rintro ⟨hm, hfit⟩
    obtain ⟨hneedsEq, hcargoEq⟩ := unloads_eq hun hneeds hcargo hd hd' hm
    have hscore := total_needsAfter hneeds hd'
    rw [← hneedsEq, ← getCityScore_eq hneeds hcargo hfit] at hscore
    refine ⟨by rw [hneedsEq], by rw [hcargoEq], ?_, fun city' h => ?_⟩
    · dsimp only
      omega
    · rw [hat] at h
      cases h
      exact hscore

/-- The city in `paraCity`. -/
def needyRosario : City where
  name := ['R', 'o', 's', 'a', 'r', 'i', 'o']
  id := 0
  stock := [{ amount := 5, product := para }]

/-- A plane whose `para` meets the whole need before its `aspi` comes up. -/
def paraFirst : Plane where
  id := 2
  stocks := [{ amount := 6, product := para }, { amount := 7, product := aspi }]
  cityId := 0
  distance := 0

/-- The same plane, packed the other way round. -/
def aspiFirst : Plane where
  id := 2
  stocks := [{ amount := 7, product := aspi }, { amount := 6, product := para }]
  cityId := 0
  distance := 0

theorem asScored_iff_paraFirst :
    ∃ map' plane', updateMap paraCity paraFirst = some (map', plane') ∧
      (AsScored paraCity paraFirst 0 needyRosario map' plane' ↔
        NoMismatch needyRosario.stock paraFirst.stocks ∧ ScoreFits needyRosario.stock paraFirst.stocks) :=
  asScored_iff rfl rfl (by decide) (by unfold Nonneg; decide) (by unfold Nonneg; decide)
    (by decide) (by decide)

/-- `aspi` meets the need for `para`, and the plane keeps all its `para`. -/
theorem not_asScored_aspiFirst :
    ∃ map' plane', updateMap paraCity aspiFirst = some (map', plane') ∧
      paraCity.cities[0]? = some needyRosario ∧ aspiFirst.cityId = 0 ∧ needyRosario.stock ≠ [] ∧
      Nonneg needyRosario.stock ∧ Nonneg aspiFirst.stocks ∧ Distinct needyRosario.stock ∧
      Distinct aspiFirst.stocks ∧ ScoreFits needyRosario.stock aspiFirst.stocks ∧
      ¬AsScored paraCity aspiFirst 0 needyRosario map' plane' := by
  refine ⟨_, _, rfl, rfl, rfl, by decide, by unfold Nonneg; decide, by unfold Nonneg; decide,
    by decide, by decide, by unfold ScoreFits; decide, fun h => ?_⟩
  have hcargo := congrArg (fun plane : Plane => plane.stocks.map (·.amount)) h.cargo
  revert hcargo
  decide

end PlaneSim
