import PlaneSim.Marshall
import Mathlib.Algebra.BigOperators.Group.List.Basic
import Mathlib.Algebra.Order.BigOperators.Group.List

/-!
# Unloading a plane in a city

`initPlane` rebuilds the plane from its message; `updateMap` runs over the plane's stock and, for
each entry, searches the city's list. When the search finds nothing `city_stock` is the last entry
the loop looked at, so the plane's entry is discharged there whatever its product is.

`Unloads` is the run of the two loops as a relation. Its results, each by induction on the run:

* `Drained`: products stay and amounts only fall, never below zero;
* `total_unloads`: what the city is short of falls by what the plane loses;
* `amountOf_unloads`: product by product as well, when no entry is discharged on a stranger
  (`NoMismatch`);
* `no_shared_unloads`: afterwards no product is both wanted there and aboard;
* `total_lt_of_shared`: if one was before, the total has fallen.
-/

namespace PlaneSim

/-! ## Rebuilding the plane -/

/-- The loop of `initPlane` over the `n` entries from `j` on. -/
def initStocks (part : StockMessagePart) (product : List Product) (j : ℕ) :
    ℕ → Option (List Stock × List Product)
  | 0 => some ([], product)
  | n + 1 => do
    let id ← loadArray part.stockId j
    let name ← getProductName id product
    -- `strcpy` into `name[CITY_NAME_MAX_LENGTH]`
    guard (name.length < CITY_NAME_MAX_LENGTH)
    let quant ← loadArray part.quantities j
    let (stock, product) ← initStock name quant product
    let (stocks, product) ← initStocks part product (j + 1) n
    pure (stock :: stocks, product)

/-- `initPlane`; it leaves the distance alone, and the map never reads it. -/
def initPlane (stocks : StockMessagePart) (header : PlaneMessageHeader) (map : Map) :
    Option (Plane × Map) := do
  let (list, product) ← initStocks stocks map.product 0 stocks.count
  pure ({ id := header.id, stocks := list, cityId := header.cityId, distance := 0 },
        { map with product := product })

/-- `initPlane` prints one of its error lines. -/
def initPlaneError (plane : Plane) (map : Map) : Bool :=
  plane.id < 0 || plane.id > 10 || plane.cityId < 0 || plane.cityId > map.cities.length ||
    plane.stocks.any fun stock => stock.amount < 0 || stock.product.id < 0

/-- A stock list a message can carry: it fits, and its products are in the table under names that
fit their buffers. -/
structure Packable (product : List Product) (stocks : List Stock) : Prop where
  length_le : stocks.length ≤ MAX_STOCKS
  mem : ∀ stock ∈ stocks, stock.product ∈ product
  name_lt : ∀ stock ∈ stocks, stock.product.name.length < CITY_NAME_MAX_LENGTH

/-- The part a list is packed into. -/
def packed (stocks : List Stock) : StockMessagePart where
  count := stocks.length
  stockId := (stocks.map (·.product.id)).map some ++ List.replicate (MAX_STOCKS - stocks.length) none
  quantities := (stocks.map (·.amount)).map some ++ List.replicate (MAX_STOCKS - stocks.length) none

theorem marshallStocks_eq {stocks : List Stock} (h : stocks.length ≤ MAX_STOCKS) :
    marshallStocks stocks = some (packed stocks) := by
  unfold marshallStocks
  rw [storeArray_of_le (by simpa using h), storeArray_of_le (by simpa using h)]
  simp [packed]

theorem initStocks_packed {product : List Product} (hw : WellFormed product) {stocks : List Stock}
    (hp : Packable product stocks) :
    ∀ (rest pre : List Stock), stocks = pre ++ rest →
      initStocks (packed stocks) product pre.length rest.length = some (rest, product) := by
  intro rest
  induction rest with
  | nil => intro pre _; rfl
  | cons stock rest ih =>
    intro pre hsplit
    have hmem : stock ∈ stocks := by rw [hsplit]; simp
    have hid : loadArray (packed stocks).stockId pre.length = some stock.product.id := by
      have := loadArray_store (pre.map (·.product.id)) (rest.map (·.product.id))
        stock.product.id (List.replicate (MAX_STOCKS - stocks.length) none)
      simpa [packed, hsplit] using this
    have hquant : loadArray (packed stocks).quantities pre.length = some stock.amount := by
      have := loadArray_store (pre.map (·.amount)) (rest.map (·.amount))
        stock.amount (List.replicate (MAX_STOCKS - stocks.length) none)
      simpa [packed, hsplit] using this
    have hname : getProductName stock.product.id product = some stock.product.name := by
      obtain ⟨i, hi, hget⟩ := hw.getElem_of_mem (hp.mem stock hmem)
      rw [getProductName, hi, getFromVector_natCast, hget]
      rfl
    have hrest := ih (pre ++ [stock]) (by rw [hsplit]; simp)
    rw [List.length_append, List.length_singleton] at hrest
    rw [List.length_cons, initStocks]
    simp [hid, hname, hquant, hp.name_lt stock hmem, initStock_of_mem hw (hp.mem stock hmem), hrest]

/-- **Round trip.** The map rebuilds exactly the stock the plane packed. -/
theorem initPlane_packed {map : Map} (hw : WellFormed map.product) {stocks : List Stock}
    (hp : Packable map.product stocks) (header : PlaneMessageHeader) :
    initPlane (packed stocks) header map =
      some ({ id := header.id, stocks := stocks, cityId := header.cityId, distance := 0 }, map) := by
  unfold initPlane
  have h := initStocks_packed hw hp stocks [] rfl
  rw [List.length_nil] at h
  rw [show (packed stocks).count = stocks.length from rfl, h]
  rfl

/-! ## The two loops of updateMap -/

/-- The index `city_stock` points at after the inner loop: `j` is the next index, `cityStock` the
last one assigned. -/
def searchCityStock (id : Int) : List Stock → ℕ → Option ℕ → Option ℕ
  | [], _, cityStock => cityStock
  | stock :: rest, j, _ =>
    if id = stock.product.id then some j else searchCityStock id rest (j + 1) (some j)

/-- What one plane entry does to the city entry it is discharged on. -/
def discharge (cityStock planeStock : Stock) : Stock × Stock :=
  if cityStock.amount ≥ planeStock.amount then
    ({ cityStock with amount := cityStock.amount - planeStock.amount },
     { planeStock with amount := 0 })
  else
    ({ cityStock with amount := 0 },
     { planeStock with amount := planeStock.amount - cityStock.amount })

/-- The outer loop: the city's list and the plane's list afterwards. -/
def unloadStocks (city : List Stock) : List Stock → Option (List Stock × List Stock)
  | [] => some (city, [])
  | planeStock :: rest => do
    let j ← searchCityStock planeStock.product.id city 0 none
    let cityStock ← city[j]?
    let (cityStock', planeStock') := discharge cityStock planeStock
    let (city', rest') ← unloadStocks (city.set j cityStock') rest
    pure (city', planeStock' :: rest')

/-- `updateMap`; undefined when the plane is in no city, or carries something to a city that lists
nothing. -/
def updateMap (map : Map) (plane : Plane) : Option (Map × Plane) := do
  let city ← getFromVector map.cities plane.cityId
  let (cityStocks, planeStocks) ← unloadStocks city.stock plane.stocks
  pure ({ map with cities := map.cities.set plane.cityId.toNat { city with stock := cityStocks } },
        { plane with stocks := planeStocks })

/-- A run of the loops. -/
inductive Unloads : List Stock → List Stock → List Stock → List Stock → Prop where
  | nil (city : List Stock) : Unloads city [] city []
  | cons {city rest city' rest' : List Stock} {planeStock cityStock : Stock} {j : ℕ}
      (search : searchCityStock planeStock.product.id city 0 none = some j)
      (at_j : city[j]? = some cityStock)
      (tail : Unloads (city.set j (discharge cityStock planeStock).1) rest city' rest') :
      Unloads city (planeStock :: rest) city' ((discharge cityStock planeStock).2 :: rest')

theorem unloadStocks_iff {city stocks city' stocks' : List Stock} :
    unloadStocks city stocks = some (city', stocks') ↔ Unloads city stocks city' stocks' := by
  constructor
  · intro h
    induction stocks generalizing city stocks' with
    | nil => cases h; exact .nil _
    | cons planeStock rest ih =>
      simp only [unloadStocks, Option.bind_eq_bind, Option.bind_eq_some_iff] at h
      obtain ⟨j, hj, cityStock, hc, ⟨city1, rest1⟩, hrest, h⟩ := h
      cases h
      exact .cons hj hc (ih hrest)
  · intro h
    induction h with
    | nil => rfl
    | cons search at_j tail ih => simp [unloadStocks, search, at_j, ih]

theorem Unloads.length_eq {city stocks city' stocks' : List Stock}
    (h : Unloads city stocks city' stocks') : stocks'.length = stocks.length := by
  induction h with
  | nil => rfl
  | cons _ _ _ ih => rw [List.length_cons, List.length_cons, ih]

/-! ## The inner search -/

/-- The search stops at the first entry with the product, or else at the last entry. -/
theorem searchCityStock_spec (id : Int) :
    ∀ (city : List Stock) (j0 : ℕ) (cur : Option ℕ), city ≠ [] →
      ∃ i stock, searchCityStock id city j0 cur = some (j0 + i) ∧ city[i]? = some stock ∧
        (stock.product.id = id ∨
          ((∀ s ∈ city, s.product.id ≠ id) ∧ city.getLast? = some stock ∧ i + 1 = city.length)) := by
  intro city
  induction city with
  | nil => intro _ _ h; exact absurd rfl h
  | cons s rest ih =>
    intro j0 cur _
    unfold searchCityStock
    by_cases hs : id = s.product.id
    · rw [if_pos hs]
      exact ⟨0, s, rfl, rfl, .inl hs.symm⟩
    · rw [if_neg hs]
      cases rest with
      | nil =>
        exact ⟨0, s, rfl, rfl, .inr ⟨by simpa using fun h => hs h.symm, rfl, rfl⟩⟩
      | cons t rest =>
        obtain ⟨i, stock, hi, hget, hcase⟩ := ih (j0 + 1) (some j0) (by simp)
        refine ⟨i + 1, stock, by rw [hi]; congr 1; omega, hget, ?_⟩
        rcases hcase with hid | ⟨hne, hlast, hlen⟩
        · exact .inl hid
        · refine .inr ⟨fun x hx => ?_, by rw [List.getLast?_cons_cons]; exact hlast, by simpa using hlen⟩
          rcases List.mem_cons.mp hx with rfl | hx
          · exact fun h => hs h.symm
          · exact hne x hx

/-- In a city that lists something the search always finds an entry. -/
theorem exists_search {city : List Stock} (h : city ≠ []) (id : Int) :
    ∃ j stock, searchCityStock id city 0 none = some j ∧ city[j]? = some stock := by
  obtain ⟨i, stock, hi, hget, -⟩ := searchCityStock_spec id city 0 none h
  exact ⟨i, stock, by simpa using hi, hget⟩

theorem search_cases {city : List Stock} {id : Int} {j : ℕ} {stock : Stock}
    (search : searchCityStock id city 0 none = some j) (at_j : city[j]? = some stock) :
    stock.product.id = id ∨
      ((∀ s ∈ city, s.product.id ≠ id) ∧ city.getLast? = some stock ∧ j + 1 = city.length) := by
  have hne : city ≠ [] := by rintro rfl; simp at at_j
  obtain ⟨i, s, hi, hget, hcase⟩ := searchCityStock_spec id city 0 none hne
  obtain rfl : i = j := by simpa [search] using hi.symm
  obtain rfl : s = stock := Option.some.inj (hget.symm.trans at_j)
  exact hcase

/-- Whatever the plane carries, unloading in a city that lists something is defined. -/
theorem exists_unloads (stocks : List Stock) :
    ∀ {city : List Stock}, city ≠ [] → ∃ city' stocks', Unloads city stocks city' stocks' := by
  induction stocks with
  | nil => exact fun _ => ⟨_, _, .nil _⟩
  | cons planeStock rest ih =>
    intro city hne
    obtain ⟨j, cityStock, hj, hget⟩ := exists_search hne planeStock.product.id
    obtain ⟨city', rest', htail⟩ :=
      @ih (city.set j (discharge cityStock planeStock).1) (by simpa using hne)
    exact ⟨_, _, .cons hj hget htail⟩

/-- In a city that lists nothing only an empty plane unloads. -/
theorem exists_unloads_iff {city stocks : List Stock} :
    (∃ city' stocks', Unloads city stocks city' stocks') ↔ city ≠ [] ∨ stocks = [] := by
  constructor
  · rintro ⟨city', stocks', h⟩
    cases h with
    | nil => exact .inr rfl
    | cons search at_j tail =>
      left
      rintro rfl
      cases search
  · rintro (hne | rfl)
    · exact exists_unloads stocks hne
    · exact ⟨_, _, .nil _⟩

/-! ## One discharge -/

@[simp] theorem discharge_city_product (c p : Stock) : (discharge c p).1.product = c.product := by
  unfold discharge; split <;> rfl

@[simp] theorem discharge_plane_product (c p : Stock) : (discharge c p).2.product = p.product := by
  unfold discharge; split <;> rfl

/-- Both sides lose the same amount. -/
theorem discharge_balance (c p : Stock) :
    c.amount - (discharge c p).1.amount = p.amount - (discharge c p).2.amount := by
  unfold discharge; split <;> simp

theorem discharge_nonneg {c p : Stock} (_ : 0 ≤ c.amount) (_ : 0 ≤ p.amount) :
    0 ≤ (discharge c p).1.amount ∧ 0 ≤ (discharge c p).2.amount := by
  unfold discharge; split <;> constructor <;> dsimp only <;> omega

theorem discharge_le {c p : Stock} (_ : 0 ≤ c.amount) (_ : 0 ≤ p.amount) :
    (discharge c p).1.amount ≤ c.amount ∧ (discharge c p).2.amount ≤ p.amount := by
  unfold discharge; split <;> constructor <;> dsimp only <;> omega

/-- One of the two is used up. -/
theorem discharge_exhausts (c p : Stock) :
    (discharge c p).1.amount = 0 ∨ (discharge c p).2.amount = 0 := by
  unfold discharge; split
  · exact .inr rfl
  · exact .inl rfl

/-- Writing back the entry that is there changes nothing. -/
theorem set_getElem?_self {city : List Stock} {j : ℕ} {s : Stock} (hget : city[j]? = some s) :
    city.set j s = city := by
  obtain ⟨hj, rfl⟩ := List.getElem?_eq_some_iff.mp hget
  exact List.set_getElem_self hj

/-! ## Amounts only fall -/

/-- The same entries, with amounts that fell but not below zero. -/
def Drained (old new : List Stock) : Prop :=
  List.Forall₂ (fun s t => t.product = s.product ∧ 0 ≤ t.amount ∧ t.amount ≤ s.amount) old new

def Nonneg (stocks : List Stock) : Prop := ∀ s ∈ stocks, 0 ≤ s.amount

theorem Drained.refl {stocks : List Stock} (h : Nonneg stocks) : Drained stocks stocks :=
  List.forall₂_same.mpr fun s hs => ⟨rfl, h s hs, le_rfl⟩

theorem Drained.trans {a b c : List Stock} (hab : Drained a b) (hbc : Drained b c) :
    Drained a c := by
  induction hab generalizing c with
  | nil => exact hbc
  | cons hs _ ih =>
    cases hbc with
    | cons ht htail => exact .cons ⟨ht.1.trans hs.1, ht.2.1, ht.2.2.trans hs.2.2⟩ (ih htail)

theorem Drained.length_eq {a b : List Stock} (h : Drained a b) : a.length = b.length :=
  List.Forall₂.length_eq h

theorem Drained.ne_nil {a b : List Stock} (h : Drained a b) (ha : a ≠ []) : b ≠ [] := by
  intro hb
  exact ha (List.length_eq_zero_iff.mp (by rw [h.length_eq, hb]; rfl))

theorem Drained.nonneg {a b : List Stock} (h : Drained a b) : Nonneg b := by
  induction h with
  | nil => intro s hs; simp at hs
  | cons hs _ ih =>
    intro t ht
    rcases List.mem_cons.mp ht with rfl | ht
    · exact hs.2.1
    · exact ih t ht

theorem Drained.products {a b : List Stock} (h : Drained a b) :
    b.map (·.product) = a.map (·.product) := by
  induction h with
  | nil => rfl
  | cons hs _ ih => rw [List.map_cons, List.map_cons, hs.1, ih]

/-- Every entry left was there before, with at least that amount. -/
theorem Drained.exists_of_mem {a b : List Stock} (h : Drained a b) {t : Stock} (ht : t ∈ b) :
    ∃ s ∈ a, t.product = s.product ∧ t.amount ≤ s.amount := by
  induction h with
  | nil => simp at ht
  | @cons s0 _ _ _ hs _ ih =>
    rcases List.mem_cons.mp ht with rfl | ht
    · exact ⟨s0, by simp, hs.1, hs.2.2⟩
    · obtain ⟨s, hsm, hs'⟩ := ih ht
      exact ⟨s, by simp [hsm], hs'⟩

theorem drained_set {city : List Stock} (hn : Nonneg city) {j : ℕ} {s t : Stock}
    (hget : city[j]? = some s) (ht : t.product = s.product ∧ 0 ≤ t.amount ∧ t.amount ≤ s.amount) :
    Drained city (city.set j t) := by
  induction city generalizing j with
  | nil => simp at hget
  | cons x rest ih =>
    have hrest : Nonneg rest := fun y hy => hn y (by simp [hy])
    cases j with
    | zero =>
      obtain rfl : x = s := by simpa using hget
      exact .cons ht (Drained.refl hrest)
    | succ j => exact .cons ⟨rfl, hn x (by simp), le_rfl⟩ (ih hrest (by simpa using hget))

theorem nonneg_of_getElem? {city : List Stock} (hn : Nonneg city) {j : ℕ} {s : Stock}
    (hget : city[j]? = some s) : 0 ≤ s.amount :=
  hn s (List.mem_of_getElem? hget)

/-- The city after one entry of the plane. -/
theorem drained_discharge {city : List Stock} (hn : Nonneg city) {j : ℕ} {c p : Stock}
    (hget : city[j]? = some c) (hp : 0 ≤ p.amount) : Drained city (city.set j (discharge c p).1) :=
  have hc := nonneg_of_getElem? hn hget
  drained_set hn hget
    ⟨discharge_city_product c p, (discharge_nonneg hc hp).1, (discharge_le hc hp).1⟩

theorem drained_unloads {city stocks city' stocks' : List Stock}
    (h : Unloads city stocks city' stocks') (hc : Nonneg city) (hs : Nonneg stocks) :
    Drained city city' ∧ Drained stocks stocks' := by
  induction h with
  | nil => exact ⟨Drained.refl hc, .nil⟩
  | @cons city rest city' rest' planeStock cityStock j search at_j tail ih =>
    have hp : 0 ≤ planeStock.amount := hs planeStock (by simp)
    have hcs := nonneg_of_getElem? hc at_j
    have hstep := drained_discharge hc at_j hp
    obtain ⟨hcity, hrest⟩ := ih hstep.nonneg (fun s hs' => hs s (by simp [hs']))
    exact ⟨hstep.trans hcity, .cons
      ⟨discharge_plane_product _ _, (discharge_nonneg hcs hp).2, (discharge_le hcs hp).2⟩ hrest⟩

/-! ## Totals -/

/-- The amounts of a list, added up. -/
def total (stocks : List Stock) : Int := (stocks.map (·.amount)).sum

@[simp] theorem total_nil : total [] = 0 := rfl

@[simp] theorem total_cons (s : Stock) (l : List Stock) : total (s :: l) = s.amount + total l := by
  simp [total]

theorem total_set {city : List Stock} {j : ℕ} {s : Stock} (hget : city[j]? = some s) (t : Stock) :
    total (city.set j t) = total city - s.amount + t.amount := by
  induction city generalizing j with
  | nil => simp at hget
  | cons x rest ih =>
    cases j with
    | zero =>
      obtain rfl : x = s := by simpa using hget
      rw [List.set_cons_zero, total_cons, total_cons]; omega
    | succ j =>
      rw [List.set_cons_succ, total_cons, total_cons, ih (by simpa using hget)]; omega

theorem total_nonneg {stocks : List Stock} (h : Nonneg stocks) : 0 ≤ total stocks := by
  induction stocks with
  | nil => simp
  | cons s l ih =>
    have h1 := h s (by simp)
    have h2 := ih fun x hx => h x (by simp [hx])
    rw [total_cons]; omega

theorem Drained.total_le {a b : List Stock} (h : Drained a b) : total b ≤ total a := by
  induction h with
  | nil => simp
  | cons hs _ ih => rw [total_cons, total_cons]; have := hs.2.2; omega

/-- Nothing moved when the total did not fall. -/
theorem Drained.eq_of_total {a b : List Stock} (h : Drained a b) (ht : total a ≤ total b) :
    b = a := by
  induction h with
  | nil => rfl
  | @cons s t _ _ hs htail ih =>
    have h1 := hs.2.2
    have h2 := Drained.total_le htail
    rw [total_cons, total_cons] at ht
    rw [ih (by omega)]
    obtain ⟨sa, sp⟩ := s
    obtain ⟨ta, tp⟩ := t
    dsimp only at h1 ht hs
    obtain ⟨rfl, -⟩ := hs
    obtain rfl : ta = sa := by omega
    rfl

/-- The needs fall by what the plane loses. -/
theorem total_unloads {city stocks city' stocks' : List Stock}
    (h : Unloads city stocks city' stocks') :
    total city - total city' = total stocks - total stocks' := by
  induction h with
  | nil => omega
  | @cons city rest city' rest' planeStock cityStock j search at_j tail ih =>
    have hset := total_set at_j (discharge cityStock planeStock).1
    have hbal := discharge_balance cityStock planeStock
    rw [total_cons, total_cons]
    omega

/-! ## Product by product -/

/-- The amount of product `id` in a list. -/
def amountOf (id : Int) (stocks : List Stock) : Int :=
  (stocks.map fun s => if s.product.id = id then s.amount else 0).sum

@[simp] theorem amountOf_nil (id : Int) : amountOf id [] = 0 := rfl

@[simp] theorem amountOf_cons (id : Int) (s : Stock) (l : List Stock) :
    amountOf id (s :: l) = (if s.product.id = id then s.amount else 0) + amountOf id l := by
  simp [amountOf]

theorem amountOf_nonneg (id : Int) {stocks : List Stock} (h : Nonneg stocks) :
    0 ≤ amountOf id stocks := by
  induction stocks with
  | nil => simp
  | cons s l ih =>
    have h1 := h s (by simp)
    have h2 := ih fun x hx => h x (by simp [hx])
    rw [amountOf_cons]; split <;> omega

theorem amountOf_set (id : Int) {city : List Stock} {j : ℕ} {s t : Stock}
    (hget : city[j]? = some s) (ht : t.product = s.product) :
    amountOf id (city.set j t) =
      amountOf id city - if s.product.id = id then s.amount - t.amount else 0 := by
  induction city generalizing j with
  | nil => simp at hget
  | cons x rest ih =>
    cases j with
    | zero =>
      obtain rfl : x = s := by simpa using hget
      rw [List.set_cons_zero, amountOf_cons, amountOf_cons, ht]; split <;> omega
    | succ j =>
      rw [List.set_cons_succ, amountOf_cons, amountOf_cons, ih (by simpa using hget)]; omega

/-- No product is listed twice. -/
def Distinct (stocks : List Stock) : Prop := (stocks.map (·.product.id)).Nodup

instance (stocks : List Stock) : Decidable (Distinct stocks) := by
  unfold Distinct; infer_instance

theorem Distinct.of_products {a b : List Stock} (ha : Distinct a)
    (h : b.map (·.product) = a.map (·.product)) : Distinct b := by
  have hids : b.map (·.product.id) = a.map (·.product.id) := by
    have := congrArg (List.map Product.id) h
    simpa [List.map_map, Function.comp_def] using this
  unfold Distinct
  rw [hids]
  exact ha

theorem Distinct.eq_of_id {stocks : List Stock} (h : Distinct stocks) {s t : Stock}
    (hs : s ∈ stocks) (ht : t ∈ stocks) (hid : s.product.id = t.product.id) : s = t :=
  List.inj_on_of_nodup_map h hs ht hid

/-- No entry of the plane is discharged on another product's need. An entry of positive amount
whose product the city does not list is discharged on the city's last entry, so what the plane
holds of that last product before it must already have used up that need. -/
def NoMismatch (city stocks : List Stock) : Prop :=
  ∀ pre p post, stocks = pre ++ p :: post → 0 < p.amount →
    (∀ c ∈ city, c.product.id ≠ p.product.id) →
      ∀ last, city.getLast? = some last → last.amount ≤ amountOf last.product.id pre

/-- The city after the first entry: either the entry met its own product, or nothing moved. -/
theorem NoMismatch.head {city rest : List Stock} {p c : Stock} {j : ℕ}
    (h : NoMismatch city (p :: rest)) (hc : Nonneg city) (hp : 0 ≤ p.amount)
    (search : searchCityStock p.product.id city 0 none = some j) (at_j : city[j]? = some c) :
    c.product.id = p.product.id ∨
      (∀ s ∈ city, s.product.id ≠ p.product.id) ∧ discharge c p = (c, p) := by
  rcases search_cases search at_j with hid | ⟨hne, hlast, -⟩
  · exact .inl hid
  · refine .inr ⟨hne, ?_⟩
    have h0 : 0 ≤ c.amount := nonneg_of_getElem? hc at_j
    have hz : p.amount = 0 ∨ c.amount = 0 := by
      rcases hp.lt_or_eq with hpos | hz
      · have := h [] p rest rfl hpos hne c hlast
        rw [amountOf_nil] at this
        exact .inr (by omega)
      · exact .inl hz.symm
    obtain ⟨pa, pp⟩ := p
    obtain ⟨ca, cp⟩ := c
    dsimp only at hp h0 hz
    unfold discharge
    rcases hz with rfl | rfl
    · rw [if_pos (show ca ≥ 0 from h0)]; simp
    · by_cases hpz : pa = 0
      · simp [hpz]
      · rw [if_neg (show ¬ (0 : Int) ≥ pa by omega)]; simp

theorem NoMismatch.tail {city rest : List Stock} {p c : Stock} {j : ℕ}
    (h : NoMismatch city (p :: rest)) (hc : Nonneg city) (hs : Nonneg (p :: rest))
    (hd : Distinct city) (search : searchCityStock p.product.id city 0 none = some j)
    (at_j : city[j]? = some c) : NoMismatch (city.set j (discharge c p).1) rest := by
  have hp : 0 ≤ p.amount := hs p (by simp)
  intro pre q post hrest hq hne last hlast
  have hpre : 0 ≤ amountOf last.product.id pre :=
    amountOf_nonneg _ fun x hx => hs x (by rw [hrest]; simp [hx])
  rcases h.head hc hp search at_j with hid | ⟨hstranger, hcity⟩
  · -- the last entry of the city before this discharge
    obtain ⟨old, hold⟩ : ∃ old, city.getLast? = some old := by
      cases hl : city.getLast? with
      | some old => exact ⟨old, rfl⟩
      | none => rw [List.getLast?_eq_none_iff.mp hl] at at_j; simp at at_j
    have hq' : ∀ x ∈ city, x.product.id ≠ q.product.id := by
      have hprod := (drained_discharge hc at_j hp).products
      intro x hx he
      obtain ⟨y, hy, hxy⟩ : ∃ y ∈ city.set j (discharge c p).1, y.product = x.product := by
        have : x.product ∈ city.map (·.product) := List.mem_map.mpr ⟨x, hx, rfl⟩
        rw [← hprod] at this
        exact List.mem_map.mp this
      exact hne y hy (by rw [hxy]; exact he)
    have hbound := h (p :: pre) q post (by rw [hrest]; rfl) hq hq' old hold
    rw [amountOf_cons] at hbound
    rw [List.getLast?_eq_getElem?] at hold hlast
    rw [List.length_set] at hlast
    by_cases hj : j = city.length - 1
    · -- the entry discharged is the last one
      subst hj
      obtain rfl : old = c := Option.some.inj (hold.symm.trans at_j)
      obtain rfl : (discharge old p).1 = last := by
        rw [List.getElem?_set_self (by
          have := (List.getElem?_eq_some_iff.mp at_j).1; exact this)] at hlast
        exact Option.some.inj hlast
      rw [discharge_city_product] at hpre ⊢
      rw [if_pos hid.symm] at hbound
      unfold discharge
      split <;> dsimp only <;> omega
    · rw [List.getElem?_set_ne (by omega)] at hlast
      obtain rfl : old = last := Option.some.inj (hold.symm.trans hlast)
      have hne' : p.product.id ≠ old.product.id := by
        intro he
        have hmem_c := List.mem_of_getElem? at_j
        have hmem_o := List.mem_of_getElem? hold
        have heq : c = old := hd.eq_of_id hmem_c hmem_o (hid.trans he)
        have h1 := List.getElem?_eq_some_iff.mp at_j
        have h2 := List.getElem?_eq_some_iff.mp hold
        have hnd : city.Nodup := List.Nodup.of_map _ hd
        exact hj (List.Nodup.getElem_inj_iff hnd |>.mp (h1.2.trans (heq.trans h2.2.symm)))
      rw [if_neg hne'] at hbound
      omega
  · have hset : city.set j (discharge c p).1 = city := by
      rw [hcity]; exact set_getElem?_self at_j
    rw [hset] at hne hlast
    have hbound := h (p :: pre) q post (by rw [hrest]; rfl) hq hne last hlast
    rw [amountOf_cons, if_neg (hstranger last (List.mem_of_getLast? hlast)).symm] at hbound
    omega

/-- **Conservation in one visit.** With no mismatch, the need for each product falls by what the
plane loses of it. -/
theorem amountOf_unloads {city stocks city' stocks' : List Stock}
    (h : Unloads city stocks city' stocks') (hc : Nonneg city) (hs : Nonneg stocks)
    (hd : Distinct city) (hm : NoMismatch city stocks) (id : Int) :
    amountOf id city - amountOf id city' = amountOf id stocks - amountOf id stocks' := by
  induction h with
  | nil => omega
  | @cons city rest city' rest' p c j search at_j tail ih =>
    have hp : 0 ≤ p.amount := hs p (by simp)
    have hstep := drained_discharge hc at_j hp
    have htail := ih hstep.nonneg (fun s hs' => hs s (by simp [hs']))
      (hd.of_products hstep.products) (hm.tail hc hs hd search at_j)
    rw [amountOf_set id at_j (discharge_city_product c p)] at htail
    rw [amountOf_cons, amountOf_cons, discharge_plane_product]
    have hbal := discharge_balance c p
    rcases hm.head hc hp search at_j with hid | ⟨-, hz⟩
    · rw [hid] at htail
      split_ifs at htail ⊢ <;> omega
    · rw [hz] at htail ⊢
      dsimp only at htail ⊢
      split_ifs at htail ⊢ <;> omega

/-- **Nothing useful stays aboard.** After the visit no product is both wanted in the city and
aboard. -/
theorem no_shared_unloads {city stocks city' stocks' : List Stock}
    (h : Unloads city stocks city' stocks') (hc : Nonneg city) (hs : Nonneg stocks)
    (hd : Distinct city) :
    ∀ c ∈ city', ∀ p ∈ stocks', c.product.id = p.product.id → c.amount = 0 ∨ p.amount = 0 := by
  induction h with
  | nil => intro c _ p hp; simp at hp
  | @cons city rest city' rest' p c j search at_j tail ih =>
    have hp : 0 ≤ p.amount := hs p (by simp)
    have hrest : Nonneg rest := fun s hs' => hs s (by simp [hs'])
    have hstep := drained_discharge hc at_j hp
    have hd' := hd.of_products hstep.products
    have hdrain := (drained_unloads tail hstep.nonneg hrest).1
    intro c' hc' p' hp' hid
    rcases List.mem_cons.mp hp' with rfl | hp'
    · rw [discharge_plane_product] at hid
      -- the entry `c'` comes from
      obtain ⟨s, hsm, hprod, hle⟩ := hdrain.exists_of_mem hc'
      have hnn : 0 ≤ c'.amount := hdrain.nonneg c' hc'
      rcases search_cases search at_j with hcid | ⟨hne, -, -⟩
      · have hmem : (discharge c p).1 ∈ city.set j (discharge c p).1 :=
          List.mem_set (List.getElem?_eq_some_iff.mp at_j).1 _
        obtain rfl : s = (discharge c p).1 :=
          hd'.eq_of_id hsm hmem (by rw [← hprod, hid, discharge_city_product, hcid])
        rcases discharge_exhausts c p with hz | hz
        · left; omega
        · exact .inr hz
      · obtain ⟨y, hy, hyp⟩ : ∃ y ∈ city, y.product = s.product := by
          have : s.product ∈ (city.set j (discharge c p).1).map (·.product) :=
            List.mem_map.mpr ⟨s, hsm, rfl⟩
          rw [hstep.products] at this
          exact List.mem_map.mp this
        exact absurd (by rw [hyp, ← hprod, hid]) (hne y hy)
    · exact ih hstep.nonneg hrest hd' c' hc' p' hp' hid

/-- If some product was wanted in the city and aboard, the visit delivers something. -/
theorem total_lt_of_shared {city stocks city' stocks' : List Stock}
    (h : Unloads city stocks city' stocks') (hc : Nonneg city) (hs : Nonneg stocks)
    (hd : Distinct city) {c p : Stock} (hcm : c ∈ city) (hpm : p ∈ stocks)
    (hid : c.product.id = p.product.id) (hca : 0 < c.amount) (hpa : 0 < p.amount) :
    total city' < total city := by
  by_contra hge
  obtain ⟨hdc, hds⟩ := drained_unloads h hc hs
  have hbal := total_unloads h
  obtain rfl : city' = city := hdc.eq_of_total (by omega)
  obtain rfl : stocks' = stocks := hds.eq_of_total (by omega)
  rcases no_shared_unloads h hc hs hd c hcm p hpm hid with hz | hz <;> omega

end PlaneSim
