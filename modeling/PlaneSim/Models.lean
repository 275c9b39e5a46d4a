import Mathlib.Data.List.Basic
import Mathlib.Data.List.Nodup

/-!
# Products, stocks, cities, planes and the map

The records of `models/` and the calls on them. A `Vector*` is a list; `getFromVector` with an
index past the end gives `NULL`, here `none`. A product is created once by `getProduct` and never
changes, so a `Product*` is the product itself; its id is the position it was added at
(`WellFormed`).
-/

namespace PlaneSim

/-- A C string: its characters before the terminating NUL. -/
abbrev Name := List Char

/-- `MAX_DESTINATIONS` of `global.h`. -/
def MAX_DESTINATIONS : ℕ := 10

/-- `MAX_STOCKS` of `global.h`. -/
def MAX_STOCKS : ℕ := 50

/-- `CITY_NAME_MAX_LENGTH` of `global.h`: the size of every name buffer, the NUL included. -/
def CITY_NAME_MAX_LENGTH : ℕ := 30

structure Product where
  id : Int
  name : Name
deriving DecidableEq, Repr

structure Stock where
  amount : Int
  product : Product
deriving DecidableEq, Repr

structure City where
  name : Name
  id : Int
  stock : List Stock
deriving DecidableEq, Repr

structure Plane where
  id : Int
  stocks : List Stock
  cityId : Int
  distance : Int
deriving DecidableEq, Repr

structure Airline where
  id : Int
  planes : List Plane
deriving DecidableEq, Repr

structure Map where
  cities : List City
  product : List Product
  matrix : List (List Int)
deriving DecidableEq, Repr

/-- `getFromVector`; a negative `int` becomes an `unsigned` beyond every size. -/
def getFromVector {α : Type*} (vector : List α) (index : Int) : Option α :=
  if 0 ≤ index then vector[index.toNat]? else none

@[simp] theorem getFromVector_natCast {α : Type*} (vector : List α) (i : ℕ) :
    getFromVector vector (i : Int) = vector[i]? := by
  simp [getFromVector]

theorem getFromVector_eq_some {α : Type*} {vector : List α} {index : Int} {x : α}
    (h : getFromVector vector index = some x) :
    ∃ i : ℕ, index = i ∧ vector[i]? = some x := by
  unfold getFromVector at h
  split at h
  · exact ⟨index.toNat, by omega, h⟩
  · cases h

/-! ## Products -/

def getProductId (productName : Name) (products : List Product) : Int :=
  match products.find? (fun product => productName = product.name) with
  | some product => product.id
  | none => -1

/-- `getProductName`: the name it copies into the caller's buffer. -/
def getProductName (id : Int) (products : List Product) : Option Name :=
  (getFromVector products id).map Product.name

/-- `getProduct`: the product called `name`, added to the table if nobody asked for it before. The
list is the table in memory up to `2 ^ 31` names, where `addToVector` no longer returns the position
(`Heap.Tabled.getProduct`). -/
def getProduct (name : Name) (products : List Product) : Option (Product × List Product) :=
  let i := getProductId name products
  if i ≠ -1 then
    (getFromVector products i).map fun product => (product, products)
  else
    let res : Product := { id := products.length, name := name }
    some (res, products ++ [res])

/-- `initStock`, with the table it leaves. -/
def initStock (name : Name) (amount : Int) (products : List Product) :
    Option (Stock × List Product) :=
  (getProduct name products).map fun (product, products') =>
    ({ amount := amount, product := product }, products')

/-- Every product's id is its position, and no name is there twice. -/
structure WellFormed (products : List Product) : Prop where
  id_eq : ∀ (i : ℕ) (product : Product), products[i]? = some product → product.id = i
  nodup : (products.map Product.name).Nodup

theorem wellFormed_nil : WellFormed [] := ⟨by simp, by simp⟩

theorem WellFormed.eq_of_name {products : List Product} (h : WellFormed products)
    {p q : Product} (hp : p ∈ products) (hq : q ∈ products) (hn : p.name = q.name) : p = q :=
  List.inj_on_of_nodup_map h.nodup hp hq hn

theorem WellFormed.getElem_of_mem {products : List Product} (h : WellFormed products)
    {p : Product} (hp : p ∈ products) : ∃ i : ℕ, p.id = i ∧ products[i]? = some p := by
  obtain ⟨i, hi⟩ := List.mem_iff_getElem?.mp hp
  exact ⟨i, h.id_eq i p hi, hi⟩

theorem getProductId_of_mem {products : List Product} (h : WellFormed products)
    {p : Product} (hp : p ∈ products) : getProductId p.name products = p.id := by
  unfold getProductId
  cases hf : products.find? (fun product => p.name = product.name) with
  | none => exact absurd (List.find?_eq_none.mp hf p hp) (by simp)
  | some q =>
    have hq : p.name = q.name := by simpa using List.find?_some hf
    rw [h.eq_of_name hp (List.mem_of_find?_eq_some hf) hq]

theorem getProductId_of_not_mem {products : List Product} {name : Name}
    (hn : name ∉ products.map Product.name) : getProductId name products = -1 := by
  unfold getProductId
  rw [List.find?_eq_none.mpr]
  intro q hq he
  exact hn (List.mem_map.mpr ⟨q, hq, by simpa using (of_decide_eq_true he).symm⟩)

theorem getProduct_of_mem {products : List Product} (h : WellFormed products)
    {p : Product} (hp : p ∈ products) : getProduct p.name products = some (p, products) := by
  obtain ⟨i, hi, hpi⟩ := h.getElem_of_mem hp
  unfold getProduct
  rw [getProductId_of_mem h hp, hi]
  simp only [getFromVector_natCast, hpi, Option.map_some]
  rw [if_pos (by omega)]

theorem getProduct_of_not_mem {products : List Product} {name : Name}
    (hn : name ∉ products.map Product.name) :
    getProduct name products =
      some ({ id := products.length, name := name },
        products ++ [{ id := products.length, name := name }]) := by
  unfold getProduct
  rw [getProductId_of_not_mem hn]
  rfl

theorem WellFormed.append {products : List Product} (h : WellFormed products) {name : Name}
    (hn : name ∉ products.map Product.name) :
    WellFormed (products ++ [{ id := products.length, name := name }]) := by
  refine ⟨fun i p hi => ?_, ?_⟩
  · rcases Nat.lt_or_ge i products.length with hlt | hge
    · rw [List.getElem?_append_left hlt] at hi
      exact h.id_eq i p hi
    · rw [List.getElem?_append_right hge] at hi
      obtain ⟨hz, rfl⟩ := List.getElem?_eq_some_iff.mp hi
      simp only [List.length_cons, List.length_nil] at hz
      obtain rfl : i = products.length := by omega
      simp
  · rw [List.map_append, List.map_cons, List.map_nil]
    exact List.Nodup.append h.nodup (by simp) (by simpa using hn)

/-- Every answer of `getProduct` keeps the table well formed. -/
theorem WellFormed.getProduct {products products' : List Product} (h : WellFormed products)
    {name : Name} {p : Product} (hg : getProduct name products = some (p, products')) :
    WellFormed products' := by
  by_cases hn : name ∈ products.map Product.name
  · obtain ⟨q, hq, rfl⟩ := List.mem_map.mp hn
    rw [getProduct_of_mem h hq] at hg
    cases hg
    exact h
  · rw [getProduct_of_not_mem hn] at hg
    cases hg
    exact h.append hn

/-- The table left by a sequence of `getProduct` calls. -/
def productTable (names : List Name) : Option (List Product) :=
  names.foldlM (fun products name => (getProduct name products).map Prod.snd) []

theorem wellFormed_productTable {names : List Name} {table : List Product}
    (h : productTable names = some table) : WellFormed table := by
  suffices hgen : ∀ (names : List Name) (products : List Product), WellFormed products →
      names.foldlM (fun products name => (getProduct name products).map Prod.snd) products =
        some table → WellFormed table from hgen names [] wellFormed_nil h
  intro names
  induction names with
  | nil =>
    intro products hw hf
    cases hf
    exact hw
  | cons name rest ih =>
    intro products hw hf
    rw [List.foldlM_cons] at hf
    obtain ⟨products1, h1, hrest⟩ := Option.bind_eq_some_iff.mp hf
    obtain ⟨⟨p, products1'⟩, hg, rfl⟩ := Option.map_eq_some_iff.mp h1
    exact ih _ (hw.getProduct hg) hrest

/-- Asking for a name the table has gives back the entry and leaves the table alone. -/
theorem initStock_of_mem {products : List Product} (h : WellFormed products)
    {p : Product} (hp : p ∈ products) (amount : Int) :
    initStock p.name amount products = some ({ amount := amount, product := p }, products) := by
  unfold initStock
  rw [getProduct_of_mem h hp]
  rfl

/-! ## Cities and distances -/

def getCityId (cityName : Name) (cities : List City) : Int :=
  match cities.find? (fun city => cityName = city.name) with
  | some city => city.id
  | none => -1

/-- Every city's id is its position. -/
def Numbered (cities : List City) : Prop := ∀ (i : ℕ) city, cities[i]? = some city → city.id = i

theorem Numbered.concat {cities : List City} (h : Numbered cities) (name : Name)
    (stock : List Stock) :
    Numbered (cities ++ [{ name := name, id := cities.length, stock := stock }]) := by
  intro i city hi
  rcases Nat.lt_or_ge i cities.length with hlt | hge
  · rw [List.getElem?_append_left hlt] at hi
    exact h i city hi
  · rw [List.getElem?_append_right hge] at hi
    obtain ⟨hz, rfl⟩ := List.getElem?_eq_some_iff.mp hi
    simp only [List.length_cons, List.length_nil] at hz
    obtain rfl : i = cities.length := by omega
    simp

/-- `getDistance`: `map->matrix[city1][city2]`. -/
def getDistance (map : Map) (city1 city2 : Int) : Option Int := do
  let row ← getFromVector map.matrix city1
  getFromVector row city2

end PlaneSim
