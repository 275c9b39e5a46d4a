import PlaneSim.Exchange
import PlaneSim.Floyd
import PlaneSim.Lib.Lts
import PlaneSim.Lib.Update

/-!
# Turns

What the simulation is for, without its messages: in phase 1 every plane on the ground unloads in
its city, in phase 2 every plane on the ground chooses where to go and every other one flies on, and
a phase ends when every plane that is not retired has done its part. Within a phase the planes act
in any order.

1. The system (`turnStep`) and what a step can do (`turnStep_cases`).
2. Needs and cargo only shrink (`TurnOk`, `Shrinks`).
3. Conservation product by product (`conservation`).
-/

namespace PlaneSim

open Lts Update

structure TurnPlane where
  plane : Plane
  /-- Retired. -/
  done : Bool
  /-- Has its part in the current phase ahead of it. -/
  todo : Bool
deriving DecidableEq, Repr

structure Turn where
  map : Map
  turn : ℕ
  phase : Phase
  airlines : List (List TurnPlane)
deriving DecidableEq, Repr

inductive TurnAction where
  | unload (a p : ℕ)
  | skip (a p : ℕ)
  | choose (a p : ℕ)
  | fly (a p : ℕ)
  | next
deriving DecidableEq, Repr

def Turn.get (T : Turn) (a p : ℕ) : Option TurnPlane := get2 T.airlines a p

def Turn.set (T : Turn) (a p : ℕ) (t : TurnPlane) : Turn :=
  { T with airlines := set2 T.airlines a p t }

/-- The plane heads for the first candidate; with none it retires. -/
def TurnPlane.choose (t : TurnPlane) : List CityInfo → TurnPlane
  | info :: _ =>
    { t with plane := { t.plane with cityId := info.cityId, distance := info.distance }
             todo := false }
  | [] => { t with done := true, todo := false }

/-- The plane may act in phase `ph`, on the ground or in the air. -/
def Turn.may (T : Turn) (ph : Phase) (t : TurnPlane) (grounded : Bool) : Bool :=
  T.phase = ph && t.todo && (t.plane.distance = 0) == grounded

/-- The events of a step are the lists an unload works on. -/
def turnStep (qsort : Qsort) (T : Turn) :
    TurnAction → Option (List (List Stock × List Stock) × Turn)
  | .unload a p => do
    let t ← T.get a p
    guard (T.may .one t true)
    let city ← getFromVector T.map.cities t.plane.cityId
    let (map, plane) ← updateMap T.map t.plane
    pure ([(city.stock, t.plane.stocks)], { T with map := map }.set a p
      { plane := plane, done := Emptied plane.stocks, todo := false })
  | .skip a p => do
    let t ← T.get a p
    guard (T.may .one t false)
    pure ([], T.set a p { t with todo := false })
  | .choose a p => do
    let t ← T.get a p
    guard (T.may .two t true)
    let cityInfo ← candidates qsort T.map t.plane
    pure ([], T.set a p (t.choose cityInfo))
  | .fly a p => do
    let t ← T.get a p
    guard (T.may .two t false)
    pure ([], T.set a p
      { t with plane := { t.plane with distance := t.plane.distance - 1 }, todo := false })
  | .next =>
    if T.airlines.all fun planes => planes.all fun t => !t.todo then
      some ([], { T with
        phase := T.phase.next
        turn := if T.phase = .two then T.turn + 1 else T.turn
        airlines := T.airlines.map fun planes => planes.map fun t => { t with todo := !t.done } })
    else none

/-- The map after a city's needs have changed. -/
def Map.setNeeds (map : Map) (c : ℕ) (city : City) (needs : List Stock) : Map :=
  { map with cities := map.cities.set c { city with stock := needs } }

/-- What a step can do. -/
theorem turnStep_cases {qsort : Qsort} {T T' : Turn} {act : TurnAction}
    {es : List (List Stock × List Stock)} (h : turnStep qsort T act = some (es, T')) :
    (∃ a p t c city needs stocks, T.get a p = some t ∧ T.phase = .one ∧ t.todo = true ∧
      t.plane.distance = 0 ∧ t.plane.cityId = (c : ℕ) ∧ T.map.cities[c]? = some city ∧
      Unloads city.stock t.plane.stocks needs stocks ∧ es = [(city.stock, t.plane.stocks)] ∧
      T' = { T with map := T.map.setNeeds c city needs }.set a p
        { plane := { t.plane with stocks := stocks }, done := Emptied stocks, todo := false }) ∨
    (∃ a p t, T.get a p = some t ∧ T.phase = .one ∧ t.todo = true ∧ t.plane.distance ≠ 0 ∧
      es = [] ∧ T' = T.set a p { t with todo := false }) ∨
    (∃ a p t cityInfo, T.get a p = some t ∧ T.phase = .two ∧ t.todo = true ∧
      t.plane.distance = 0 ∧ candidates qsort T.map t.plane = some cityInfo ∧ es = [] ∧
      T' = T.set a p (t.choose cityInfo)) ∨
    (∃ a p t, T.get a p = some t ∧ T.phase = .two ∧ t.todo = true ∧ t.plane.distance ≠ 0 ∧
      es = [] ∧ T' = T.set a p
        { t with plane := { t.plane with distance := t.plane.distance - 1 }, todo := false }) ∨
    ((∀ a p t, T.get a p = some t → t.todo = false) ∧ es = [] ∧ T' = { T with
      phase := T.phase.next
      turn := if T.phase = .two then T.turn + 1 else T.turn
      airlines := T.airlines.map fun planes => planes.map fun t => { t with todo := !t.done } }) := by
  cases act with
  | unload a p =>
    left
    simp only [turnStep, Option.bind_eq_bind, Option.bind_eq_some_iff, Turn.may] at h
    obtain ⟨t, ht, u, hg, city, hcity, ⟨map, plane⟩, hup, h⟩ := h
    obtain ⟨c, hc, hget⟩ := getFromVector_eq_some hcity
    simp only [updateMap, hcity, Option.bind_eq_bind, Option.bind_some,
      Option.bind_eq_some_iff] at hup
    obtain ⟨⟨needs, stocks⟩, hun, hup⟩ := hup
    cases hup
    cases h
    simp [guard] at hg
    refine ⟨a, p, t, c, city, needs, stocks, ht, hg.1, hg.2.1, hg.2.2, hc, hget,
      unloadStocks_iff.mp hun, rfl, ?_⟩
    have htoNat : t.plane.cityId.toNat = c := by omega
    simp only [Map.setNeeds, htoNat]
  | skip a p =>
    right; left
    simp only [turnStep, Option.bind_eq_bind, Option.bind_eq_some_iff, Turn.may] at h
    obtain ⟨t, ht, u, hg, h⟩ := h
    cases h
    simp [guard] at hg
    exact ⟨a, p, t, ht, hg.1, hg.2.1, hg.2.2, rfl, rfl⟩
  | choose a p =>
    right; right; left
    simp only [turnStep, Option.bind_eq_bind, Option.bind_eq_some_iff, Turn.may] at h
    obtain ⟨t, ht, u, hg, cityInfo, hc, h⟩ := h
    cases h
    simp [guard] at hg
    exact ⟨a, p, t, cityInfo, ht, hg.1, hg.2.1, hg.2.2, hc, rfl, rfl⟩
  | fly a p =>
    right; right; right; left
    simp only [turnStep, Option.bind_eq_bind, Option.bind_eq_some_iff, Turn.may] at h
    obtain ⟨t, ht, u, hg, h⟩ := h
    cases h
    simp [guard] at hg
    exact ⟨a, p, t, ht, hg.1, hg.2.1, hg.2.2, rfl, rfl⟩
  | next =>
    right; right; right; right
    rw [turnStep] at h
    by_cases hall : (T.airlines.all fun planes => planes.all fun t => !t.todo) = true
    swap
    · rw [if_neg hall] at h
      cases h
    rw [if_pos hall] at h
    cases h
    refine ⟨fun a p t ht => ?_, rfl, rfl⟩
    obtain ⟨row, hrow, hp⟩ := get2_eq_some.mp ht
    rw [List.all_eq_true] at hall
    have := List.all_eq_true.mp (hall row (List.mem_of_getElem? hrow)) t (List.mem_of_getElem? hp)
    simpa using this

/-! ## Needs and cargo only shrink -/

/-- The same city, with needs that fell. -/
def CityDrained (c c' : City) : Prop := c'.name = c.name ∧ c'.id = c.id ∧ Drained c.stock c'.stock

structure TurnOk (T : Turn) : Prop where
  numbered : Numbered T.map.cities
  needs : ∀ city ∈ T.map.cities, Nonneg city.stock
  cargo : ∀ a p t, T.get a p = some t → Nonneg t.plane.stocks
  active : ∀ a p t, T.get a p = some t → t.todo = true → t.done = false

/-- `T'` is a later state than `T`. -/
structure Shrinks (T T' : Turn) : Prop where
  cities : List.Forall₂ CityDrained T.map.cities T'.map.cities
  matrix : T'.map.matrix = T.map.matrix
  product : T'.map.product = T.map.product
  cargo : ∀ a p t', T'.get a p = some t' →
    ∃ t, T.get a p = some t ∧ Drained t.plane.stocks t'.plane.stocks
  done : ∀ a p t, T.get a p = some t → t.done = true →
    ∃ t', T'.get a p = some t' ∧ t'.done = true ∧ t'.plane = t.plane

theorem CityDrained.refl {cities : List City} (h : ∀ city ∈ cities, Nonneg city.stock) :
    List.Forall₂ CityDrained cities cities :=
  List.forall₂_same.mpr fun c hc => ⟨rfl, rfl, Drained.refl (h c hc)⟩

theorem forall₂_cityDrained_trans {l m n : List City} (h : List.Forall₂ CityDrained l m)
    (h' : List.Forall₂ CityDrained m n) : List.Forall₂ CityDrained l n := by
  induction h generalizing n with
  | nil => exact h'
  | cons hc _ ih =>
    cases h' with
    | cons hc' htail =>
      exact .cons ⟨hc'.1.trans hc.1, hc'.2.1.trans hc.2.1, hc.2.2.trans hc'.2.2⟩ (ih htail)

theorem Shrinks.refl {T : Turn} (h : TurnOk T) : Shrinks T T where
  cities := CityDrained.refl h.needs
  matrix := rfl
  product := rfl
  cargo a p t ht := ⟨t, ht, Drained.refl (h.cargo a p t ht)⟩
  done _ _ t ht hd := ⟨t, ht, hd, rfl⟩

theorem Shrinks.trans {T T1 T2 : Turn} (h : Shrinks T T1) (h' : Shrinks T1 T2) :
    Shrinks T T2 where
  cities := forall₂_cityDrained_trans h.cities h'.cities
  matrix := h'.matrix.trans h.matrix
  product := h'.product.trans h.product
  cargo a p t2 ht2 := by
    obtain ⟨t1, ht1, h1⟩ := h'.cargo a p t2 ht2
    obtain ⟨t, ht, h2⟩ := h.cargo a p t1 ht1
    exact ⟨t, ht, h2.trans h1⟩
  done a p t ht hd := by
    obtain ⟨t1, ht1, hd1, hp1⟩ := h.done a p t ht hd
    obtain ⟨t2, ht2, hd2, hp2⟩ := h'.done a p t1 ht1 hd1
    exact ⟨t2, ht2, hd2, hp2.trans hp1⟩

/-- A city of the later state comes from one of the earlier state. -/
theorem Shrinks.exists_city {T T' : Turn} (h : Shrinks T T') {city' : City}
    (hc : city' ∈ T'.map.cities) : ∃ city ∈ T.map.cities, CityDrained city city' := by
  have hcities := h.cities
  generalize T.map.cities = old at hcities ⊢
  generalize T'.map.cities = new at hcities hc
  induction hcities with
  | nil => cases hc
  | @cons c c' _ _ hcc _ ih =>
    rcases List.mem_cons.mp hc with rfl | hc
    · exact ⟨c, by simp, hcc⟩
    · obtain ⟨city, hmem, hd⟩ := ih hc
      exact ⟨city, by simp [hmem], hd⟩

theorem forall₂_cityDrained_set {cities : List City} {c : ℕ} {city : City} {needs : List Stock}
    (h : ∀ city ∈ cities, Nonneg city.stock) (hc : cities[c]? = some city)
    (hn : Drained city.stock needs) :
    List.Forall₂ CityDrained cities (cities.set c { city with stock := needs }) := by
  induction cities generalizing c with
  | nil => simp at hc
  | cons x rest ih =>
    have hrest : ∀ city ∈ rest, Nonneg city.stock := fun y hy => h y (by simp [hy])
    cases c with
    | zero =>
      obtain rfl : x = city := by simpa using hc
      exact .cons ⟨rfl, rfl, hn⟩ (CityDrained.refl hrest)
    | succ c => exact .cons ⟨rfl, rfl, Drained.refl (h x (by simp))⟩ (ih hrest (by simpa using hc))

theorem Numbered.set {cities : List City} (h : Numbered cities) {c : ℕ} {city : City}
    (hc : cities[c]? = some city) (needs : List Stock) :
    Numbered (cities.set c { city with stock := needs }) := by
  intro i x hx
  by_cases hi : c = i
  · subst hi
    rw [List.getElem?_set_self (List.getElem?_eq_some_iff.mp hc).1] at hx
    cases hx
    exact h c city hc
  · rw [List.getElem?_set_ne hi] at hx
    exact h i x hx

/-- One plane changes, and a city's needs may. -/
theorem TurnOk.set {T : Turn} (h : TurnOk T) {a p : ℕ} {t : TurnPlane}
    (ht : T.get a p = some t) (t' : TurnPlane) (hcargo : Nonneg t'.plane.stocks)
    (hactive : t'.todo = true → t'.done = false) {map : Map} (hnum : Numbered map.cities)
    (hneeds : ∀ city ∈ map.cities, Nonneg city.stock) :
    TurnOk ({ T with map := map }.set a p t') where
  numbered := hnum
  needs := hneeds
  cargo b q x hx := by
    rcases get2_set2_cases ht hx with ⟨-, -, rfl⟩ | ⟨-, hx⟩
    · exact hcargo
    · exact h.cargo b q x hx
  active b q x hx := by
    rcases get2_set2_cases ht hx with ⟨-, -, rfl⟩ | ⟨-, hx⟩
    · exact hactive
    · exact h.active b q x hx

theorem Shrinks.set {T : Turn} (h : TurnOk T) {a p : ℕ} {t : TurnPlane}
    (ht : T.get a p = some t) (t' : TurnPlane) (hdone : t.done = false)
    (hcargo : Drained t.plane.stocks t'.plane.stocks) {map : Map}
    (hcities : List.Forall₂ CityDrained T.map.cities map.cities)
    (hmatrix : map.matrix = T.map.matrix) (hproduct : map.product = T.map.product) :
    Shrinks T ({ T with map := map }.set a p t') where
  cities := hcities
  matrix := hmatrix
  product := hproduct
  cargo b q x hx := by
    rcases get2_set2_cases ht hx with ⟨rfl, rfl, rfl⟩ | ⟨-, hx⟩
    · exact ⟨t, ht, hcargo⟩
    · exact ⟨x, hx, Drained.refl (h.cargo b q x hx)⟩
  done b q x hx hd := by
    refine ⟨x, ?_, hd, rfl⟩
    have hne : ¬(b = a ∧ q = p) := by
      rintro ⟨rfl, rfl⟩
      rw [ht] at hx
      cases hx
      rw [hdone] at hd
      cases hd
    show get2 (set2 T.airlines a p t') b q = some x
    rw [get2_set2_ne hne]
    exact hx

theorem TurnPlane.choose_stocks (t : TurnPlane) (cityInfo : List CityInfo) :
    (t.choose cityInfo).plane.stocks = t.plane.stocks := by
  cases cityInfo <;> rfl

theorem TurnPlane.choose_todo (t : TurnPlane) (cityInfo : List CityInfo) :
    (t.choose cityInfo).todo = false := by
  cases cityInfo <;> rfl

/-- The amounts stay non-negative, and every step leads to a later state. -/
theorem turnOk_step {qsort : Qsort} {T T' : Turn} {act : TurnAction}
    {es : List (List Stock × List Stock)} (h : TurnOk T)
    (hstep : turnStep qsort T act = some (es, T')) : TurnOk T' ∧ Shrinks T T' := by
  have hself : List.Forall₂ CityDrained T.map.cities T.map.cities :=
    CityDrained.refl h.needs
  rcases turnStep_cases hstep with
    ⟨a, p, t, c, city, needs, stocks, ht, -, htodo, -, -, hc, hun, -, rfl⟩ |
    ⟨a, p, t, ht, -, htodo, -, -, rfl⟩ | ⟨a, p, t, cityInfo, ht, -, htodo, -, -, -, rfl⟩ |
    ⟨a, p, t, ht, -, htodo, -, -, rfl⟩ | ⟨-, -, rfl⟩
  · have hdone := h.active a p t ht htodo
    have hcity := h.needs city (List.mem_of_getElem? hc)
    obtain ⟨hdc, hds⟩ := drained_unloads hun hcity (h.cargo a p t ht)
    refine ⟨h.set ht _ hds.nonneg (fun h => by cases h) (h.numbered.set hc needs) ?_,
      Shrinks.set h ht _ hdone hds
        (forall₂_cityDrained_set h.needs hc hdc) rfl rfl⟩
    intro x hx
    rcases List.mem_or_eq_of_mem_set hx with hx | rfl
    · exact h.needs x hx
    · exact hdc.nonneg
  · have hnn := h.cargo a p t ht
    exact ⟨h.set ht { t with todo := false } hnn (fun h => by cases h) h.numbered h.needs,
      Shrinks.set h ht { t with todo := false } (h.active a p t ht htodo) (Drained.refl hnn) hself rfl rfl⟩
  · have hnn := h.cargo a p t ht
    rw [← t.choose_stocks cityInfo] at hnn
    refine ⟨h.set ht _ hnn (fun h => ?_) h.numbered h.needs,
      Shrinks.set h ht _ (h.active a p t ht htodo) ?_ hself rfl rfl⟩
    · rw [t.choose_todo] at h
      cases h
    · rw [t.choose_stocks] at hnn ⊢
      exact Drained.refl hnn
  · have hnn := h.cargo a p t ht
    let t' := { t with plane := { t.plane with distance := t.plane.distance - 1 }, todo := false }
    exact ⟨h.set ht t' hnn (fun h => by cases h) h.numbered h.needs,
      Shrinks.set h ht t' (h.active a p t ht htodo) (Drained.refl hnn) hself rfl rfl⟩
  · have hget : ∀ b q x, get2 (T.airlines.map fun planes => planes.map fun t : TurnPlane =>
        { t with todo := !t.done }) b q = some x →
          ∃ t, T.get b q = some t ∧ x = { t with todo := !t.done } := by
      intro b q x hx
      rw [get2_map] at hx
      obtain ⟨t, ht, rfl⟩ := Option.map_eq_some_iff.mp hx
      exact ⟨t, ht, rfl⟩
    refine ⟨⟨h.numbered, h.needs, fun b q x hx => ?_, fun b q x hx htodo => ?_⟩,
      ⟨hself, rfl, rfl, fun b q x hx => ?_, fun b q x hx hd => ?_⟩⟩
    · obtain ⟨t, ht, rfl⟩ := hget b q x hx
      exact h.cargo b q t ht
    · obtain ⟨t, ht, rfl⟩ := hget b q x hx
      simpa using htodo
    · obtain ⟨t, ht, rfl⟩ := hget b q x hx
      exact ⟨t, ht, Drained.refl (h.cargo b q t ht)⟩
    · refine ⟨{ x with todo := !x.done }, ?_, hd, rfl⟩
      show get2 _ b q = _
      rw [get2_map]
      rw [Turn.get] at hx
      rw [hx]
      rfl

theorem turnOk_run {qsort : Qsort} {T T' : Turn} {tr : List (List Stock × List Stock)}
    (h : TurnOk T) (hrun : Run (turnStep qsort) T tr T') : TurnOk T' ∧ Shrinks T T' :=
  hrun.invariant (P := fun T' => TurnOk T' ∧ Shrinks T T') ⟨h, Shrinks.refl h⟩
    fun _ _ _ _ ⟨hok, hs⟩ hstep =>
      ⟨(turnOk_step hok hstep).1, hs.trans (turnOk_step hok hstep).2⟩

/-! ## Conservation -/

/-- The need for a product over all cities. -/
def Map.need (map : Map) (id : Int) : Int := (map.cities.map fun city => amountOf id city.stock).sum

/-- The amount of a product aboard all planes. -/
def Turn.aboard (T : Turn) (id : Int) : Int :=
  sum2 (fun t => amountOf id t.plane.stocks) T.airlines

/-- No city lists a product twice. -/
def NeedsDistinct (map : Map) : Prop := ∀ city ∈ map.cities, Distinct city.stock

theorem NeedsDistinct.mono {T T' : Turn} (h : NeedsDistinct T.map) (hs : Shrinks T T') :
    NeedsDistinct T'.map := by
  intro city' hc'
  obtain ⟨city, hc, -, -, hd⟩ := hs.exists_city hc'
  exact (h city hc).of_products hd.products

/-- Every city lists a need. -/
def Listing (map : Map) : Prop := ∀ city ∈ map.cities, city.stock ≠ []

theorem Listing.mono {T T' : Turn} (h : Listing T.map) (hs : Shrinks T T') : Listing T'.map := by
  intro city' hc'
  obtain ⟨city, hc, -, -, hd⟩ := hs.exists_city hc'
  exact hd.ne_nil (h city hc)

theorem conservation_step {qsort : Qsort} {T T' : Turn} {act : TurnAction}
    {es : List (List Stock × List Stock)} (h : TurnOk T) (hd : NeedsDistinct T.map)
    (hstep : turnStep qsort T act = some (es, T'))
    (hm : ∀ e ∈ es, NoMismatch e.1 e.2) (id : Int) :
    T.map.need id - T'.map.need id = T.aboard id - T'.aboard id := by
  have hset : ∀ {a p : ℕ} {t t' : TurnPlane} {map : Map}, T.get a p = some t →
      ({ T with map := map }.set a p t').aboard id =
        T.aboard id - amountOf id t.plane.stocks + amountOf id t'.plane.stocks :=
    fun ht => sum2_set2 (fun t : TurnPlane => amountOf id t.plane.stocks) ht _
  rcases turnStep_cases hstep with
    ⟨a, p, t, c, city, needs, stocks, ht, -, htodo, -, -, hc, hun, rfl, rfl⟩ |
    ⟨a, p, t, ht, -, htodo, -, -, rfl⟩ | ⟨a, p, t, cityInfo, ht, -, htodo, -, -, -, rfl⟩ |
    ⟨a, p, t, ht, -, htodo, -, -, rfl⟩ | ⟨-, -, rfl⟩
  · have hmem := List.mem_of_getElem? hc
    have hvisit := amountOf_unloads hun (h.needs city hmem) (h.cargo a p t ht) (hd city hmem)
      (hm (city.stock, t.plane.stocks) (by simp)) id
    have hneed : (T.map.setNeeds c city needs).need id =
        T.map.need id - amountOf id city.stock + amountOf id needs :=
      sum_map_set (fun city : City => amountOf id city.stock) hc _
    rw [hset ht]
    show T.map.need id - (T.map.setNeeds c city needs).need id = _
    rw [hneed]
    dsimp only
    omega
  · rw [show T.set a p { t with todo := false } =
        ({ T with map := T.map }.set a p { t with todo := false }) from rfl, hset ht]
    show T.map.need id - T.map.need id = _
    dsimp only
    omega
  · rw [show T.set a p (t.choose cityInfo) =
        ({ T with map := T.map }.set a p (t.choose cityInfo)) from rfl, hset ht, t.choose_stocks]
    show T.map.need id - T.map.need id = _
    omega
  · rw [show T.set a p { t with plane := { t.plane with distance := t.plane.distance - 1 }
                                todo := false } =
        ({ T with map := T.map }.set a p
          { t with plane := { t.plane with distance := t.plane.distance - 1 }
                   todo := false }) from rfl, hset ht]
    show T.map.need id - T.map.need id = _
    dsimp only
    omega
  · show T.map.need id - T.map.need id = T.aboard id - sum2 _ _
    rw [sum2_map]
    show T.map.need id - T.map.need id = T.aboard id - T.aboard id
    omega

/-- **Conservation.** In a run whose unloads discharge nothing on another product's need, the need
for each product falls by what is unloaded of it. -/
theorem conservation {qsort : Qsort} {T T' : Turn} {tr : List (List Stock × List Stock)}
    (h : TurnOk T) (hd : NeedsDistinct T.map) (hrun : Run (turnStep qsort) T tr T')
    (hm : ∀ e ∈ tr, NoMismatch e.1 e.2) (id : Int) :
    T.map.need id - T'.map.need id = T.aboard id - T'.aboard id := by
  induction hrun with
  | refl => omega
  | @step tr es T1 T2 act hrun last ih =>
    obtain ⟨hok, hs⟩ := turnOk_run h hrun
    have h1 := ih fun e he => hm e (by simp [he])
    have h2 := conservation_step hok (hd.mono hs) last (fun e he => hm e (by simp [he])) id
    omega

end PlaneSim
