import PlaneSim.Parser
import PlaneSim.Turn

/-!
# Configurations

What a run starts from (`Setup`), and what of it holds in every state of the abstract turn
(`Valid`): the planes keep their numbers and are in a city of the map, their stocks fit in a
message, and every distance is defined.
-/

namespace PlaneSim

open Lts Update

/-- A configuration: a map and airlines as the parsers leave them, with non-negative amounts, every
plane in a city of the map, and no more stocks aboard than a message holds. -/
structure Setup (map : Map) (airlines : List Airline) : Prop where
  sound : Sound map airlines
  needs : ∀ city ∈ map.cities, Nonneg city.stock
  cargo : ∀ airline ∈ airlines, ∀ plane ∈ airline.planes,
    plane.stocks.length ≤ MAX_STOCKS ∧ Nonneg plane.stocks
  known : ∀ airline ∈ airlines, ∀ plane ∈ airline.planes, ∃ city ∈ map.cities, plane.cityId = city.id

/-- The start of the first turn. -/
def Turn.init (map : Map) (airlines : List Airline) : Turn where
  map := map
  turn := 0
  phase := .one
  airlines := airlines.map fun airline => airline.planes.map fun plane =>
    { plane := plane, done := false, todo := true }

/-- The plane can ask the map. -/
structure PlaneValid (map : Map) (p : ℕ) (plane : Plane) : Prop where
  id_eq : plane.id = p
  packable : Packable map.product plane.stocks
  city : ∃ c : ℕ, plane.cityId = c ∧ c < map.cities.length

structure Valid (T : Turn) : Prop where
  ok : TurnOk T
  product : WellFormed T.map.product
  square : Square T.map.cities.length T.map.matrix
  plane : ∀ a p t, T.get a p = some t → PlaneValid T.map p t.plane

theorem getDistance_square {map : Map} {n : ℕ} (h : Square n map.matrix) {i j : ℕ} (hi : i < n)
    (hj : j < n) : ∃ d, getDistance map i j = some d := by
  have hi' : i < map.matrix.length := by rw [h.1]; exact hi
  have hj' : j < map.matrix[i].length := by rw [h.2 _ (List.getElem_mem hi')]; exact hj
  refine ⟨map.matrix[i][j], ?_⟩
  unfold getDistance
  simp [hi', hj']

/-- Every city has a distance to the plane's. -/
theorem Valid.exists_candidates {T : Turn} (h : Valid T) (qsort : Qsort) {a p : ℕ} {t : TurnPlane}
    (ht : T.get a p = some t) : ∃ cityInfo, candidates qsort T.map t.plane = some cityInfo := by
  refine PlaneSim.exists_candidates fun city hc => ?_
  obtain ⟨i, hi⟩ := List.mem_iff_getElem?.mp hc
  obtain ⟨c, hcity, hlt⟩ := (h.plane a p t ht).city
  rw [h.ok.numbered i city hi, hcity]
  exact getDistance_square h.square (List.getElem?_eq_some_iff.mp hi).1 hlt

theorem Setup.get_init {map : Map} {airlines : List Airline} {a p : ℕ} {t : TurnPlane}
    (h : (Turn.init map airlines).get a p = some t) :
    ∃ airline ∈ airlines, airline.planes[p]? = some t.plane ∧ t.done = false ∧ t.todo = true := by
  obtain ⟨row, hrow, hp⟩ := get2_eq_some.mp h
  unfold Turn.init at hrow
  rw [List.getElem?_map] at hrow
  obtain ⟨airline, hairline, rfl⟩ := Option.map_eq_some_iff.mp hrow
  rw [List.getElem?_map] at hp
  obtain ⟨plane, hplane, rfl⟩ := Option.map_eq_some_iff.mp hp
  exact ⟨airline, List.mem_of_getElem? hairline, hplane, rfl, rfl⟩

theorem Setup.valid {map : Map} {airlines : List Airline} (h : Setup map airlines) :
    Valid (Turn.init map airlines) where
  ok := by
    refine ⟨h.sound.numbered, h.needs, fun a p t ht => ?_, fun a p t ht _ => ?_⟩
    · obtain ⟨airline, ha, hp, -, -⟩ := Setup.get_init ht
      exact (h.cargo airline ha t.plane (List.mem_of_getElem? hp)).2
    · obtain ⟨-, -, -, hdone, -⟩ := Setup.get_init ht
      exact hdone
  product := h.sound.table.wellFormed
  square := h.sound.square
  plane a p t ht := by
    obtain ⟨airline, ha, hp, -, -⟩ := Setup.get_init ht
    have hmem := List.mem_of_getElem? hp
    obtain ⟨city, hc, hcity⟩ := h.known airline ha t.plane hmem
    obtain ⟨c, hget⟩ := List.mem_iff_getElem?.mp hc
    have hlisted := h.sound.plane airline ha t.plane hmem
    exact ⟨(h.sound.parked airline ha p t.plane hp).1,
      ⟨(h.cargo airline ha t.plane hmem).1, hlisted,
        fun s hs => h.sound.table.name_lt _ (hlisted s hs)⟩,
      c, hcity.trans (h.sound.numbered c city hget), (List.getElem?_eq_some_iff.mp hget).1⟩

/-- Cities lose needs, and nothing else. -/
theorem PlaneValid.mono {map map' : Map} {p : ℕ} {plane plane' : Plane} (h : PlaneValid map p plane)
    (hproduct : map'.product = map.product) (hlen : map'.cities.length = map.cities.length)
    (hid : plane'.id = plane.id) (hcity : plane'.cityId = plane.cityId)
    (hstocks : Drained plane.stocks plane'.stocks) : PlaneValid map' p plane' where
  id_eq := hid.trans h.id_eq
  packable := by
    rw [hproduct]
    exact h.packable.drained hstocks
  city := by
    rw [hcity, hlen]
    exact h.city

theorem valid_step {qsort : Qsort} {T T' : Turn} {act : TurnAction}
    {es : List (List Stock × List Stock)} (h : Valid T)
    (hstep : turnStep qsort T act = some (es, T')) : Valid T' := by
  obtain ⟨hok, hs⟩ := turnOk_step h.ok hstep
  have hlen : T'.map.cities.length = T.map.cities.length := hs.cities.length_eq.symm
  have hsame : ∀ {a p : ℕ} {t t' : TurnPlane}, T.get a p = some t → t'.plane.id = t.plane.id →
      t'.plane.cityId = t.plane.cityId → Drained t.plane.stocks t'.plane.stocks →
        PlaneValid T'.map p t'.plane :=
    fun ht hid hcity hd => (h.plane _ _ _ ht).mono hs.product hlen hid hcity hd
  have hself : ∀ {a p : ℕ} {t : TurnPlane}, T.get a p = some t → PlaneValid T'.map p t.plane :=
    fun ht => hsame ht rfl rfl (Drained.refl (h.ok.cargo _ _ _ ht))
  refine ⟨hok, by rw [hs.product]; exact h.product, by rw [hlen, hs.matrix]; exact h.square, ?_⟩
  rcases turnStep_cases hstep with
    ⟨a, p, t, c, city, needs, stocks, ht, -, -, -, -, hc, hun, -, rfl⟩ |
    ⟨a, p, t, ht, -, -, -, -, rfl⟩ | ⟨a, p, t, cityInfo, ht, -, -, -, hcand, -, rfl⟩ |
    ⟨a, p, t, ht, -, -, -, -, rfl⟩ | ⟨-, -, rfl⟩
  · intro b q x hx
    rcases get2_set2_cases ht hx with ⟨rfl, rfl, rfl⟩ | ⟨-, hx⟩
    · exact hsame ht rfl rfl (drained_unloads hun (h.ok.needs city (List.mem_of_getElem? hc))
        (h.ok.cargo _ _ t ht)).2
    · exact hself hx
  · intro b q x hx
    rcases get2_set2_cases ht hx with ⟨rfl, rfl, rfl⟩ | ⟨-, hx⟩
    · exact hself (t := t) ht
    · exact hself hx
  · intro b q x hx
    rcases get2_set2_cases ht hx with ⟨rfl, rfl, rfl⟩ | ⟨-, hx⟩
    · cases cityInfo with
      | nil => exact hself (t := t) ht
      | cons info rest =>
        obtain ⟨city, hc, hcity, -, -⟩ := (candidates_spec hcand).1 info (by simp)
        obtain ⟨c, hget⟩ := List.mem_iff_getElem?.mp hc
        have hold := h.plane b q t ht
        exact ⟨hold.id_eq, hold.packable, c, hcity.trans (h.ok.numbered c city hget),
          (List.getElem?_eq_some_iff.mp hget).1⟩
    · exact hself hx
  · intro b q x hx
    rcases get2_set2_cases ht hx with ⟨rfl, rfl, rfl⟩ | ⟨-, hx⟩
    · exact hsame ht rfl rfl (Drained.refl (h.ok.cargo _ _ t ht))
    · exact hself hx
  · intro b q x hx
    rw [Turn.get, get2_map] at hx
    obtain ⟨t, ht, rfl⟩ := Option.map_eq_some_iff.mp hx
    exact hself (t := t) ht

/-! ## Three cities -/

/-- Two cities with a road between them, and one that no road leads to. -/
def trioMap : Map where
  cities := [{ name := ['R', 'o', 's', 'a', 'r', 'i', 'o'], id := 0
               stock := [{ amount := 5, product := aspi }] },
    { name := ['S', 'a', 'l', 't', 'a'], id := 1, stock := [{ amount := 3, product := para }] },
    { name := ['J', 'u', 'j', 'u', 'y'], id := 2, stock := [{ amount := 2, product := para }] }]
  product := [aspi, para]
  matrix := [[0, 2, 0], [2, 0, 0], [0, 0, 0]]

/-- One plane, in Rosario. -/
def trioAirlines : List Airline :=
  [{ id := 0
     planes := [{ id := 0
                  stocks := [{ amount := 5, product := aspi }, { amount := 3, product := para }]
                  cityId := 0
                  distance := 0 }] }]

theorem parsed_trio : Parsed trioMap trioAirlines := by
  have hmap : parseMap ['3', '\n', 'R', 'o', 's', 'a', 'r', 'i', 'o', '\n',
      'A', 's', 'p', 'i', ' ', '5', '\n', 'S', 'a', 'l', 't', 'a', '\n',
      'P', 'a', 'r', 'a', ' ', '3', '\n', 'J', 'u', 'j', 'u', 'y', '\n',
      'P', 'a', 'r', 'a', ' ', '2', '\n',
      'R', 'o', 's', 'a', 'r', 'i', 'o', ' ', 'S', 'a', 'l', 't', 'a', ' ', '2', '\n'] =
        .ok trioMap := by decide +kernel
  have hairline : parseAirlines ['1', '\n', 'R', 'o', 's', 'a', 'r', 'i', 'o', '\n',
      'A', 's', 'p', 'i', ' ', '5', '\n', 'P', 'a', 'r', 'a', ' ', '3', '\n'] trioMap =
        .ok (trioAirlines[0], trioMap) := by decide +kernel
  exact .airline (.map hmap) hairline

theorem needs_trio : ∀ city ∈ trioMap.cities, Nonneg city.stock := by
  unfold Nonneg
  decide

theorem cargo_trio : ∀ airline ∈ trioAirlines, ∀ plane ∈ airline.planes,
    plane.stocks.length ≤ MAX_STOCKS ∧ Nonneg plane.stocks := by
  unfold Nonneg
  decide

theorem known_trio : ∀ airline ∈ trioAirlines, ∀ plane ∈ airline.planes,
    ∃ city ∈ trioMap.cities, plane.cityId = city.id := by
  decide

theorem setup_trio : Setup trioMap trioAirlines :=
  ⟨parsed_trio.sound, needs_trio, cargo_trio, known_trio⟩

end PlaneSim
