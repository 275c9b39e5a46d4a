import PlaneSim.AirlineFile
import PlaneSim.Delivery
import PlaneSim.Screen

/-!
# From the configuration folder to the outcome

`main` reads the map file of a folder and then its airline files, in the order `readdir` gives
them. A `Scenario` describes such a folder.

1. Airlines are numbered as they are read (`placed_readConfig`).
2. The files are read as described, whatever their layout and their order (`readConfig_layout`):
   a product named in several files is one product.
3. What has been read can be simulated (`Scenario.setup`, `Scenario.charted`).
4. What is left of a product in the end is told by the files alone (`scenario_outcome`).
-/

namespace PlaneSim

open Scanf CInt Lts Update

/-! ## Reading the folder -/

/-- What `readdir` returns, with the text of the file. -/
structure DirEntry where
  d_name : List Char
  text : List Char

/-- `strncmp(entry->d_name, "airline_", 8) == 0` -/
def isAirline (entry : DirEntry) : Bool :=
  ['a', 'i', 'r', 'l', 'i', 'n', 'e', '_'].isPrefixOf entry.d_name

/-- The `readdir` loop of `main`; `addToVector` gives the id. -/
def readAirlines : List DirEntry → Map → List Airline → Except Fault (Map × List Airline)
  | [], map, airlines => .ok (map, airlines)
  | entry :: config, map, airlines =>
    if isAirline entry then do
      let (line, map) ← parseAirlines entry.text map
      readAirlines config map (airlines ++ [{ line with id := airlines.length }])
    else readAirlines config map airlines

/-- `main` up to the first `fork`. -/
def readConfig (text : List Char) (config : List DirEntry) : Except Fault (Map × List Airline) := do
  let map ← parseMap text
  readAirlines config map []

theorem placed_readAirlines {config : List DirEntry} {map map' : Map}
    {airlines airlines' : List Airline} (h : Display.Placed airlines)
    (hread : readAirlines config map airlines = .ok (map', airlines')) :
    Display.Placed airlines' := by
  induction config generalizing map airlines with
  | nil =>
    cases hread
    exact h
  | cons entry config ih =>
    unfold readAirlines at hread
    split at hread
    · obtain ⟨⟨line, map₁⟩, -, hrest⟩ := bind_eq_ok.mp hread
      refine ih (fun a airline ha => ?_) hrest
      rcases Nat.lt_or_ge a airlines.length with hlt | hge
      · rw [List.getElem?_append_left hlt] at ha
        exact h a airline ha
      · rw [List.getElem?_append_right hge, List.getElem?_singleton] at ha
        split at ha
        · cases ha
          show (airlines.length : Int) = a
          omega
        · cases ha
    · exact ih h hread

/-- **The ids.** Whatever the files say, the airlines are numbered in the order they are read. -/
theorem placed_readConfig {text : List Char} {config : List DirEntry} {map : Map}
    {airlines : List Airline} (h : readConfig text config = .ok (map, airlines)) :
    Display.Placed airlines := by
  obtain ⟨map₀, -, hread⟩ := bind_eq_ok.mp h
  exact placed_readAirlines (fun a airline ha => by cases ha) hread

/-! ## What a folder describes -/

structure Scenario where
  map : MapText
  airlines : List AirlineText

/-- The amounts of a product in a described stock list. -/
def amountIn (name : Name) (list : List (Name × Int)) : Int :=
  (list.map fun s => if s.1 = name then s.2 else 0).sum

namespace Scenario

variable (d : Scenario)

/-- The product names, in the order of the files. -/
def names : List Name :=
  namesOf d.map.cities ++ d.airlines.flatMap fun line => namesOf line.planes

/-- The map once all files have been read. -/
def finalMap : Map := { d.map.map with product := tableOf d.names }

def lines : List Airline :=
  d.airlines.zipIdx.map fun line =>
    { id := line.2, planes := planesOf d.map.map.cities d.names 0 line.1.planes }

structure WellFormed : Prop where
  map : d.map.WellFormed
  connected : d.map.connections ≠ []
  count : ∀ line ∈ d.airlines, Fits line.planes.length
  home : ∀ line ∈ d.airlines, ∀ p ∈ line.planes, IsName p.1 ∧ p.1 ∈ d.map.cityNames
  stocks : ∀ line ∈ d.airlines, ∀ p ∈ line.planes, IsStockList p.2

/-- What all cities need of a product, as the map file says. -/
def need (name : Name) : Int := (d.map.cities.map fun c => amountIn name c.2).sum

/-- What all planes set out with, as the airline files say. -/
def cargo (name : Name) : Int :=
  (d.airlines.map fun line => (line.planes.map fun p => amountIn name p.2).sum).sum

/-- The airline files of a folder. -/
def Describes (lines : List AirlineText) (config : List DirEntry) : Prop :=
  List.Forall₂ (fun line entry => Layout line.tokens entry.text) lines (config.filter isAirline)

end Scenario

/-! ## One product table -/

section Tables

variable {seen more : List Name}

theorem eraseDups_eraseDups_append (seen more : List Name) :
    (seen.eraseDups ++ more).eraseDups = (seen ++ more).eraseDups := by
  rw [List.eraseDups_append, List.eraseDups_append, eraseDups_of_nodup (nodup_eraseDups seen)]
  congr 2
  unfold List.removeAll
  refine List.filter_congr fun name _ => ?_
  rw [Bool.eq_iff_iff]
  simp [List.mem_eraseDups]

theorem tableOf_eraseDups_append : tableOf (seen.eraseDups ++ more) = tableOf (seen ++ more) := by
  unfold tableOf
  rw [eraseDups_eraseDups_append]

theorem planesOf_eraseDups_append (cities : List City) (start : ℕ)
    (planes : List (Name × List (Name × Int))) :
    planesOf cities (seen.eraseDups ++ more) start planes =
      planesOf cities (seen ++ more) start planes := by
  unfold planesOf stocksOf productOf
  rw [eraseDups_eraseDups_append]

/-- Names that come later do not change the planes. -/
theorem planesOf_append {cities : List City} {start : ℕ} {planes : List (Name × List (Name × Int))}
    (h : ∀ name ∈ namesOf planes, name ∈ seen) (more : List Name) :
    planesOf cities (seen ++ more) start planes = planesOf cities seen start planes := by
  unfold planesOf
  refine List.map_congr_left fun p hp => ?_
  have hmem : p.1 ∈ planes := List.fst_mem_of_mem_zipIdx hp
  rw [stocksOf_append fun s hs => h s.1 (List.mem_flatMap.mpr ⟨p.1, hmem, List.mem_map_of_mem hs⟩)]

end Tables

/-! ## The files are read as described -/

section Reading

variable {d : Scenario} {text : List Char} {config : List DirEntry}

/-- One airline file. -/
theorem parseAirlines_seen {map : Map} {airlines : List Airline} {seen : List Name}
    (hm : Parsed map airlines) (hseen : map.product = tableOf seen) {line : AirlineText}
    (hline : line.WellFormed map) {text : List Char} (hl : Layout line.tokens text) :
    parseAirlines text map = .ok
      ({ id := 0, planes := planesOf map.cities (seen ++ namesOf line.planes) 0 line.planes },
        { map with product := tableOf (seen ++ namesOf line.planes) }) := by
  rw [(parseAirlines_layout hm hline hl).1]
  unfold AirlineText.airline AirlineText.table AirlineText.seen
  rw [hseen, tableOf_map_name, planesOf_eraseDups_append, tableOf_eraseDups_append]

/-- The loop over the folder. -/
theorem readAirlines_layout {lines : List AirlineText} (hfiles : Scenario.Describes lines config)
    {map : Map} {raw : List Airline} (airlines : List Airline) {seen : List Name}
    (hm : Parsed map raw)
    (hseen : map.product = tableOf seen) (hlines : ∀ line ∈ lines, line.WellFormed map) :
    readAirlines config map airlines = .ok
      ({ map with product := tableOf (seen ++ lines.flatMap fun line => namesOf line.planes) },
        airlines ++ (lines.zipIdx airlines.length).map fun line =>
          { id := line.2
            planes := planesOf map.cities
              (seen ++ lines.flatMap fun line => namesOf line.planes) 0 line.1.planes }) ∧
      ∃ raw', Parsed { map with
          product := tableOf (seen ++ lines.flatMap fun line => namesOf line.planes) } raw' := by
  induction config generalizing lines map raw airlines seen with
  | nil =>
    obtain rfl : lines = [] := by simpa [Scenario.Describes] using hfiles
    refine ⟨?_, raw, ?_⟩ <;> simp [readAirlines, ← hseen, hm]
  | cons entry config ih =>
    by_cases hentry : isAirline entry = true
    · rw [Scenario.Describes, List.filter_cons_of_pos hentry] at hfiles
      obtain ⟨line, lines, hl, hrest, rfl⟩ := List.forall₂_cons_right_iff.mp hfiles
      have hline := hlines line List.mem_cons_self
      have hparse := parseAirlines_seen hm hseen hline hl
      -- the next files see the same cities
      obtain ⟨hread, hparsed⟩ := ih hrest (airlines ++
          [{ id := airlines.length
             planes := planesOf map.cities (seen ++ namesOf line.planes) 0 line.planes }])
        (.airline hm hparse) rfl fun line' hmem =>
          let h := hlines line' (List.mem_cons_of_mem _ hmem)
          ⟨h.count, h.home, h.stocks⟩
      have hnames : seen ++ (line :: lines).flatMap (fun line => namesOf line.planes) =
          seen ++ namesOf line.planes ++ lines.flatMap fun line => namesOf line.planes := by
        rw [List.flatMap_cons, List.append_assoc]
      rw [hnames]
      refine ⟨?_, hparsed⟩
      rw [readAirlines, if_pos hentry, hparse]
      dsimp only [bind, Except.bind]
      rw [hread, List.zipIdx_cons, List.map_cons, List.length_append, List.length_singleton,
        List.append_assoc airlines, List.singleton_append,
        planesOf_append fun name hname => List.mem_append_right _ hname]
    · rw [Scenario.Describes, List.filter_cons_of_neg hentry] at hfiles
      rw [readAirlines, if_neg hentry]
      exact ih hfiles airlines hm hseen hlines

variable (hd : d.WellFormed)
include hd

theorem Scenario.WellFormed.parseMap (htext : Layout d.map.tokens text) :
    PlaneSim.parseMap text = .ok d.map.map :=
  (parseMap_layout hd.map htext).mpr (.inl hd.connected)

theorem Scenario.WellFormed.line {line : AirlineText} (hline : line ∈ d.airlines) :
    line.WellFormed d.map.map where
  count := hd.count line hline
  home p hp := by
    refine ⟨(hd.home line hline p hp).1, ?_⟩
    rw [MapText.map, citiesOf_map_name]
    exact (hd.home line hline p hp).2
  stocks := hd.stocks line hline

/-- **Reading the folder.** The map and the airlines are those described, and every airline is
numbered by its place. -/
theorem readConfig_layout (htext : Layout d.map.tokens text)
    (hconfig : Scenario.Describes d.airlines config) :
    readConfig text config = .ok (d.finalMap, d.lines) ∧ ∃ raw, Parsed d.finalMap raw := by
  have hparse := hd.parseMap htext
  obtain ⟨hread, hparsed⟩ := readAirlines_layout hconfig [] (.map hparse) rfl
    fun line hline => hd.line hline
  refine ⟨?_, hparsed⟩
  rw [readConfig, hparse]
  exact hread

end Reading

/-! ## What has been read can be simulated -/

section Products

variable {seen : List Name} {list : List (Name × Int)} {name other : Name}

theorem productOf_id_inj (hname : name ∈ seen) :
    (productOf seen name).id = (productOf seen other).id ↔ name = other := by
  unfold productOf
  rw [Nat.cast_inj]
  exact List.idxOf_inj (List.mem_eraseDups.mpr hname)

theorem distinct_stocksOf (hlist : ∀ s ∈ list, s.1 ∈ seen) (hnd : (list.map Prod.fst).Nodup) :
    Distinct (stocksOf seen list) := by
  unfold Distinct stocksOf
  rw [List.map_map]
  refine List.Nodup.map_on (fun s hs t ht heq => ?_) (List.Nodup.of_map _ hnd)
  exact List.inj_on_of_nodup_map hnd hs ht ((productOf_id_inj (hlist s hs)).mp heq)

theorem nonneg_stocksOf (h : ∀ s ∈ list, 0 ≤ s.2) : Nonneg (stocksOf seen list) := by
  intro stock hstock
  obtain ⟨s, hs, rfl⟩ := List.mem_map.mp hstock
  exact h s hs

theorem amountOf_stocksOf (hname : name ∈ seen) :
    amountOf (productOf seen name).id (stocksOf seen list) = amountIn name list := by
  unfold amountOf amountIn stocksOf
  rw [List.map_map]
  congr 1
  refine List.map_congr_left fun s _ => ?_
  have heq : (productOf seen s.1).id = (productOf seen name).id ↔ s.1 = name := by
    rw [eq_comm, productOf_id_inj hname, eq_comm]
  simp only [Function.comp_apply, heq]

theorem getProductId_tableOf (hname : name ∈ seen) :
    getProductId name (tableOf seen) = (productOf seen name).id :=
  getProductId_of_mem (wellFormed_tableOf seen) (mem_tableOf hname)

end Products

theorem map_fst_zipIdx {α β : Type} (l : List α) (k : ℕ) (f : α → β) :
    ((l.zipIdx k).map fun x => f x.1) = l.map f := by
  have hmap := List.map_map (g := f) (f := Prod.fst) (l := l.zipIdx k)
  rw [List.zipIdx_map_fst] at hmap
  exact hmap.symm

theorem parked_planesOf (cities : List City) (seen : List Name)
    (planes : List (Name × List (Name × Int))) : Parked (planesOf cities seen 0 planes) := by
  intro i plane hi
  rw [planesOf, List.getElem?_map, List.getElem?_zipIdx] at hi
  obtain ⟨p, hp, rfl⟩ := Option.map_eq_some_iff.mp hi
  obtain ⟨q, -, rfl⟩ := Option.map_eq_some_iff.mp hp
  simp

namespace Scenario

/-- Nothing is negative, every city lists its needs, and no list names a product twice; the roads,
the scores and the turns stay within their bounds. -/
structure Playable (d : Scenario) : Prop where
  needs : ∀ c ∈ d.map.cities, c.2 ≠ [] ∧ (c.2.map Prod.fst).Nodup ∧ ∀ s ∈ c.2, 0 ≤ s.2
  cargo : ∀ line ∈ d.airlines, ∀ p ∈ line.planes,
    p.2.length ≤ MAX_STOCKS ∧ (p.2.map Prod.fst).Nodup ∧ ∀ s ∈ p.2, 0 ≤ s.2
  roads : RoadsFit d.map.cities.length d.map.adjacency
  scores : ∀ airline ∈ d.lines, ∀ plane ∈ airline.planes, ∀ city ∈ d.finalMap.cities,
    ScoreFits city.stock plane.stocks
  turns : (d.finalMap.totalNeed + 1) * (2 * d.finalMap.longest + 2) ≤ 70000

variable {d : Scenario} {name : Name}

theorem mem_names_of_city {c : Name × List (Name × Int)} (hc : c ∈ d.map.cities)
    {s : Name × Int} (hs : s ∈ c.2) : s.1 ∈ d.names :=
  List.mem_append_left _ (List.mem_flatMap.mpr ⟨c, hc, List.mem_map_of_mem hs⟩)

theorem mem_names_of_plane {line : AirlineText} (hline : line ∈ d.airlines)
    {p : Name × List (Name × Int)} (hp : p ∈ line.planes) {s : Name × Int} (hs : s ∈ p.2) :
    s.1 ∈ d.names :=
  List.mem_append_right _ (List.mem_flatMap.mpr
    ⟨line, hline, List.mem_flatMap.mpr ⟨p, hp, List.mem_map_of_mem hs⟩⟩)

/-- The products of the map keep their ids when the airlines are read. -/
theorem cities_finalMap (d : Scenario) : d.finalMap.cities = citiesOf d.names 0 d.map.cities := by
  change citiesOf (namesOf d.map.cities) 0 d.map.cities = _
  unfold citiesOf
  refine List.map_congr_left fun c hc => ?_
  have hseen : ∀ s ∈ c.1.2, s.1 ∈ namesOf d.map.cities := fun s hs =>
    List.mem_flatMap.mpr ⟨c.1, List.fst_mem_of_mem_zipIdx hc, List.mem_map_of_mem hs⟩
  rw [names, stocksOf_append hseen]

theorem exists_of_city {city : City} (hcity : city ∈ d.finalMap.cities) :
    ∃ c ∈ d.map.cities, city.stock = stocksOf d.names c.2 := by
  rw [cities_finalMap] at hcity
  obtain ⟨c, hc, rfl⟩ := List.mem_map.mp hcity
  exact ⟨c.1, List.fst_mem_of_mem_zipIdx hc, rfl⟩

theorem exists_of_plane {airline : Airline} (hairline : airline ∈ d.lines) {plane : Plane}
    (hplane : plane ∈ airline.planes) :
    ∃ line ∈ d.airlines, ∃ p ∈ line.planes, plane.stocks = stocksOf d.names p.2 ∧
      plane.cityId = (d.map.cityNames.idxOf p.1 : ℕ) := by
  obtain ⟨line, hline, rfl⟩ := List.mem_map.mp hairline
  obtain ⟨p, hp, rfl⟩ := List.mem_map.mp hplane
  refine ⟨line.1, List.fst_mem_of_mem_zipIdx hline, p.1, List.fst_mem_of_mem_zipIdx hp, rfl, ?_⟩
  rw [MapText.map, citiesOf_map_name, MapText.cityNames]

theorem need_finalMap (hname : name ∈ d.names) :
    d.finalMap.need (productOf d.names name).id = d.need name := by
  have hcities : d.finalMap.cities.map City.stock =
      d.map.cities.map fun c => stocksOf d.names c.2 := by
    rw [cities_finalMap, citiesOf, List.map_map]
    exact map_fst_zipIdx d.map.cities 0 fun c => stocksOf d.names c.2
  calc d.finalMap.need (productOf d.names name).id
      = ((d.finalMap.cities.map City.stock).map (amountOf (productOf d.names name).id)).sum := by
        rw [List.map_map]
        rfl
    _ = d.need name := by
        rw [hcities, List.map_map, need]
        simp only [Function.comp_def, amountOf_stocksOf hname]

theorem aboard_init (hname : name ∈ d.names) :
    (System.init d.finalMap d.lines).aboard (productOf d.names name).id = d.cargo name := by
  have hplanes : ∀ planes : List (Name × List (Name × Int)),
      ((planesOf d.map.map.cities d.names 0 planes).map fun plane =>
        amountOf (productOf d.names name).id plane.stocks) =
          planes.map fun p => amountIn name p.2 := by
    intro planes
    rw [planesOf, List.map_map, ← map_fst_zipIdx planes 0]
    simp only [Function.comp_def, amountOf_stocksOf hname]
  unfold System.aboard System.init cargo lines
  rw [List.map_map, List.map_map, sum2, List.map_map, ← map_fst_zipIdx d.airlines 0]
  simp only [Function.comp_def, bootstrapPlanes, List.map_map, hplanes]

/-- What has been read can be simulated. -/
theorem WellFormed.setup (hd : d.WellFormed) (hp : d.Playable) {raw : List Airline}
    (hparsed : Parsed d.finalMap raw) : Setup d.finalMap d.lines where
  sound := by
    have hsound := hparsed.sound
    refine ⟨hsound.table, hsound.numbered, hsound.city, hsound.square, ?_, ?_⟩
    · intro airline hairline plane hplane stock hstock
      obtain ⟨line, hline, p, hp, hstocks, -⟩ := exists_of_plane hairline hplane
      rw [hstocks] at hstock
      obtain ⟨s, hs, rfl⟩ := List.mem_map.mp hstock
      exact mem_tableOf (mem_names_of_plane hline hp hs)
    · intro airline hairline
      obtain ⟨line, -, rfl⟩ := List.mem_map.mp hairline
      exact parked_planesOf _ _ _
  needs city hcity := by
    obtain ⟨c, hc, hstock⟩ := exists_of_city hcity
    rw [hstock]
    exact nonneg_stocksOf (hp.needs c hc).2.2
  cargo airline hairline plane hplane := by
    obtain ⟨line, hline, p, hp', hstocks, -⟩ := exists_of_plane hairline hplane
    obtain ⟨hlen, -, hnonneg⟩ := hp.cargo line hline p hp'
    rw [hstocks]
    exact ⟨by rwa [stocksOf, List.length_map], nonneg_stocksOf hnonneg⟩
  known airline hairline plane hplane := by
    obtain ⟨line, hline, p, hp', -, hcity⟩ := exists_of_plane hairline hplane
    have hlt := List.idxOf_lt_length_of_mem (hd.home line hline p hp').2
    have hlen : d.map.cityNames.length = d.finalMap.cities.length := by
      rw [cities_finalMap, citiesOf, List.length_map, List.length_zipIdx, MapText.cityNames,
        List.length_map]
    rw [hlen] at hlt
    refine ⟨_, List.getElem_mem hlt, hcity.trans ?_⟩
    exact (hparsed.sound.numbered _ _ (List.getElem?_eq_getElem hlt)).symm

theorem Playable.listing (hp : d.Playable) : Listing d.finalMap := by
  intro city hcity
  obtain ⟨c, hc, hstock⟩ := exists_of_city hcity
  rw [hstock]
  simpa [stocksOf] using (hp.needs c hc).1

theorem Playable.needsDistinct (hp : d.Playable) : NeedsDistinct d.finalMap := by
  intro city hcity
  obtain ⟨c, hc, hstock⟩ := exists_of_city hcity
  rw [hstock]
  exact distinct_stocksOf (fun s hs => mem_names_of_city hc hs) (hp.needs c hc).2.1

theorem Playable.cargoDistinct (hp : d.Playable) {airline : Airline} (hairline : airline ∈ d.lines)
    {plane : Plane} (hplane : plane ∈ airline.planes) : Distinct plane.stocks := by
  obtain ⟨line, hline, p, hp', hstocks, -⟩ := exists_of_plane hairline hplane
  rw [hstocks]
  exact distinct_stocksOf (fun s hs => mem_names_of_plane hline hp' hs) (hp.cargo line hline p hp').2.1

theorem weightOf_comm (connections : List (Name × Name × Int)) (a b : Name) :
    weightOf connections a b = weightOf connections b a := by
  unfold weightOf
  simp only [or_comm]

theorem weightOf_nonneg {connections : List (Name × Name × Int)}
    (h : ∀ c ∈ connections, 0 < c.2.2) (a b : Name) : 0 ≤ weightOf connections a b := by
  unfold weightOf
  cases hfind : connections.reverse.find? fun c => (c.1 = a ∧ c.2.1 = b) ∨ (c.1 = b ∧ c.2.1 = a) with
  | none => exact le_rfl
  | some c => exact (h c (List.mem_reverse.mp (List.mem_of_find?_eq_some hfind))).le

/-- The distances are those of the shortest routes along the described roads. -/
theorem WellFormed.charted (hd : d.WellFormed) (hp : d.Playable) :
    Charted d.map.adjacency d.finalMap := by
  have hlen : d.finalMap.cities.length = d.map.cities.length := by
    rw [cities_finalMap, citiesOf, List.length_map, List.length_zipIdx]
  have hnames : d.map.cityNames.length = d.map.cities.length := List.length_map _
  have hentry : ∀ i j, i < d.map.cities.length → j < d.map.cities.length →
      ∃ a b, entry d.map.adjacency i j = weightOf d.map.connections a b ∧
        entry d.map.adjacency j i = weightOf d.map.connections b a := by
    intro i j hi hj
    rw [← hnames] at hi hj
    refine ⟨d.map.cityNames[i], d.map.cityNames[j], ?_, ?_⟩ <;>
      simp [entry, MapText.adjacency, hi, hj]
  refine ⟨roads_of_lt ⟨?_, fun row hrow => ?_⟩ (fun i hi j hj => ?_) fun i hi j hj => ?_, ?_, ?_⟩
  · rw [MapText.adjacency, List.length_map, hnames, hlen]
  · obtain ⟨a, -, rfl⟩ := List.mem_map.mp hrow
    rw [List.length_map, hnames, hlen]
  · rw [hlen] at hi hj
    obtain ⟨a, b, hab, hba⟩ := hentry i j hi hj
    rw [hab, hba, weightOf_comm]
  · rw [hlen] at hi hj
    obtain ⟨a, b, hab, -⟩ := hentry i j hi hj
    rw [hab]
    exact weightOf_nonneg (fun c hc => (hd.map.connection c hc).2.2.2.1) a b
  · rw [hlen]
    exact hp.roads
  · rw [hlen]
    rfl

end Scenario

/-! ## The outcome -/

/-- **From the files to the outcome.** Whatever the layout of the files and the order in which the
folder lists them, and whatever the order of the steps, the sort and the capacity of the inboxes: a
simulation that runs to its end without the exit flag leaves of the product called `name` what the
map file asks for beyond what the airline files load, and aboard what they load beyond it, unless
something has been unloaded on another product's need. -/
theorem scenario_outcome {d : Scenario} (hd : d.WellFormed) (hp : d.Playable) {text : List Char}
    (htext : Layout d.map.tokens text) {config : List DirEntry}
    (hconfig : Scenario.Describes d.airlines config) :
    ∃ map airlines, readConfig text config = .ok (map, airlines) ∧
      ∀ cfg tr s, Run (reliableStep cfg) (System.init map airlines) tr s → Final s →
        s.exitState = false →
        (∀ airline plane city stocks, .applied airline plane city stocks ∈ tr →
          NoMismatch city stocks) →
        ∀ name ∈ d.names,
          s.map.need (getProductId name map.product) = max 0 (d.need name - d.cargo name) ∧
            s.aboard (getProductId name map.product) = max 0 (d.cargo name - d.need name) := by
  obtain ⟨hread, raw, hparsed⟩ := readConfig_layout hd htext hconfig
  refine ⟨d.finalMap, d.lines, hread, fun cfg tr s hrun hfinal hexit hm name hname => ?_⟩
  have hsetup := hd.setup hp hparsed
  have hid : getProductId name d.finalMap.product = (productOf d.names name).id :=
    getProductId_tableOf hname
  obtain ⟨hneed, haboard, hfall⟩ := conserved_of_final hsetup hp.listing hp.needsDistinct hrun
    hfinal hm (productOf d.names name).id
  have hnone := need_or_aboard_of_final hsetup hp.listing hp.needsDistinct (hd.charted hp)
    (fun airline hairline plane hplane => ⟨hp.cargoDistinct hairline hplane,
      hp.scores airline hairline plane hplane⟩) hp.turns hrun hfinal hexit (productOf d.names name).id
  rw [Scenario.need_finalMap hname, Scenario.aboard_init hname] at hfall
  rw [hid]
  exact outcome_of_retired hneed haboard hfall hnone

/-- Rosario needs five, and the plane there has seven. -/
def soloText : List Char :=
  ['2', '\n', 'R', 'o', 's', 'a', 'r', 'i', 'o', '\n', 'A', 's', 'p', 'i', '\n', '5', '\n',
    'S', 'a', 'l', 't', 'a', '\n', 'A', 's', 'p', 'i', '\n', '0', '\n',
    'R', 'o', 's', 'a', 'r', 'i', 'o', '\n', 'S', 'a', 'l', 't', 'a', '\n', '1', '\n']

def soloLine : DirEntry where
  d_name := ['a', 'i', 'r', 'l', 'i', 'n', 'e', '_', '1']
  text := ['1', '\n', 'R', 'o', 's', 'a', 'r', 'i', 'o', '\n', 'A', 's', 'p', 'i', '\n', '7', '\n']

/-- The folder, with the map file that the loop passes over. -/
def soloConfig : List DirEntry := [{ d_name := ['m', 'a', 'p'], text := soloText }, soloLine]

def solo : Scenario where
  map :=
    { cities := [(['R', 'o', 's', 'a', 'r', 'i', 'o'], [(['A', 's', 'p', 'i'], 5)]),
        (['S', 'a', 'l', 't', 'a'], [(['A', 's', 'p', 'i'], 0)])]
      connections := [(['R', 'o', 's', 'a', 'r', 'i', 'o'], ['S', 'a', 'l', 't', 'a'], 1)] }
  airlines := [{ planes := [(['R', 'o', 's', 'a', 'r', 'i', 'o'], [(['A', 's', 'p', 'i'], 7)])] }]

theorem isName_salta : IsName ['S', 'a', 'l', 't', 'a'] :=
  isName_of (by decide) (by decide) (by decide)

theorem isName_aspi : IsName ['A', 's', 'p', 'i'] := isName_of (by decide) (by decide) (by decide)

theorem wellFormed_solo : solo.WellFormed := by
  refine ⟨⟨by simp [solo], by decide, by decide, ?_, ?_, ?_⟩, by simp [solo], ?_, ?_, ?_⟩
  · simpa [solo] using ⟨isName_rosario, isName_salta⟩
  · simpa [solo, IsStockList] using ⟨⟨isName_aspi, by decide⟩, isName_aspi, by decide⟩
  · simpa [solo, MapText.cityNames] using (by decide : Fits 1)
  · simpa [solo] using (by decide : Fits 1)
  · simpa [solo, MapText.cityNames] using isName_rosario
  · simpa [solo, IsStockList] using ⟨isName_aspi, by decide⟩

theorem layout_soloText : Layout solo.map.tokens soloText := by
  refine layout_lines (p := [(.num 2, ['2']), (.word _, ['R', 'o', 's', 'a', 'r', 'i', 'o']),
    (.word _, ['A', 's', 'p', 'i']), (.num 5, ['5']), (.word _, ['S', 'a', 'l', 't', 'a']),
    (.word _, ['A', 's', 'p', 'i']), (.num 0, ['0']), (.word _, ['R', 'o', 's', 'a', 'r', 'i', 'o']),
    (.word _, ['S', 'a', 'l', 't', 'a']), (.num 1, ['1'])]) ?_
  simpa using ⟨spells_digits (by decide), ⟨rfl, isName_rosario.1⟩, ⟨rfl, isName_aspi.1⟩,
    spells_digits (by decide), ⟨rfl, isName_salta.1⟩, ⟨rfl, isName_aspi.1⟩,
    spells_digits (by decide), ⟨rfl, isName_rosario.1⟩, ⟨rfl, isName_salta.1⟩,
    spells_digits (by decide)⟩

theorem describes_soloConfig : Scenario.Describes solo.airlines soloConfig := by
  refine List.Forall₂.cons (layout_lines (p := [(.num 1, ['1']),
    (.word _, ['R', 'o', 's', 'a', 'r', 'i', 'o']), (.word _, ['A', 's', 'p', 'i']),
    (.num 7, ['7'])]) ?_) List.Forall₂.nil
  simpa using ⟨spells_digits (by decide), ⟨rfl, isName_rosario.1⟩, ⟨rfl, isName_aspi.1⟩,
    spells_digits (by decide)⟩

theorem playable_solo : solo.Playable where
  needs := by decide
  cargo := by decide
  roads := by unfold RoadsFit; decide
  scores := by unfold ScoreFits; decide
  turns := by decide +kernel

theorem scenario_outcome_solo :
    ∃ map airlines tr s, readConfig soloText soloConfig = .ok (map, airlines) ∧
      Run (reliableStep someConfig) (System.init map airlines) tr s ∧ Final s ∧
      s.map.need (getProductId ['A', 's', 'p', 'i'] map.product) = 0 ∧
      s.aboard (getProductId ['A', 's', 'p', 'i'] map.product) = 2 := by
  obtain ⟨map, airlines, hread, hends⟩ := scenario_outcome wellFormed_solo playable_solo
    layout_soloText describes_soloConfig
  have hsolo : readConfig soloText soloConfig = .ok (soloMap, soloAirlines) := by decide +kernel
  cases hread.symm.trans hsolo
  obtain ⟨tr, s, hexec, hfinal, hexit, hunloads⟩ := exec_solo
  have hrun := run_of_exec hexec
  obtain ⟨hneed, haboard⟩ := hends someConfig tr s hrun hfinal hexit
    (fun airline plane city stocks he => noMismatch_solo hunloads he) _
    (by decide : ['A', 's', 'p', 'i'] ∈ solo.names)
  exact ⟨soloMap, soloAirlines, tr, s, hread, hrun, hfinal, hneed, haboard⟩

end PlaneSim
