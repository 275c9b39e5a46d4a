import PlaneSim.Lib.Scanf
import PlaneSim.Models
import PlaneSim.Floyd

/-!
# The configuration files

`parseMap` and `parseAirlines`. Both read stock lists with a two-item `fscanf` that stops after one
item when it runs into the next header; the name it swallowed stays in `buffer`. A local variable
that was never written is `none`, and reading it is a `Fault`, as is every other step whose effect
the language does not define.

1. The stock loop, the city loop, the connections (`readStocks`, `readCities`, `readConnections`).
2. The planes of an airline (`readPlanes`).
3. Every parsed map has a well-formed product table (`Parsed.sound`).
-/

namespace PlaneSim

open Scanf CInt

/-- Why a parser does not return a result. -/
inductive Fault where
  /-- It returns `NULL`. -/
  | null
  /-- `%d` on a numeral that is not an `int`. -/
  | overflow
  /-- `%s` past the end of a name buffer. -/
  | longName
  /-- A variable is read that was never written. -/
  | uninitialised
  /-- An index outside the matrix. -/
  | badIndex
  | fuel
deriving DecidableEq, Repr

/-- The value of a variable, if it was ever written. -/
def readVar {α : Type} : Option α → Except Fault α
  | some x => .ok x
  | none => .error .uninitialised

/-- A name has to fit into its buffer with the `NUL`; as a `Char` is a byte of the file, `length` is
what `strlen` counts. -/
def checkItem : Item → Except Fault Unit
  | .str s => if s.length < CITY_NAME_MAX_LENGTH then .ok () else .error .longName
  | .int n => if Fits n then .ok () else .error .overflow

/-- `fscanf`: its result, the items assigned, and the rest of the stream. -/
def fscanf (format : List Directive) (stream : List Char) :
    Except Fault (Int × List Item × List Char) := do
  let (items, eof, rest) := scan format stream
  items.forM checkItem
  return (if eof ∧ items = [] then -1 else items.length, items, rest)

/-- What the loops share: the file, the look-ahead buffer, the last amount and the products. -/
structure Reader where
  stream : List Char
  buffer : Option Name
  aux : Option Int
  products : List Product
deriving DecidableEq, Repr

/-- `while ((state = fscanf(file, "%s %d\n", buffer, &aux)) == 2)`: `state`, and the stocks. -/
def readStocks : ℕ → Reader → List Stock → Except Fault (Int × Reader × List Stock)
  | 0, _, _ => .error .fuel
  | fuel + 1, r, vec => do
    let (state, items, stream) ← fscanf [.str, .space, .int, .space] r.stream
    match items with
    | [.str name, .int amount] =>
      match initStock name amount r.products with
      | none => .error .null
      | some (stock, products) =>
        readStocks fuel
          { stream := stream, buffer := some name, aux := some amount, products := products }
          (vec ++ [stock])
    | [.str name] => .ok (state, { r with stream := stream, buffer := some name }, vec)
    | _ => .ok (state, { r with stream := stream }, vec)

/-! ## Maps -/

/-- The name of a city: read with `"%s\n"`, or left behind by the stock loop before. -/
def cityName (first : Bool) (next : Option Name) (r : Reader) : Except Fault (Name × Reader) := do
  if first then
    let (_, items, stream) ← fscanf [.str, .space] r.stream
    match items with
    | [.str name] => .ok (name, { r with stream := stream })
    | _ => .error .uninitialised
  else
    let name ← readVar next
    return (name, r)

/-- The loop over the cities with `left` of them to go; `next` is `cities[i]->name`. -/
def readCities : ℕ → Bool → Option Name → Reader → List City → Except Fault (Reader × List City)
  | 0, _, _, r, cities => .ok (r, cities)
  | left + 1, first, next, r, cities => do
    let (name, r) ← cityName first next r
    let (state, r, vec) ← readStocks (r.stream.length + 1) r []
    let cities := cities ++ [{ name := name, id := cities.length, stock := vec }]
    if state = 1 then
      if left ≠ 0 then
        readCities left false r.buffer { r with buffer := some [] } cities
      else
        readCities left false none r cities
    else
      readCities left first none r cities

/-- `matrix[i][j] = aux` -/
def storeDistance (matrix : List (List Int)) (i j aux : Int) : Except Fault (List (List Int)) :=
  if 0 ≤ i ∧ i < matrix.length ∧ 0 ≤ j ∧ j < matrix.length then
    .ok (setEntry matrix i.toNat j.toNat aux)
  else
    .error .badIndex

/-- The `do … while` over the connections. -/
def readConnections (cities : List City) :
    ℕ → List Char → Name → Name → Int → List (List Int) → Except Fault (List (List Int))
  | 0, _, _, _, _, _ => .error .fuel
  | fuel + 1, stream, buffer, buffer2, aux, matrix => do
    let i := getCityId buffer cities
    let j := getCityId buffer2 cities
    let matrix ← storeDistance matrix i j aux
    let matrix ← storeDistance matrix j i aux
    let (_, items, stream) ← fscanf [.str, .space, .str, .space, .int, .space] stream
    match items with
    | [.str buffer, .str buffer2, .int aux] =>
      readConnections cities fuel stream buffer buffer2 aux matrix
    | _ => .ok matrix

/-- The part of `parseMap` after the cities. -/
def readMatrix (counter : ℕ) (r : Reader) (cities : List City) :
    Except Fault (List (List Int)) := do
  let matrix := List.replicate counter (List.replicate counter 0)
  let buffer ← readVar r.buffer
  if buffer ≠ [] then
    let (_, items, stream) ← fscanf [.str, .space, .int, .space] r.stream
    match items with
    | [.str buffer2, .int aux] =>
      readConnections cities (stream.length + 1) stream buffer buffer2 aux matrix
    | [.str buffer2] =>
      let aux ← readVar r.aux
      readConnections cities (stream.length + 1) stream buffer buffer2 aux matrix
    | _ => .error .uninitialised
  else
    .ok matrix

def parseMap (text : List Char) : Except Fault Map := do
  let (_, items, stream) ← fscanf [.int, .space, .space] text
  match items with
  | [.int counter] =>
    if counter < 0 then
      .error .null
    else
      let (r, cities) ← readCities counter.toNat true none
        { stream := stream, buffer := none, aux := none, products := [] } []
      let matrix ← readMatrix counter.toNat r cities
      return { cities := cities, product := r.products
               matrix := floydMatrix matrix counter.toNat }
  | _ => .error .uninitialised

/-! ## Airlines -/

/-- `cityName` after `if (flag == FIRST) fscanf(pFile, "%s\n", cityName)`; it keeps its value when
nothing is read. -/
def planeCity (first : Bool) (cityName : Option Name) (r : Reader) :
    Except Fault (Option Name × Reader) := do
  if first then
    let (_, items, stream) ← fscanf [.str, .space] r.stream
    match items with
    | [.str name] => .ok (some name, { r with stream := stream })
    | _ => .ok (cityName, { r with stream := stream })
  else
    return (cityName, r)

/-- The loop over the planes. -/
def readPlanes (cities : List City) :
    ℕ → Bool → Option Name → Reader → List Plane → Except Fault (Reader × List Plane)
  | 0, _, _, r, planes => .ok (r, planes)
  | left + 1, first, cityName, r, planes => do
    let (cityName, r) ← planeCity first cityName r
    let cityId := getCityId (← readVar cityName) cities
    let (state, r, vec) ← readStocks (r.stream.length + 1) r []
    let planes := planes ++ [{ id := planes.length, stocks := vec, cityId := cityId, distance := 0 }]
    if state = 1 then
      readPlanes cities left false r.buffer r planes
    else
      readPlanes cities left first cityName r planes

/-- `fscanf(pFile, "%u", &numberOfPlanes)`: a negative numeral is taken modulo `2 ^ 32`. -/
def scanCount (text : List Char) : Except Fault (ℕ × List Char) :=
  match scan [.int] text with
  | ([.int n], _, stream) =>
    if n.natAbs < 2 ^ 32 then .ok ((n % 2 ^ 32).toNat, stream) else .error .overflow
  | (_, _, stream) => .ok (0, stream)

/-- `parseAirlines`, with the map whose product table it extended. The id is still zero. -/
def parseAirlines (text : List Char) (map : Map) : Except Fault (Airline × Map) := do
  let (numberOfPlanes, stream) ← scanCount text
  let (r, planes) ← readPlanes map.cities numberOfPlanes true none
    { stream := stream, buffer := none, aux := none, products := map.product } []
  return ({ id := 0, planes := planes }, { map with product := r.products })

/-! ## What every parsed map has -/

/-- A map, and the airlines read after it. -/
inductive Parsed : Map → List Airline → Prop where
  | map {text : List Char} {map : Map} (h : parseMap text = .ok map) : Parsed map []
  | airline {text : List Char} {map map' : Map} {airlines : List Airline} {airline : Airline}
      (hm : Parsed map airlines) (h : parseAirlines text map = .ok (airline, map')) :
      Parsed map' (airlines ++ [airline])

/-- The products of some stocks are in a table. -/
def Listed (products : List Product) (stocks : List Stock) : Prop :=
  ∀ s ∈ stocks, s.product ∈ products

theorem Listed.mono {products products' : List Product} {stocks : List Stock}
    (h : Listed products stocks) (hp : products <+: products') : Listed products' stocks :=
  fun s hs => hp.subset (h s hs)

theorem bind_eq_ok {α β : Type} {x : Except Fault α} {f : α → Except Fault β} {b : β} :
    x >>= f = .ok b ↔ ∃ a, x = .ok a ∧ f a = .ok b := by
  cases x with
  | error e => exact ⟨fun h => (by cases h), fun ⟨a, h, _⟩ => (by cases h)⟩
  | ok a => exact ⟨fun h => ⟨a, rfl, h⟩, fun ⟨a', h, h'⟩ => (by cases h; exact h')⟩

/-- A product table as the parsers leave it: well formed, with names that fit their buffers. -/
structure Table (products : List Product) : Prop where
  wellFormed : WellFormed products
  name_lt : ∀ p ∈ products, p.name.length < CITY_NAME_MAX_LENGTH

theorem table_nil : Table [] := ⟨wellFormed_nil, by simp⟩

/-- Every string `fscanf` assigned fits its buffer. -/
theorem fscanf_names {format : List Directive} {stream rest : List Char} {state : Int}
    {items : List Item} (h : fscanf format stream = .ok (state, items, rest)) {name : Name}
    (hn : .str name ∈ items) : name.length < CITY_NAME_MAX_LENGTH := by
  unfold fscanf at h
  generalize scan format stream = res at h
  obtain ⟨items', eof, rest'⟩ := res
  obtain ⟨_, hcheck, h⟩ := bind_eq_ok.mp h
  cases h
  clear * - hcheck hn
  induction items with
  | nil => cases hn
  | cons item items ih =>
    obtain ⟨_, hitem, hrest⟩ := bind_eq_ok.mp (show checkItem item >>= _ = .ok _ from hcheck)
    rcases List.mem_cons.mp hn with rfl | hn
    · unfold checkItem at hitem
      dsimp only at hitem
      split at hitem
      · assumption
      · cases hitem
    · exact ih hn hrest

theorem initStock_sound {name : Name} {amount : Int} {products products' : List Product}
    {stock : Stock} (ht : Table products) (hname : name.length < CITY_NAME_MAX_LENGTH)
    (h : initStock name amount products = some (stock, products')) :
    Table products' ∧ products <+: products' ∧ stock.product ∈ products' := by
  obtain ⟨⟨p, table⟩, hg, heq⟩ := Option.map_eq_some_iff.mp h
  cases heq
  have hw := ht.wellFormed.getProduct hg
  by_cases hn : name ∈ products.map Product.name
  · obtain ⟨q, hq, rfl⟩ := List.mem_map.mp hn
    rw [getProduct_of_mem ht.wellFormed hq] at hg
    cases hg
    exact ⟨ht, List.prefix_rfl, hq⟩
  · rw [getProduct_of_not_mem hn] at hg
    cases hg
    refine ⟨⟨hw, fun q hq => ?_⟩, List.prefix_append _ _, by simp⟩
    rcases List.mem_append.mp hq with hq | hq
    · exact ht.name_lt q hq
    · rw [List.mem_singleton.mp hq]
      exact hname

/-- The stock loop on any text. -/
theorem readStocks_sound {fuel : ℕ} {r r' : Reader} {vec vec' : List Stock} {state : Int}
    (h : readStocks fuel r vec = .ok (state, r', vec')) (ht : Table r.products)
    (hvec : Listed r.products vec) :
    Table r'.products ∧ r.products <+: r'.products ∧ Listed r'.products vec' := by
  induction fuel generalizing r vec with
  | zero => cases h
  | succ fuel ih =>
    rw [readStocks, bind_eq_ok] at h
    obtain ⟨⟨state', items, stream⟩, hscan, h⟩ := h
    dsimp only at h
    split at h
    · rename_i name amount
      split at h
      · cases h
      · rename_i stock products hinit
        obtain ⟨ht', hprefix, hmem⟩ := initStock_sound ht (fscanf_names hscan (by simp)) hinit
        obtain ⟨ht'', hprefix', hlisted⟩ := ih h ht' fun s hs => by
          rcases List.mem_append.mp hs with hs | hs
          · exact hprefix.subset (hvec s hs)
          · rw [List.mem_singleton.mp hs]
            exact hmem
        exact ⟨ht'', hprefix.trans hprefix', hlisted⟩
    · cases h
      exact ⟨ht, List.prefix_rfl, hvec⟩
    · cases h
      exact ⟨ht, List.prefix_rfl, hvec⟩

theorem cityName_products {first : Bool} {next : Option Name} {r r' : Reader} {name : Name}
    (h : cityName first next r = .ok (name, r')) : r'.products = r.products := by
  unfold cityName at h
  split at h
  · rw [bind_eq_ok] at h
    obtain ⟨⟨state, items, stream⟩, -, h⟩ := h
    dsimp only at h
    split at h
    · cases h; rfl
    · cases h
  · rw [bind_eq_ok] at h
    obtain ⟨name', -, h⟩ := h
    cases h
    rfl

/-- The city loop on any text. -/
theorem readCities_sound {left : ℕ} {first : Bool} {next : Option Name} {r r' : Reader}
    {cities cities' : List City} (h : readCities left first next r cities = .ok (r', cities'))
    (ht : Table r.products) (hnum : Numbered cities)
    (hlisted : ∀ city ∈ cities, Listed r.products city.stock) :
    Table r'.products ∧ Numbered cities' ∧ (∀ city ∈ cities', Listed r'.products city.stock) ∧
      cities'.length = cities.length + left := by
  induction left generalizing first next r cities with
  | zero =>
    cases h
    exact ⟨ht, hnum, hlisted, rfl⟩
  | succ left ih =>
    rw [readCities, bind_eq_ok] at h
    obtain ⟨⟨name, r1⟩, hname, h⟩ := h
    dsimp only at h
    rw [bind_eq_ok] at h
    obtain ⟨⟨state, r2, vec⟩, hread, h⟩ := h
    dsimp only at h
    obtain ⟨ht2, hprefix, hvec⟩ := readStocks_sound hread (by rwa [cityName_products hname])
      fun s hs => (by cases hs)
    rw [cityName_products hname] at hprefix
    have hlisted2 : ∀ city ∈ cities ++ [{ name := name, id := cities.length, stock := vec }],
        Listed r2.products city.stock := by
      intro city hc
      rcases List.mem_append.mp hc with hc | hc
      · exact (hlisted city hc).mono hprefix
      · rw [List.mem_singleton.mp hc]
        exact hvec
    split_ifs at h
    all_goals
      obtain ⟨h1, h2, h3, hlen⟩ := ih h ht2 (hnum.concat name vec) hlisted2
      refine ⟨h1, h2, h3, ?_⟩
      rw [hlen, List.length_append, List.length_singleton]
      omega

theorem planeCity_products {first : Bool} {city city' : Option Name} {r r' : Reader}
    (h : planeCity first city r = .ok (city', r')) : r'.products = r.products := by
  unfold planeCity at h
  split at h
  · rw [bind_eq_ok] at h
    obtain ⟨⟨state, items, stream⟩, -, h⟩ := h
    dsimp only at h
    split at h <;> (cases h; rfl)
  · cases h
    rfl

/-- Every plane's id is its position, and it is on the ground. -/
def Parked (planes : List Plane) : Prop :=
  ∀ (i : ℕ) plane, planes[i]? = some plane → plane.id = i ∧ plane.distance = 0

theorem Parked.concat {planes : List Plane} (h : Parked planes) (stocks : List Stock)
    (cityId : Int) :
    Parked (planes ++ [{ id := planes.length, stocks := stocks, cityId := cityId, distance := 0 }]) := by
  intro i plane hi
  rcases Nat.lt_or_ge i planes.length with hlt | hge
  · rw [List.getElem?_append_left hlt] at hi
    exact h i plane hi
  · rw [List.getElem?_append_right hge] at hi
    obtain ⟨hz, rfl⟩ := List.getElem?_eq_some_iff.mp hi
    simp only [List.length_cons, List.length_nil] at hz
    obtain rfl : i = planes.length := by omega
    simp

/-- The plane loop on any text. -/
theorem readPlanes_sound {cities : List City} {left : ℕ} {first : Bool} {city : Option Name}
    {r r' : Reader} {planes planes' : List Plane}
    (h : readPlanes cities left first city r planes = .ok (r', planes'))
    (ht : Table r.products) (hlisted : ∀ plane ∈ planes, Listed r.products plane.stocks)
    (hparked : Parked planes) :
    Table r'.products ∧ r.products <+: r'.products ∧
      (∀ plane ∈ planes', Listed r'.products plane.stocks) ∧ Parked planes' := by
  induction left generalizing first city r planes with
  | zero =>
    cases h
    exact ⟨ht, List.prefix_rfl, hlisted, hparked⟩
  | succ left ih =>
    rw [readPlanes, bind_eq_ok] at h
    obtain ⟨⟨city1, r1⟩, hname, h⟩ := h
    dsimp only at h
    rw [bind_eq_ok] at h
    obtain ⟨name, -, h⟩ := h
    rw [bind_eq_ok] at h
    obtain ⟨⟨state, r2, vec⟩, hread, h⟩ := h
    dsimp only at h
    obtain ⟨ht2, hprefix, hvec⟩ := readStocks_sound hread (by rwa [planeCity_products hname])
      fun s hs => (by cases hs)
    rw [planeCity_products hname] at hprefix
    have hlisted2 : ∀ plane ∈ planes ++ [{ id := planes.length, stocks := vec
                                           cityId := getCityId name cities, distance := 0 }],
        Listed r2.products plane.stocks := by
      intro plane hp
      rcases List.mem_append.mp hp with hp | hp
      · exact (hlisted plane hp).mono hprefix
      · rw [List.mem_singleton.mp hp]
        exact hvec
    split_ifs at h
    all_goals
      obtain ⟨ht', hprefix', hplanes, hparked'⟩ := ih h ht2 hlisted2 (hparked.concat vec _)
      exact ⟨ht', hprefix.trans hprefix', hplanes, hparked'⟩

/-! ## The matrix -/

/-- A connection is stored both ways. -/
theorem storeDistance_connections {n : ℕ} {matrix matrix1 matrix2 : List (List Int)} {i j aux : Int}
    (h1 : storeDistance matrix i j aux = .ok matrix1)
    (h2 : storeDistance matrix1 j i aux = .ok matrix2) (hc : Connections n matrix) :
    Connections n matrix2 := by
  unfold storeDistance at h1 h2
  split at h1
  swap
  · cases h1
  rename_i hij
  split at h2
  swap
  · cases h2
  cases h1
  cases h2
  have hlen := hc.square.1
  have hi : i.toNat < n := by omega
  have hj : j.toNat < n := by omega
  have hs := hc.square.setEntry i.toNat j.toNat aux
  refine ⟨hs.setEntry .., fun a b => ?_⟩
  simp only [entry_setEntry hs hj hi, entry_setEntry hc.square hi hj, hc.symm a b]
  split_ifs <;> first | rfl | omega

theorem readConnections_connections {n : ℕ} {cities : List City} {fuel : ℕ} {stream : List Char}
    {buffer buffer2 : Name} {aux : Int} {matrix matrix' : List (List Int)}
    (h : readConnections cities fuel stream buffer buffer2 aux matrix = .ok matrix')
    (hc : Connections n matrix) : Connections n matrix' := by
  induction fuel generalizing stream buffer buffer2 aux matrix with
  | zero => cases h
  | succ fuel ih =>
    rw [readConnections] at h
    obtain ⟨matrix1, h1, h⟩ := bind_eq_ok.mp h
    obtain ⟨matrix2, h2, h⟩ := bind_eq_ok.mp h
    obtain ⟨⟨state, items, stream'⟩, -, h⟩ := bind_eq_ok.mp h
    have hc2 := storeDistance_connections h1 h2 hc
    dsimp only at h
    split at h
    · exact ih h hc2
    · cases h
      exact hc2

theorem entry_replicate (n m i j : ℕ) :
    entry (List.replicate n (List.replicate m (0 : Int))) i j = 0 := by
  unfold entry
  rw [List.getD_eq_getElem?_getD, List.getD_eq_getElem?_getD, List.getElem?_replicate]
  split
  · rw [Option.getD_some, List.getElem?_replicate]
    split <;> rfl
  · rfl

theorem readMatrix_symmetric {counter : ℕ} {r : Reader} {cities : List City}
    {matrix : List (List Int)} (h : readMatrix counter r cities = .ok matrix) :
    Connections counter matrix := by
  have hc : Connections counter (List.replicate counter (List.replicate counter (0 : Int))) :=
    ⟨⟨List.length_replicate, fun row hrow => by
      rw [List.eq_of_mem_replicate hrow]
      exact List.length_replicate⟩, fun i j => by rw [entry_replicate, entry_replicate]⟩
  unfold readMatrix at h
  obtain ⟨buffer, -, h⟩ := bind_eq_ok.mp h
  split at h
  · obtain ⟨⟨state, items, stream⟩, -, h⟩ := bind_eq_ok.mp h
    dsimp only at h
    split at h
    · exact readConnections_connections h hc
    · obtain ⟨aux, -, h⟩ := bind_eq_ok.mp h
      exact readConnections_connections h hc
    · cases h
  · cases h
    exact hc

/-! ## Every parsed map -/

/-- What holds of every parsed map. -/
structure Sound (map : Map) (airlines : List Airline) : Prop where
  table : Table map.product
  numbered : Numbered map.cities
  city : ∀ city ∈ map.cities, Listed map.product city.stock
  square : Square map.cities.length map.matrix
  plane : ∀ airline ∈ airlines, ∀ plane ∈ airline.planes, Listed map.product plane.stocks
  parked : ∀ airline ∈ airlines, Parked airline.planes

theorem parseMap_sound {text : List Char} {map : Map} (h : parseMap text = .ok map) :
    Sound map [] := by
  unfold parseMap at h
  rw [bind_eq_ok] at h
  obtain ⟨⟨state, items, stream⟩, -, h⟩ := h
  dsimp only at h
  split at h
  · split_ifs at h
    rw [bind_eq_ok] at h
    obtain ⟨⟨r, cities⟩, hread, h⟩ := h
    dsimp only at h
    rw [bind_eq_ok] at h
    obtain ⟨matrix, hmatrix, h⟩ := h
    cases h
    obtain ⟨ht, hnum, hlisted, hlen⟩ := readCities_sound hread table_nil
      (fun i city hi => (by simp at hi)) (by simp)
    rw [List.length_nil, Nat.zero_add] at hlen
    have hsquare := (readMatrix_symmetric hmatrix).square
    rw [← hlen] at hsquare
    exact ⟨ht, hnum, hlisted, hsquare.floydMatrix _, by simp, by simp⟩
  · cases h

theorem parseAirlines_sound {text : List Char} {map map' : Map} {airline : Airline}
    {airlines : List Airline} (hs : Sound map airlines)
    (h : parseAirlines text map = .ok (airline, map')) :
    Sound map' (airlines ++ [airline]) ∧ map.product <+: map'.product := by
  unfold parseAirlines at h
  rw [bind_eq_ok] at h
  obtain ⟨⟨count, stream⟩, -, h⟩ := h
  dsimp only at h
  rw [bind_eq_ok] at h
  obtain ⟨⟨r, planes⟩, hread, h⟩ := h
  cases h
  obtain ⟨ht, hprefix, hplanes, hparked⟩ := readPlanes_sound hread hs.table (by simp)
    (fun i plane hi => (by simp at hi))
  refine ⟨⟨ht, hs.numbered, fun city hc => (hs.city city hc).mono hprefix, hs.square, ?_, ?_⟩,
    hprefix⟩
  · intro a ha plane hp
    rcases List.mem_append.mp ha with ha | ha
    · exact (hs.plane a ha plane hp).mono hprefix
    · rw [List.mem_singleton.mp ha] at hp
      exact hplanes plane hp
  · intro a ha
    rcases List.mem_append.mp ha with ha | ha
    · exact hs.parked a ha
    · rw [List.mem_singleton.mp ha]
      exact hparked

theorem Parsed.sound {map : Map} {airlines : List Airline} (h : Parsed map airlines) :
    Sound map airlines := by
  induction h with
  | map h => exact parseMap_sound h
  | airline _ h ih => exact (parseAirlines_sound ih h).1

end PlaneSim
