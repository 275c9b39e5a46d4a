import PlaneSim.FileText

/-!
# Reading a map file

A `MapText` describes a map file: the cities with their stock lists, then the connections. The map
it stands for is `MapText.map`.

1. The city loop on a described list of cities (`readCities_layout`).
2. The connections: the last line that names a pair gives its weight (`readConnections_layout`).
3. `parseMap` gives `MapText.map` exactly when the buffer left by the city loop says truly whether
   a connection follows (`parseMap_layout`).
-/

namespace PlaneSim

open Scanf CInt

structure MapText where
  cities : List (Name × List (Name × Int))
  connections : List (Name × Name × Int)

def cityTokens (cities : List (Name × List (Name × Int))) : List Token :=
  cities.flatMap fun c => .word c.1 :: stockTokens c.2

def connectionTokens (connections : List (Name × Name × Int)) : List Token :=
  connections.flatMap fun c => [.word c.1, .word c.2.1, .num c.2.2]

/-- The product names of a list of cities, in the order of the file. -/
def namesOf (cities : List (Name × List (Name × Int))) : List Name :=
  cities.flatMap fun c => c.2.map Prod.fst

/-- The described cities, with ids from `start` on. -/
def citiesOf (seen : List Name) (start : ℕ) (cities : List (Name × List (Name × Int))) :
    List City :=
  (cities.zipIdx start).map fun c => { name := c.1.1, id := c.2, stock := stocksOf seen c.1.2 }

/-- The weight the last line that names the pair gives it. -/
def weightOf (connections : List (Name × Name × Int)) (a b : Name) : Int :=
  match connections.reverse.find? fun c => (c.1 = a ∧ c.2.1 = b) ∨ (c.1 = b ∧ c.2.1 = a) with
  | some c => c.2.2
  | none => 0

namespace MapText

def cityNames (d : MapText) : List Name := d.cities.map Prod.fst

def tokens (d : MapText) : List Token :=
  .num d.cities.length :: (cityTokens d.cities ++ connectionTokens d.connections)

structure WellFormed (d : MapText) : Prop where
  nonempty : d.cities ≠ []
  count : Fits d.cities.length
  nodup : d.cityNames.Nodup
  name : ∀ c ∈ d.cities, IsName c.1
  stocks : ∀ c ∈ d.cities, IsStockList c.2
  connection : ∀ c ∈ d.connections,
    c.1 ∈ d.cityNames ∧ c.2.1 ∈ d.cityNames ∧ c.1 ≠ c.2.1 ∧ 0 < c.2.2 ∧ Fits c.2.2

/-- The symmetric adjacency matrix. -/
def adjacency (d : MapText) : List (List Int) :=
  d.cityNames.map fun a => d.cityNames.map fun b => weightOf d.connections a b

/-- The map the file describes. -/
def map (d : MapText) : Map where
  cities := citiesOf (namesOf d.cities) 0 d.cities
  product := tableOf (namesOf d.cities)
  matrix := floydMatrix d.adjacency d.cities.length

end MapText

/-! ## The cities -/

theorem noNumber_stockTokens (list : List (Name × Int)) {ts : List Token} (h : NoNumber ts) :
    NoNumber (stockTokens list ++ ts) := by
  cases list with
  | nil => exact h
  | cons s list =>
    intro n rest heq
    cases heq

theorem noNumber_cityTokens (cities : List (Name × List (Name × Int))) {ts : List Token}
    (h : NoNumber ts) : NoNumber (cityTokens cities ++ ts) := by
  cases cities with
  | nil => exact h
  | cons c cities =>
    intro n rest heq
    cases heq

theorem AtHeader.noNumber {ts : List Token} (h : AtHeader ts) : NoNumber ts := by
  rintro n rest rfl
  exact h

/-- What is in `buffer` when the file ends after the cities. -/
def endBuffer (buffer : Option Name) : List (Name × List (Name × Int)) → Option Name
  | [] => buffer
  | [c] => lastName buffer c.2
  | _ :: c :: rest => endBuffer (some []) (c :: rest)

theorem length_stockTokens (list : List (Name × Int)) :
    (stockTokens list).length = 2 * list.length := by
  induction list with
  | nil => rfl
  | cons s list ih =>
    have hcons : stockTokens (s :: list) = .word s.1 :: .num s.2 :: stockTokens list := rfl
    rw [hcons, List.length_cons, List.length_cons, List.length_cons, ih]
    omega

/-- The stock list of a file is shorter than its text. -/
theorem length_lt_of_layout {list : List (Name × Int)} {ts : List Token} {cs : List Char}
    (h : Layout (stockTokens list ++ ts) cs) : list.length < cs.length + 1 := by
  have := h.length_le
  rw [List.length_append, length_stockTokens] at this
  omega

/-- **The city loop.** Once the name of the next city is known, the described cities are read in
order. -/
theorem readCities_layout {ts : List Token} (hts : AtHeader ts)
    (rest : List (Name × List (Name × Int))) (hrest : ∀ c ∈ rest, IsName c.1 ∧ IsStockList c.2) :
    ∀ (c : Name × List (Name × Int)) (first : Bool) (next : Option Name) (r r1 : Reader)
      (done : List City) (seen : List Name),
      IsStockList c.2 → cityName first next r = .ok (c.1, r1) → r1.products = tableOf seen →
      Layout (stockTokens c.2 ++ (cityTokens rest ++ ts)) r1.stream →
      ∃ r', readCities (rest.length + 1) first next r done =
          .ok (r', done ++ citiesOf (seen ++ namesOf (c :: rest)) done.length (c :: rest)) ∧
        r'.products = tableOf (seen ++ namesOf (c :: rest)) ∧
        Stopped (endBuffer r1.buffer (c :: rest)) ts r' := by
  induction rest with
  | nil =>
    intro c first next r r1 done seen hc hname htable hl
    obtain ⟨r', hread, hproducts, hstop⟩ :=
      readStocks_layout hc hts (length_lt_of_layout hl) htable hl
    have hseen : seen ++ namesOf [c] = seen ++ c.2.map Prod.fst := by simp [namesOf]
    refine ⟨r', ?_, by rw [hseen, hproducts], hstop⟩
    rw [List.length_nil, Nat.zero_add, readCities, hname, hseen]
    dsimp only [bind, Except.bind]
    rw [hread]
    by_cases hs : stopState ts = 1 <;> simp [hs, readCities, citiesOf]
  | cons c2 rest ih =>
    intro c first next r r1 done seen hc hname htable hl
    obtain ⟨hname2, hc2⟩ := hrest c2 (by simp)
    -- the stock loop runs into the name of the next city
    have hheader : AtHeader (.word c2.1 :: (stockTokens c2.2 ++ (cityTokens rest ++ ts))) :=
      ⟨hname2, noNumber_stockTokens _ (noNumber_cityTokens _ hts.noNumber)⟩
    have htokens : cityTokens (c2 :: rest) ++ ts =
        .word c2.1 :: (stockTokens c2.2 ++ (cityTokens rest ++ ts)) := by
      simp [cityTokens]
    rw [htokens] at hl
    obtain ⟨r2, hread, hproducts, hbuffer, hl2⟩ :=
      readStocks_layout hc hheader (length_lt_of_layout hl) htable hl
    obtain ⟨r', hrec, hproducts', hstop⟩ := ih (fun c hc => hrest c (by simp [hc])) c2 false
      (some c2.1) { r2 with buffer := some [] } { r2 with buffer := some [] }
      (done ++ [{ name := c.1, id := done.length
                  stock := stocksOf (seen ++ c.2.map Prod.fst) c.2 }])
      (seen ++ c.2.map Prod.fst) hc2 rfl hproducts hl2
    have hseen : seen ++ c.2.map Prod.fst ++ namesOf (c2 :: rest) =
        seen ++ namesOf (c :: c2 :: rest) := by simp [namesOf]
    have hstocks : stocksOf (seen ++ c.2.map Prod.fst) c.2 =
        stocksOf (seen ++ namesOf (c :: c2 :: rest)) c.2 := by
      rw [← hseen]
      exact (stocksOf_append (fun s hs => by simp [List.mem_map_of_mem hs]) _).symm
    refine ⟨r', ?_, by rw [← hseen, hproducts'], hstop⟩
    rw [List.length_cons, readCities, hname]
    dsimp only [bind, Except.bind]
    rw [hread]
    simp only [stopState, List.cons_ne_nil, if_false, if_true, ne_eq, Nat.add_eq_zero_iff,
      one_ne_zero, and_false, not_false_eq_true, List.nil_append, hbuffer, hrec, hseen]
    simp [citiesOf, hstocks]

/-! ## The connections -/

theorem numbered_citiesOf (seen : List Name) (cities : List (Name × List (Name × Int))) :
    Numbered (citiesOf seen 0 cities) := by
  intro i city h
  rw [citiesOf, List.getElem?_map, List.getElem?_zipIdx] at h
  cases hc : cities[i]? with
  | none => simp [hc] at h
  | some c =>
    rw [hc] at h
    cases h
    simp

theorem citiesOf_map_name (seen : List Name) (start : ℕ)
    (cities : List (Name × List (Name × Int))) :
    (citiesOf seen start cities).map City.name = cities.map Prod.fst := by
  refine List.ext_getElem? fun i => ?_
  simp only [citiesOf, List.getElem?_map, List.getElem?_zipIdx, Option.map_map]
  rfl

/-- The search for a listed name ends at its first position. -/
theorem getCityId_eq_idxOf {cities : List City} (h : Numbered cities) {name : Name}
    (hname : name ∈ cities.map City.name) :
    getCityId name cities = (cities.map City.name).idxOf name := by
  suffices hgen : ∀ (cities : List City) (k : ℕ),
      (∀ (i : ℕ) city, cities[i]? = some city → city.id = (k + i : ℕ)) →
        name ∈ cities.map City.name →
          getCityId name cities = (k + (cities.map City.name).idxOf name : ℕ) by
    simpa using hgen cities 0 (fun i city hi => by simpa using h i city hi) hname
  intro cities
  induction cities with
  | nil => intro k _ hmem; cases hmem
  | cons city cities ih =>
    intro k hid hmem
    by_cases hn : name = city.name
    · have h0 := hid 0 city rfl
      simp [getCityId, hn, h0]
    · have hrec := ih (k + 1) (fun i c hi => by rw [hid (i + 1) c hi]; congr 1; omega) (by
        rcases List.mem_cons.mp hmem with h | h
        · exact absurd h hn
        · exact h)
      have hskip : getCityId name (city :: cities) = getCityId name cities := by
        simp [getCityId, hn]
      rw [hskip, hrec, List.map_cons, List.idxOf_cons_ne _ (Ne.symm hn)]
      congr 1
      omega

/-- The matrix of a weight per ordered pair of names. -/
def table (names : List Name) (f : Name → Name → Int) : List (List Int) :=
  names.map fun a => names.map (f a)

theorem map_modify_idxOf {α β : Type} [BEq α] [LawfulBEq α] {names : List α} (hnd : names.Nodup)
    {x : α} (hx : x ∈ names) (g : α → β) (h : β → β) :
    (names.map g).modify (names.idxOf x) h = names.map fun y => if y == x then h (g y) else g y := by
  induction names with
  | nil => cases hx
  | cons y names ih =>
    obtain ⟨hy, hnd⟩ := List.nodup_cons.mp hnd
    by_cases hyx : y = x
    · subst hyx
      have hrest : names.map (fun z => if z == y then h (g z) else g z) = names.map g :=
        List.map_congr_left fun z hz => if_neg fun he => hy (by rwa [eq_of_beq he] at hz)
      rw [List.idxOf_cons_self, List.map_cons, List.modify_zero_cons, List.map_cons, hrest]
      simp
    · have hmem : x ∈ names := by
        rcases List.mem_cons.mp hx with rfl | hm
        · exact absurd rfl hyx
        · exact hm
      rw [List.idxOf_cons_ne _ hyx, List.map_cons, List.modify_succ_cons, List.map_cons, ih hnd hmem]
      simp [hyx]

theorem setEntry_table {names : List Name} (hnd : names.Nodup) (f : Name → Name → Int)
    {a0 b0 : Name} (ha : a0 ∈ names) (hb : b0 ∈ names) (w : Int) :
    setEntry (table names f) (names.idxOf a0) (names.idxOf b0) w =
      table names fun a b => if a = a0 ∧ b = b0 then w else f a b := by
  unfold setEntry table
  rw [map_modify_idxOf hnd ha]
  refine List.map_congr_left fun a _ => ?_
  rw [List.set_eq_modify, map_modify_idxOf hnd hb]
  by_cases h : a = a0 <;> simp [h]

theorem weightOf_concat (connections : List (Name × Name × Int)) (a0 b0 : Name) (w : Int)
    (a b : Name) :
    weightOf (connections ++ [(a0, b0, w)]) a b =
      if (a0 = a ∧ b0 = b) ∨ (a0 = b ∧ b0 = a) then w else weightOf connections a b := by
  unfold weightOf
  rw [List.reverse_append, List.reverse_singleton, List.singleton_append, List.find?_cons]
  by_cases h : (a0 = a ∧ b0 = b) ∨ (a0 = b ∧ b0 = a) <;> simp [h]

theorem length_table (names : List Name) (f : Name → Name → Int) :
    (table names f).length = names.length := List.length_map _

theorem storeDistance_table {names : List Name} (hnd : names.Nodup) (f : Name → Name → Int)
    {a0 b0 : Name} (ha : a0 ∈ names) (hb : b0 ∈ names) (w : Int) :
    storeDistance (table names f) (names.idxOf a0) (names.idxOf b0) w =
      .ok (table names fun a b => if a = a0 ∧ b = b0 then w else f a b) := by
  have hi := List.idxOf_lt_length_of_mem ha
  have hj := List.idxOf_lt_length_of_mem hb
  unfold storeDistance
  rw [if_pos (by rw [length_table]; omega), Int.toNat_natCast, Int.toNat_natCast,
    setEntry_table hnd f ha hb]

/-- One round of the loop over the connections. -/
theorem storePair {names : List Name} (hnd : names.Nodup) (done : List (Name × Name × Int))
    {a0 b0 : Name} (ha : a0 ∈ names) (hb : b0 ∈ names) (w : Int) :
    (storeDistance (table names (weightOf done)) (names.idxOf a0) (names.idxOf b0) w >>= fun m =>
        storeDistance m (names.idxOf b0) (names.idxOf a0) w) =
      .ok (table names (weightOf (done ++ [(a0, b0, w)]))) := by
  rw [storeDistance_table hnd _ ha hb]
  change storeDistance _ _ _ w = _
  rw [storeDistance_table hnd _ hb ha]
  congr 2
  funext a b
  rw [weightOf_concat]
  grind

/-- `"%s %s %d\n"` on a connection. -/
theorem fscanf_connection {a b : Name} {w : Int} {t : List Token} {cs : List Char}
    (hl : Layout (.word a :: .word b :: .num w :: t) cs) (ha : IsName a) (hb : IsName b)
    (hw : Fits w) :
    ∃ cs', fscanf [.str, .space, .str, .space, .int, .space] cs =
        .ok (3, [.str a, .str b, .int w], cs') ∧ Layout t cs' := by
  obtain ⟨cs', h, hl'⟩ := fscanf_layout [.str, .space, .str, .space, .int, .space]
    [.str a, .str b, .int w] false t hl rfl
    (by simpa using ⟨checkItem_name ha, checkItem_name hb, checkItem_int hw⟩)
  exact ⟨cs', by simpa using h, hl'⟩

/-- `"%s %s %d\n"` at the end of the file. -/
theorem fscanf_connection_end {cs : List Char} (hl : Layout [] cs) :
    ∃ cs', fscanf [.str, .space, .str, .space, .int, .space] cs = .ok (-1, [], cs') := by
  obtain ⟨cs', h, -⟩ := fscanf_layout [.str, .space, .str, .space, .int, .space] [] true []
    hl rfl (by simp)
  exact ⟨cs', by simpa using h⟩

/-- **The connections.** The matrix ends up with the weight of the last line for every pair. -/
theorem readConnections_layout {cities : List City} (hids : Numbered cities)
    (hnd : (cities.map City.name).Nodup) (rest : List (Name × Name × Int)) :
    ∀ (a b : Name) (w : Int) (done : List (Name × Name × Int)) (fuel : ℕ) (cs : List Char),
      (∀ c ∈ (a, b, w) :: rest, c.1 ∈ cities.map City.name ∧ c.2.1 ∈ cities.map City.name) →
      (∀ c ∈ rest, IsName c.1 ∧ IsName c.2.1 ∧ Fits c.2.2) →
      rest.length < fuel → Layout (connectionTokens rest) cs →
      readConnections cities fuel cs a b w (table (cities.map City.name) (weightOf done)) =
        .ok (table (cities.map City.name) (weightOf (done ++ (a, b, w) :: rest))) := by
  induction rest with
  | nil =>
    intro a b w done fuel cs hmem _ hfuel hl
    obtain ⟨fuel, rfl⟩ : ∃ n, fuel = n + 1 := ⟨fuel - 1, by simp at hfuel; omega⟩
    obtain ⟨ha, hb⟩ := hmem (a, b, w) (by simp)
    obtain ⟨cs', hscan⟩ := fscanf_connection_end hl
    rw [readConnections, getCityId_eq_idxOf hids ha, getCityId_eq_idxOf hids hb]
    dsimp only
    rw [← bind_assoc, storePair hnd done ha hb]
    dsimp only [bind, Except.bind]
    rw [hscan]
  | cons c rest ih =>
    intro a b w done fuel cs hmem hrest hfuel hl
    obtain ⟨fuel, rfl⟩ : ∃ n, fuel = n + 1 := ⟨fuel - 1, by simp at hfuel; omega⟩
    obtain ⟨ha, hb⟩ := hmem (a, b, w) (by simp)
    obtain ⟨hname1, hname2, hfits⟩ := hrest c (by simp)
    obtain ⟨cs', hscan, hl'⟩ := fscanf_connection (t := connectionTokens rest) hl hname1 hname2 hfits
    rw [readConnections, getCityId_eq_idxOf hids ha, getCityId_eq_idxOf hids hb]
    dsimp only
    rw [← bind_assoc, storePair hnd done ha hb]
    dsimp only [bind, Except.bind]
    rw [hscan]
    dsimp only
    rw [ih c.1 c.2.1 c.2.2 (done ++ [(a, b, w)]) fuel cs'
      (fun c hc => hmem c (List.mem_cons_of_mem _ hc)) (fun c hc => hrest c (by simp [hc]))
      (by simp at hfuel; omega) hl']
    simp

/-! ## The whole file -/

/-- `buffer` is the empty string exactly when the name of the last city was taken from it and no
stock followed. -/
theorem endBuffer_eq_nil {cities : List (Name × List (Name × Int))}
    (hstocks : ∀ c ∈ cities, IsStockList c.2) (hne : cities ≠ []) (buffer : Option Name) :
    endBuffer buffer cities = some [] ↔
      (∀ c, cities.getLast? = some c → c.2 = []) ∧ (2 ≤ cities.length ∨ buffer = some []) := by
  have hlast : ∀ (c : Name × List (Name × Int)) (b : Option Name), c ∈ cities →
      (lastName b c.2 = some [] ↔ c.2 = [] ∧ b = some []) := by
    intro c b hc
    rcases List.eq_nil_or_concat c.2 with h | ⟨list, s, h⟩
    · simp [h, lastName]
    · obtain ⟨⟨⟨x, rest, hs, -⟩, -⟩, -⟩ := (hstocks c hc s (by rw [h]; simp)).1
      simp [h, lastName, hs]
  induction cities generalizing buffer with
  | nil => exact absurd rfl hne
  | cons c rest ih =>
    cases rest with
    | nil => simpa [endBuffer] using hlast c buffer (by simp)
    | cons c2 rest =>
      have hrec := ih (fun c hc => hstocks c (List.mem_cons_of_mem _ hc)) (List.cons_ne_nil _ _)
        (some []) fun c b hc => hlast c b (List.mem_cons_of_mem _ hc)
      rw [endBuffer]
      exact hrec.trans (by simp)

theorem length_lt_of_connections {connections : List (Name × Name × Int)} {cs : List Char}
    (h : Layout (connectionTokens connections) cs) : connections.length < cs.length + 1 := by
  have hlen : (connectionTokens connections).length = 3 * connections.length := by
    clear h
    induction connections with
    | nil => rfl
    | cons c rest ih =>
      have hcons : connectionTokens (c :: rest) =
          .word c.1 :: .word c.2.1 :: .num c.2.2 :: connectionTokens rest := rfl
      rw [hcons, List.length_cons, List.length_cons, List.length_cons, List.length_cons, ih]
      omega
  have := h.length_le
  omega

theorem IsName.ne_nil {name : Name} (h : IsName name) : name ≠ [] := by
  obtain ⟨⟨⟨c, rest, rfl, -⟩, -⟩, -⟩ := h
  simp

theorem table_zero (names : List Name) :
    List.replicate names.length (List.replicate names.length (0 : Int)) =
      table names (weightOf []) := by
  have hrow : ∀ a, names.map (weightOf [] a) = List.replicate names.length 0 := fun a =>
    List.eq_replicate_iff.mpr ⟨by simp, fun x hx => by
      obtain ⟨b, -, rfl⟩ := List.mem_map.mp hx
      rfl⟩
  unfold table
  rw [List.map_congr_left fun a _ => hrow a, List.map_const']

section Described

variable {d : MapText} (hd : d.WellFormed)
include hd

theorem MapText.WellFormed.isName {name : Name} (h : name ∈ d.cityNames) : IsName name := by
  obtain ⟨c, hc, rfl⟩ := List.mem_map.mp h
  exact hd.name c hc

theorem atHeader_connections : AtHeader (connectionTokens d.connections) := by
  cases hconn : d.connections with
  | nil => trivial
  | cons c rest =>
    obtain ⟨ha, -⟩ := hd.connection c (by simp [hconn])
    exact ⟨hd.isName ha, fun n rest heq => by cases heq⟩

/-- The cities of the file, read from its start. -/
theorem readCities_text {text : List Char} (hl : Layout d.tokens text) :
    ∃ stream r, fscanf [.int, .space, .space] text = .ok (1, [.int d.cities.length], stream) ∧
      readCities d.cities.length true none
          { stream := stream, buffer := none, aux := none, products := [] } [] =
        .ok (r, d.map.cities) ∧
      r.products = d.map.product ∧
      Stopped (endBuffer none d.cities) (connectionTokens d.connections) r := by
  obtain ⟨stream, hscan, hl1⟩ := fscanf_layout [.int, .space, .space]
    [.int d.cities.length] false (cityTokens d.cities ++ connectionTokens d.connections) hl rfl
    (by simpa using checkItem_int hd.count)
  obtain ⟨c, rest, hcities⟩ := List.exists_cons_of_ne_nil hd.nonempty
  have htokens : cityTokens d.cities ++ connectionTokens d.connections =
      .word c.1 :: (stockTokens c.2 ++ (cityTokens rest ++ connectionTokens d.connections)) := by
    simp [hcities, cityTokens]
  rw [htokens] at hl1
  obtain ⟨stream2, hname, hl2⟩ := fscanf_name hl1 (hd.name c (by simp [hcities]))
  obtain ⟨r, hread, hproducts, hstop⟩ := readCities_layout (atHeader_connections hd) rest
    (fun c hc => ⟨hd.name c (by simp [hcities, hc]), hd.stocks c (by simp [hcities, hc])⟩) c true
    none { stream := stream, buffer := none, aux := none, products := [] }
    { stream := stream2, buffer := none, aux := none, products := [] } [] []
    (hd.stocks c (by simp [hcities])) (by simp [cityName, hname, bind, Except.bind]) rfl hl2
  refine ⟨stream, r, by simpa using hscan, ?_, ?_, ?_⟩
  · simpa [MapText.map, hcities] using hread
  · simpa [MapText.map, hcities] using hproducts
  · simpa [hcities] using hstop

/-- The part after the cities, when there are connections. -/
theorem readMatrix_connections {r : Reader}
    (hstop : Stopped (endBuffer none d.cities) (connectionTokens d.connections) r)
    (hconn : d.connections ≠ []) :
    readMatrix d.cities.length r d.map.cities = .ok d.adjacency := by
  obtain ⟨⟨a, b, w⟩, rest, hc⟩ := List.exists_cons_of_ne_nil hconn
  have hnames : d.map.cities.map City.name = d.cityNames := citiesOf_map_name ..
  obtain ⟨ha, hb, -, -, hw⟩ := hd.connection (a, b, w) (by simp [hc])
  rw [hc] at hstop
  obtain ⟨hbuffer, hl⟩ := hstop
  obtain ⟨stream, hscan, hl'⟩ := fscanf_pair (t := connectionTokens rest) hl (hd.isName hb) hw
  have hread := readConnections_layout (numbered_citiesOf (namesOf d.cities) d.cities)
    (by rw [citiesOf_map_name]; exact hd.nodup) rest a b w [] (stream.length + 1) stream
    (fun c hc' => by
      obtain ⟨h1, h2, -⟩ := hd.connection c (by rw [hc]; exact hc')
      rw [citiesOf_map_name]
      exact ⟨h1, h2⟩)
    (fun c hc' => by
      obtain ⟨h1, h2, -, -, h3⟩ := hd.connection c (by rw [hc]; exact List.mem_cons_of_mem _ hc')
      exact ⟨hd.isName h1, hd.isName h2, h3⟩)
    (length_lt_of_connections hl') hl'
  have hlen : d.cities.length = (d.map.cities.map City.name).length := by
    rw [hnames, MapText.cityNames, List.length_map]
  unfold readMatrix
  rw [hbuffer, hlen, table_zero]
  dsimp only [readVar, bind, Except.bind]
  rw [if_pos ((hd.isName ha).ne_nil), hscan]
  dsimp only
  rw [show d.map.cities = citiesOf (namesOf d.cities) 0 d.cities from rfl, hread,
    citiesOf_map_name, MapText.adjacency, hc]
  rfl

end Described

/-- The part after the cities, when there are none. -/
theorem readMatrix_end {d : MapText} {r : Reader}
    (hstop : Stopped (endBuffer none d.cities) (connectionTokens d.connections) r)
    (hconn : d.connections = []) :
    readMatrix d.cities.length r d.map.cities =
      if endBuffer none d.cities = some [] then .ok d.adjacency else .error .uninitialised := by
  rw [hconn] at hstop
  obtain ⟨hbuffer, hl⟩ := hstop
  obtain ⟨stream, hscan, -⟩ := fscanf_end hl
  have hlen : d.cities.length = d.cityNames.length := by simp [MapText.cityNames]
  have hadj : d.adjacency = table d.cityNames (weightOf []) := by rw [← hconn]; rfl
  unfold readMatrix
  rw [hbuffer, hadj, hlen, table_zero]
  cases hend : endBuffer none d.cities with
  | none => rfl
  | some name =>
    dsimp only [readVar, bind, Except.bind]
    rw [hscan]
    by_cases h : name = [] <;> simp [h]

/-- **Reading back a map file.** On a text of a well-formed description `parseMap` gives the map it
describes exactly when a connection follows the cities, or the last of at least two cities lists no
stock. -/
theorem parseMap_layout {d : MapText} (hd : d.WellFormed) {text : List Char}
    (hl : Layout d.tokens text) :
    parseMap text = .ok d.map ↔
      d.connections ≠ [] ∨
        (2 ≤ d.cities.length ∧ ∀ c, d.cities.getLast? = some c → c.2 = []) := by
  obtain ⟨stream, r, hscan, hread, hproducts, hstop⟩ := readCities_text hd hl
  have hparse : parseMap text = (readMatrix d.cities.length r d.map.cities).map fun matrix =>
      { d.map with matrix := floydMatrix matrix d.cities.length } := by
    unfold parseMap
    rw [hscan]
    dsimp only [bind, Except.bind]
    rw [if_neg (by omega), Int.toNat_natCast, hread]
    dsimp only
    rw [hproducts]
    cases readMatrix d.cities.length r d.map.cities <;> rfl
  rw [hparse]
  by_cases hconn : d.connections = []
  · have hend := endBuffer_eq_nil hd.stocks hd.nonempty none
    rw [readMatrix_end hstop hconn]
    split_ifs with hbuffer
    · obtain ⟨hlast, hlen | hnone⟩ := hend.mp hbuffer
      · exact ⟨fun _ => .inr ⟨hlen, hlast⟩, fun _ => rfl⟩
      · cases hnone
    · refine ⟨fun h => (by cases h), ?_⟩
      rintro (h | ⟨hlen, hlast⟩)
      · exact absurd hconn h
      · exact absurd (hend.mpr ⟨hlast, .inl hlen⟩) hbuffer
  · rw [readMatrix_connections hd hstop hconn]
    exact ⟨fun _ => .inl hconn, fun _ => rfl⟩

/-- Two cities and the road between them. -/
def rosarioSalta : MapText where
  cities := [(['R', 'o', 's', 'a', 'r', 'i', 'o'], [(['A', 's', 'p', 'i'], 5)]),
    (['S', 'a', 'l', 't', 'a'], [])]
  connections := [(['S', 'a', 'l', 't', 'a'], ['R', 'o', 's', 'a', 'r', 'i', 'o'], 3)]

theorem isName_of {c : Char} {rest : List Char} (hc : c.isAlpha)
    (hs : (c :: rest).any isSpace = false) (hlen : (c :: rest).length < CITY_NAME_MAX_LENGTH) :
    IsName (c :: rest) :=
  ⟨⟨⟨c, rest, rfl, hc⟩, fun x hx => by simpa using List.any_eq_false.mp hs x hx⟩, hlen⟩

theorem isName_rosario : IsName ['R', 'o', 's', 'a', 'r', 'i', 'o'] :=
  isName_of (by decide) (by decide) (by decide)

theorem wellFormed_rosarioSalta : rosarioSalta.WellFormed := by
  have hsalta : IsName ['S', 'a', 'l', 't', 'a'] := isName_of (by decide) (by decide) (by decide)
  have haspi : IsName ['A', 's', 'p', 'i'] := isName_of (by decide) (by decide) (by decide)
  refine ⟨by simp [rosarioSalta], by decide, by decide, ?_, ?_, ?_⟩
  · simpa [rosarioSalta] using ⟨isName_rosario, hsalta⟩
  · simpa [rosarioSalta, IsStockList] using ⟨haspi, by decide⟩
  · simpa [rosarioSalta, MapText.cityNames] using (by decide : Fits 3)

theorem layout_rosarioSalta : Layout rosarioSalta.tokens
    ['2', '\n', 'R', 'o', 's', 'a', 'r', 'i', 'o', '\n', 'A', 's', 'p', 'i', '\n', '5', '\n',
      'S', 'a', 'l', 't', 'a', '\n', 'S', 'a', 'l', 't', 'a', '\n',
      'R', 'o', 's', 'a', 'r', 'i', 'o', '\n', '3', '\n'] := by
  have hsalta : IsName ['S', 'a', 'l', 't', 'a'] := isName_of (by decide) (by decide) (by decide)
  have haspi : IsName ['A', 's', 'p', 'i'] := isName_of (by decide) (by decide) (by decide)
  refine layout_lines (p := [(.num 2, ['2']), (.word _, ['R', 'o', 's', 'a', 'r', 'i', 'o']),
    (.word _, ['A', 's', 'p', 'i']), (.num 5, ['5']), (.word _, ['S', 'a', 'l', 't', 'a']),
    (.word _, ['S', 'a', 'l', 't', 'a']), (.word _, ['R', 'o', 's', 'a', 'r', 'i', 'o']),
    (.num 3, ['3'])]) ?_
  simpa using ⟨spells_digits (by decide), ⟨rfl, isName_rosario.1⟩, ⟨rfl, haspi.1⟩,
    spells_digits (by decide), ⟨rfl, hsalta.1⟩, ⟨rfl, isName_rosario.1⟩, spells_digits (by decide)⟩

theorem parseMap_rosarioSalta :
    parseMap
      ['2', '\n', 'R', 'o', 's', 'a', 'r', 'i', 'o', '\n', 'A', 's', 'p', 'i', '\n', '5', '\n',
        'S', 'a', 'l', 't', 'a', '\n', 'S', 'a', 'l', 't', 'a', '\n',
        'R', 'o', 's', 'a', 'r', 'i', 'o', '\n', '3', '\n'] = .ok rosarioSalta.map :=
  (parseMap_layout wellFormed_rosarioSalta layout_rosarioSalta).mpr (.inl (by simp [rosarioSalta]))

/-- A single city. -/
def rosario : MapText where
  cities := [(['R', 'o', 's', 'a', 'r', 'i', 'o'], [])]
  connections := []

/-- With a single city and no stock `buffer` is never written before it is compared. -/
theorem parseMap_rosario :
    rosario.WellFormed ∧
      Layout rosario.tokens ['1', '\n', 'R', 'o', 's', 'a', 'r', 'i', 'o', '\n'] ∧
      parseMap ['1', '\n', 'R', 'o', 's', 'a', 'r', 'i', 'o', '\n'] ≠ .ok rosario.map := by
  refine ⟨⟨by simp [rosario], by decide, by decide, ?_, ?_, ?_⟩, ?_, ?_⟩
  · simpa [rosario] using isName_rosario
  · simp [rosario, IsStockList]
  · simp [rosario]
  · refine layout_lines (p := [(.num 1, ['1']),
      (.word _, ['R', 'o', 's', 'a', 'r', 'i', 'o'])]) ?_
    simpa using ⟨spells_digits (by decide), ⟨rfl, isName_rosario.1⟩⟩
  · have h : parseMap ['1', '\n', 'R', 'o', 's', 'a', 'r', 'i', 'o', '\n'] =
        .error .uninitialised := by rfl
    rw [h]
    intro heq
    cases heq

end PlaneSim
