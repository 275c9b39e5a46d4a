import PlaneSim.MapFile

/-!
# Reading an airline file

An `AirlineText` describes an airline file; `AirlineText.airline` and `AirlineText.table` are what
it stands for next to a parsed map. The plane loop follows the city loop of a map file: the header
of a plane is the name of its home city, swallowed by the stock loop of the plane before
(`readPlanes_layout`). `parseAirlines_layout` puts it together.
-/

namespace PlaneSim

open Scanf CInt

/-- The planes: home city and stock list. -/
structure AirlineText where
  planes : List (Name × List (Name × Int))

namespace AirlineText

def tokens (d : AirlineText) : List Token := .num d.planes.length :: cityTokens d.planes

structure WellFormed (d : AirlineText) (map : Map) : Prop where
  count : Fits d.planes.length
  home : ∀ p ∈ d.planes, IsName p.1 ∧ p.1 ∈ map.cities.map City.name
  stocks : ∀ p ∈ d.planes, IsStockList p.2

/-- The names asked for once this file has been read. -/
def seen (d : AirlineText) (map : Map) : List Name :=
  map.product.map Product.name ++ namesOf d.planes

end AirlineText

/-- The described planes, with ids from `start` on. -/
def planesOf (cities : List City) (seen : List Name) (start : ℕ)
    (planes : List (Name × List (Name × Int))) : List Plane :=
  (planes.zipIdx start).map fun p =>
    { id := p.2, stocks := stocksOf seen p.1.2
      cityId := (cities.map City.name).idxOf p.1.1, distance := 0 }

namespace AirlineText

/-- The airline the file describes. -/
def airline (d : AirlineText) (map : Map) : Airline where
  id := 0
  planes := planesOf map.cities (d.seen map) 0 d.planes

/-- The product table it leaves. -/
def table (d : AirlineText) (map : Map) : List Product := tableOf (d.seen map)

end AirlineText

/-- **The plane loop.** Once the home city of the next plane is known, the described planes are
read in order. -/
theorem readPlanes_layout {cities : List City} (hids : Numbered cities)
    (rest : List (Name × List (Name × Int)))
    (hrest : ∀ p ∈ rest, IsName p.1 ∧ p.1 ∈ cities.map City.name ∧ IsStockList p.2) :
    ∀ (p : Name × List (Name × Int)) (first : Bool) (city : Option Name) (r r1 : Reader)
      (done : List Plane) (seen : List Name),
      p.1 ∈ cities.map City.name → IsStockList p.2 →
      planeCity first city r = .ok (some p.1, r1) → r1.products = tableOf seen →
      Layout (stockTokens p.2 ++ cityTokens rest) r1.stream →
      ∃ r', readPlanes cities (rest.length + 1) first city r done =
          .ok (r', done ++ planesOf cities (seen ++ namesOf (p :: rest)) done.length (p :: rest)) ∧
        r'.products = tableOf (seen ++ namesOf (p :: rest)) := by
  induction rest with
  | nil =>
    intro p first city r r1 done seen hhome hp hname htable hl
    obtain ⟨r', hread, hproducts, -⟩ :=
      readStocks_layout hp (by trivial) (length_lt_of_layout hl) htable hl
    have hseen : seen ++ namesOf [p] = seen ++ p.2.map Prod.fst := by simp [namesOf]
    refine ⟨r', ?_, by rw [hseen, hproducts]⟩
    rw [List.length_nil, Nat.zero_add, readPlanes, hname, hseen]
    dsimp only [bind, Except.bind, readVar]
    rw [hread, getCityId_eq_idxOf hids hhome]
    simp [stopState, cityTokens, readPlanes, planesOf]
  | cons p2 rest ih =>
    intro p first city r r1 done seen hhome hp hname htable hl
    obtain ⟨hname2, hhome2, hp2⟩ := hrest p2 (by simp)
    -- the stock loop runs into the home city of the next plane
    have hheader : AtHeader (.word p2.1 :: (stockTokens p2.2 ++ cityTokens rest)) := by
      refine ⟨hname2, noNumber_stockTokens _ ?_⟩
      have hend : NoNumber [] := fun n rest h => (by cases h)
      simpa using noNumber_cityTokens rest hend
    have htokens : cityTokens (p2 :: rest) =
        .word p2.1 :: (stockTokens p2.2 ++ cityTokens rest) := by
      simp [cityTokens]
    rw [htokens] at hl
    obtain ⟨r2, hread, hproducts, hbuffer, hl2⟩ :=
      readStocks_layout hp hheader (length_lt_of_layout hl) htable hl
    obtain ⟨r', hrec, hproducts'⟩ := ih (fun p hp => hrest p (by simp [hp])) p2 false
      (some p2.1) r2 r2
      (done ++ [{ id := done.length, stocks := stocksOf (seen ++ p.2.map Prod.fst) p.2
                  cityId := (cities.map City.name).idxOf p.1, distance := 0 }])
      (seen ++ p.2.map Prod.fst) hhome2 hp2 rfl hproducts hl2
    have hseen : seen ++ p.2.map Prod.fst ++ namesOf (p2 :: rest) =
        seen ++ namesOf (p :: p2 :: rest) := by simp [namesOf]
    have hstocks : stocksOf (seen ++ p.2.map Prod.fst) p.2 =
        stocksOf (seen ++ namesOf (p :: p2 :: rest)) p.2 := by
      rw [← hseen]
      exact (stocksOf_append (fun s hs => by simp [List.mem_map_of_mem hs]) _).symm
    refine ⟨r', ?_, by rw [← hseen, hproducts']⟩
    rw [List.length_cons, readPlanes, hname]
    dsimp only [bind, Except.bind, readVar]
    rw [hread, getCityId_eq_idxOf hids hhome]
    simp only [stopState, List.cons_ne_nil, if_false, if_true, List.nil_append, hbuffer, hrec,
      hseen]
    simp [planesOf, hstocks]

/-- `"%u"` on the number of planes. -/
theorem scanCount_layout {n : ℕ} {ts : List Token} {cs : List Char}
    (hl : Layout (.num n :: ts) cs) (hn : Fits n) :
    ∃ cs', scanCount cs = .ok (n, cs') ∧ Layout ts cs' := by
  have ht : tokScan [.int] (.num n :: ts) = some ([.int n], false, ts) := rfl
  obtain ⟨cs', hscan, hl'⟩ := scan_layout hl ht
  refine ⟨cs', ?_, hl'⟩
  unfold Fits INT_MAX at hn
  unfold scanCount
  rw [hscan]
  dsimp only
  rw [if_pos (by omega)]
  congr 2
  omega

/-- **Reading back an airline file.** On a text of a well-formed description `parseAirlines` gives
the airline it describes and extends the product table by the new names; the stocks read before keep
their products. -/
theorem parseAirlines_layout {map : Map} {airlines : List Airline} (hm : Parsed map airlines)
    {d : AirlineText} (hd : d.WellFormed map) {text : List Char} (hl : Layout d.tokens text) :
    parseAirlines text map = .ok (d.airline map, { map with product := d.table map }) ∧
      map.product <+: d.table map ∧
      (d.table map).map Product.name =
        map.product.map Product.name ++
          ((namesOf d.planes).filter (· ∉ map.product.map Product.name)).eraseDups ∧
      ∀ stock : Stock,
        ((∃ city ∈ map.cities, stock ∈ city.stock) ∨
          (∃ airline ∈ airlines, ∃ plane ∈ airline.planes, stock ∈ plane.stocks)) →
        getFromVector (d.table map) stock.product.id = some stock.product ∧
          getProductId stock.product.name (d.table map) = stock.product.id := by
  have hsound := hm.sound
  have htable : map.product = tableOf (map.product.map Product.name) := hsound.table.wellFormed.eq_tableOf
  have hprefix : map.product <+: d.table map := by
    have := tableOf_prefix (map.product.map Product.name) (namesOf d.planes)
    rwa [← htable] at this
  refine ⟨?_, hprefix, ?_, fun stock hstock => ?_⟩
  · obtain ⟨stream, hcount, hl1⟩ := scanCount_layout hl hd.count
    unfold parseAirlines
    rw [hcount]
    dsimp only [bind, Except.bind]
    cases hplanes : d.planes with
    | nil =>
      have hseen : d.seen map = map.product.map Product.name := by
        simp [AirlineText.seen, hplanes, namesOf]
      simp [readPlanes, AirlineText.airline, AirlineText.table, hseen, hplanes, planesOf, ← htable]
      rfl
    | cons p rest =>
      have hhome : ∀ q ∈ p :: rest,
          IsName q.1 ∧ q.1 ∈ map.cities.map City.name ∧ IsStockList q.2 := by
        rw [← hplanes]
        exact fun q hq => ⟨(hd.home q hq).1, (hd.home q hq).2, hd.stocks q hq⟩
      obtain ⟨hname, hmem, hlist⟩ := hhome p (by simp)
      have htokens : cityTokens d.planes = .word p.1 :: (stockTokens p.2 ++ cityTokens rest) := by
        simp [hplanes, cityTokens]
      rw [htokens] at hl1
      obtain ⟨stream2, hscan, hl2⟩ := fscanf_name hl1 hname
      obtain ⟨r', hread, hproducts⟩ := readPlanes_layout hsound.numbered rest
        (fun q hq => hhome q (by simp [hq])) p true none
        { stream := stream, buffer := none, aux := none, products := map.product }
        { stream := stream2, buffer := none, aux := none, products := map.product } []
        (map.product.map Product.name) hmem hlist
        (by simp [planeCity, hscan, bind, Except.bind]) htable hl2
      rw [List.length_cons, hread]
      simp only [hproducts, AirlineText.airline, AirlineText.table, AirlineText.seen, hplanes]
      rfl
  · unfold AirlineText.table AirlineText.seen
    rw [tableOf_map_name, List.eraseDups_append, eraseDups_of_nodup hsound.table.wellFormed.nodup]
    congr 2
    unfold List.removeAll
    refine List.filter_congr fun name _ => ?_
    rw [Bool.eq_iff_iff]
    simp
  · have hmem : stock.product ∈ d.table map := by
      refine hprefix.subset ?_
      rcases hstock with ⟨city, hc, hs⟩ | ⟨airline, ha, plane, hp, hs⟩
      · exact hsound.city city hc stock hs
      · exact hsound.plane airline ha plane hp stock hs
    have hw : WellFormed (d.table map) := wellFormed_tableOf _
    obtain ⟨i, hi, hget⟩ := hw.getElem_of_mem hmem
    exact ⟨by rw [hi, getFromVector_natCast, hget], getProductId_of_mem hw hmem⟩

/-- Two cities that list nothing and no road. -/
def bareMap : Map where
  cities := [{ name := ['R', 'o', 's', 'a', 'r', 'i', 'o'], id := 0, stock := [] },
    { name := ['S', 'a', 'l', 't', 'a'], id := 1, stock := [] }]
  product := []
  matrix := [[0, 0], [0, 0]]

/-- Two planes at home in Rosario, the second one empty. -/
def twoPlanes : AirlineText where
  planes := [(['R', 'o', 's', 'a', 'r', 'i', 'o'], [(['A', 's', 'p', 'i'], 5)]),
    (['R', 'o', 's', 'a', 'r', 'i', 'o'], [])]

theorem parsed_bareMap : Parsed bareMap [] := by
  have h : parseMap ['2', '\n', 'R', 'o', 's', 'a', 'r', 'i', 'o', '\n',
      'S', 'a', 'l', 't', 'a', '\n'] = .ok bareMap := by rfl
  exact .map h

theorem wellFormed_twoPlanes : twoPlanes.WellFormed bareMap := by
  have haspi : IsName ['A', 's', 'p', 'i'] := isName_of (by decide) (by decide) (by decide)
  refine ⟨by decide, ?_, ?_⟩
  · simpa [twoPlanes, bareMap] using isName_rosario
  · simpa [twoPlanes, IsStockList] using ⟨haspi, by decide⟩

theorem layout_twoPlanes : Layout twoPlanes.tokens
    ['2', '\n', 'R', 'o', 's', 'a', 'r', 'i', 'o', '\n', 'A', 's', 'p', 'i', '\n', '5', '\n',
      'R', 'o', 's', 'a', 'r', 'i', 'o', '\n'] := by
  have haspi : IsName ['A', 's', 'p', 'i'] := isName_of (by decide) (by decide) (by decide)
  refine layout_lines (p := [(.num 2, ['2']), (.word _, ['R', 'o', 's', 'a', 'r', 'i', 'o']),
    (.word _, ['A', 's', 'p', 'i']), (.num 5, ['5']),
    (.word _, ['R', 'o', 's', 'a', 'r', 'i', 'o'])]) ?_
  simpa using ⟨spells_digits (by decide), ⟨rfl, isName_rosario.1⟩, ⟨rfl, haspi.1⟩,
    spells_digits (by decide), ⟨rfl, isName_rosario.1⟩⟩

theorem parseAirlines_twoPlanes :
    parseAirlines
      ['2', '\n', 'R', 'o', 's', 'a', 'r', 'i', 'o', '\n', 'A', 's', 'p', 'i', '\n', '5', '\n',
        'R', 'o', 's', 'a', 'r', 'i', 'o', '\n'] bareMap =
      .ok (twoPlanes.airline bareMap, { bareMap with product := twoPlanes.table bareMap }) :=
  (parseAirlines_layout parsed_bareMap wellFormed_twoPlanes layout_twoPlanes).1

end PlaneSim
