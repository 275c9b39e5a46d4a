import PlaneSim.Turn

/-!
# Unloading in any order

`Unloads.needs`: what a city still needs after some stocks have been unloaded there depends only on
how much was discharged on each of its entries, so it does not depend on the order of the stocks.
For the requests that `runMap` serves in a phase (`serveUnloads`) this is `serveUnloads_perm`: the
map afterwards, and what is left aboard in each city, are the same in every order.
-/

namespace PlaneSim

/-! ## What is discharged on each entry -/

/-- The amount that `stocks` bring to entry `j` of the city. -/
def load (city : List Stock) (j : ℕ) (stocks : List Stock) : Int :=
  (stocks.map fun p =>
    if searchCityStock p.product.id city 0 none = some j then p.amount else 0).sum

/-- The city after `stocks` have been unloaded. -/
def discharged (city stocks : List Stock) : List Stock :=
  city.mapIdx fun j c => { c with amount := max 0 (c.amount - load city j stocks) }

@[simp] theorem load_nil (city : List Stock) (j : ℕ) : load city j [] = 0 := rfl

@[simp] theorem load_cons (city : List Stock) (j : ℕ) (p : Stock) (rest : List Stock) :
    load city j (p :: rest) =
      (if searchCityStock p.product.id city 0 none = some j then p.amount else 0) +
        load city j rest := by
  simp [load]

theorem load_nonneg (city : List Stock) (j : ℕ) {stocks : List Stock} (h : Nonneg stocks) :
    0 ≤ load city j stocks := by
  apply List.sum_nonneg
  intro x hx
  obtain ⟨p, hp, rfl⟩ := List.mem_map.mp hx
  have := h p hp
  split <;> omega

/-- The order does not matter. -/
theorem load_perm (city : List Stock) (j : ℕ) {stocks stocks' : List Stock}
    (h : stocks'.Perm stocks) : load city j stocks' = load city j stocks :=
  (h.map _).sum_eq

/-- The search looks at the products only. -/
theorem searchCityStock_congr (id : Int) {city city' : List Stock}
    (h : city'.map (·.product) = city.map (·.product)) :
    ∀ j cur, searchCityStock id city' j cur = searchCityStock id city j cur := by
  induction city generalizing city' with
  | nil =>
    obtain rfl := List.map_eq_nil_iff.mp h
    exact fun _ _ => rfl
  | cons c rest ih =>
    cases city' with
    | nil => cases h
    | cons c' rest' =>
      obtain ⟨hc, hrest⟩ := List.cons_eq_cons.mp h
      have hc : c'.product = c.product := hc
      intro j cur
      rw [searchCityStock, searchCityStock, hc, ih hrest]

theorem load_congr {city city' : List Stock} (h : city'.map (·.product) = city.map (·.product))
    (j : ℕ) (stocks : List Stock) : load city' j stocks = load city j stocks := by
  unfold load
  congr 1
  apply List.map_congr_left
  intro p _
  rw [searchCityStock_congr _ h]

theorem discharge_fst {c p : Stock} (_ : 0 ≤ c.amount) (_ : 0 ≤ p.amount) :
    (discharge c p).1 = { c with amount := max 0 (c.amount - p.amount) } := by
  unfold discharge
  split
  · rw [max_eq_right (by omega)]
  · rw [max_eq_left (by omega)]

/-- **Closed form.** Each entry of the city loses what is discharged on it, down to zero. -/
theorem Unloads.needs {city stocks city' stocks' : List Stock}
    (h : Unloads city stocks city' stocks') (hc : Nonneg city) (hs : Nonneg stocks) :
    city' = discharged city stocks := by
  induction h with
  | nil city =>
    apply List.ext_getElem (by simp [discharged])
    intro k hk _
    have := hc _ (List.getElem_mem hk)
    simp [discharged, this]
  | @cons city rest city' rest' p c j search at_j tail ih =>
    have hp : 0 ≤ p.amount := hs p (by simp)
    have hrest : Nonneg rest := fun x hx => hs x (by simp [hx])
    have hstep := drained_discharge hc at_j hp
    have hload := fun k => load_congr hstep.products k rest
    rw [ih hstep.nonneg hrest]
    apply List.ext_getElem (by simp [discharged])
    intro k hk _
    rw [discharged, List.length_mapIdx, List.length_set] at hk
    have hck : 0 ≤ city[k].amount := hc _ (List.getElem_mem hk)
    have hl : 0 ≤ load city k rest := load_nonneg city k hrest
    simp only [discharged, List.getElem_mapIdx, hload, load_cons, search, Option.some.injEq]
    by_cases hjk : j = k
    · subst hjk
      obtain rfl : city[j] = c := Option.some.inj ((List.getElem?_eq_getElem hk).symm.trans at_j)
      rw [List.getElem_set_self, discharge_fst hck hp, if_pos rfl]
      dsimp only
      congr 1
      omega
    · rw [List.getElem_set_ne hjk, if_neg hjk, zero_add]

theorem discharged_perm (city : List Stock) {stocks stocks' : List Stock}
    (h : stocks'.Perm stocks) : discharged city stocks' = discharged city stocks := by
  unfold discharged
  congr 1
  funext j c
  rw [load_perm city j h]

/-- One list after the other. -/
theorem Unloads.append {city stocks city1 stocks1 : List Stock}
    (h : Unloads city stocks city1 stocks1) {more city2 more2 : List Stock}
    (h' : Unloads city1 more city2 more2) : Unloads city (stocks ++ more) city2 (stocks1 ++ more2) := by
  induction h with
  | nil => exact h'
  | cons search at_j tail ih => exact .cons search at_j (ih h')

/-! ## The requests of a phase -/

/-- The unload branch of phase 1, request after request: the map afterwards, and the replies with
the connections they are written to. -/
def serveUnloads (map : Map) : List StockStateMessage → Option (Map × List (Int × MapMessage))
  | [] => some (map, [])
  | msg :: rest => do
    let (map, airline, reply) ← serveUnload map msg
    let (map, replies) ← serveUnloads map rest
    pure (map, (airline, reply) :: replies)

/-- A request to unload in city `c`, as a plane marshals it: there are `n` cities. -/
structure UnloadRequest (product : List Product) (n : ℕ) (msg : StockStateMessage) (c : ℕ)
    (stocks : List Stock) : Prop where
  packable : Packable product stocks
  nonneg : Nonneg stocks
  city : msg.header.cityId = c
  city_lt : c < n
  part : msg.stocks = packed stocks

/-- It is the message `marshall_change_stock` builds. -/
theorem UnloadRequest.eq_stockReply {product : List Product} {n : ℕ} {msg : StockStateMessage}
    {c : ℕ} {stocks : List Stock} (h : UnloadRequest product n msg c stocks) :
    msg = stockReply msg.header.airline msg.header.id c stocks := by
  obtain ⟨-, -, hcity, -, hpart⟩ := h
  obtain ⟨⟨airline, id, cityId⟩, part⟩ := msg
  dsimp only at hcity hpart
  rw [hcity, hpart]
  rfl

/-- What is left aboard a plane that unloaded in city `c`. -/
def MapMessage.leftIn (c : ℕ) : MapMessage → Int
  | .stock msg =>
    if msg.header.cityId = c then ((loadPrefix msg.stocks.quantities msg.stocks.count).getD []).sum
    else 0
  | _ => 0

/-- What is left aboard all planes that unloaded in city `c`. -/
def leftAboard (c : ℕ) (replies : List (Int × MapMessage)) : Int :=
  (replies.map fun reply => reply.2.leftIn c).sum

theorem leftIn_stockReply (c k : ℕ) (airline id : Int) (stocks : List Stock) :
    (MapMessage.stock (stockReply airline id k stocks)).leftIn c =
      if k = c then total stocks else 0 := by
  have hload : loadPrefix (packed stocks).quantities (packed stocks).count =
      some (stocks.map (·.amount)) := by
    have := loadPrefix_store (stocks.map (·.amount)) le_rfl
      (List.replicate (MAX_STOCKS - stocks.length) none)
    rw [List.take_length, List.length_map] at this
    exact this
  simp only [MapMessage.leftIn, stockReply, Nat.cast_inj, hload, Option.getD_some]
  rfl

/-- The stocks of the requests for city `c`, one list after the other. -/
def stocksFor (c : ℕ) (requests : List (ℕ × List Stock)) : List Stock :=
  requests.flatMap fun request => if request.1 = c then request.2 else []

theorem stocksFor_nonneg {c : ℕ} {requests : List (ℕ × List Stock)}
    (h : ∀ r ∈ requests, Nonneg r.2) : Nonneg (stocksFor c requests) := by
  intro s hs
  obtain ⟨r, hr, hs⟩ := List.mem_flatMap.mp hs
  split at hs
  · exact h r hr s hs
  · cases hs

/-- Serving all requests unloads the stocks of each city's requests there, one after the other. -/
theorem serveUnloads_spec {product : List Product} {n : ℕ} {msgs : List StockStateMessage}
    {requests : List (ℕ × List Stock)} (hw : WellFormed product)
    (hreq : List.Forall₂ (fun msg r => UnloadRequest product n msg r.1 r.2) msgs requests) :
    ∀ map : Map, map.product = product → map.cities.length = n → Listing map →
      (∀ city ∈ map.cities, Nonneg city.stock) →
        ∃ map' replies, serveUnloads map msgs = some (map', replies) ∧
          map'.product = map.product ∧ map'.matrix = map.matrix ∧
          map'.cities.length = map.cities.length ∧
          ∀ c city, map.cities[c]? = some city → ∃ needs left,
            Unloads city.stock (stocksFor c requests) needs left ∧
            map'.cities[c]? = some { city with stock := needs } ∧
            leftAboard c replies = total left := by
  induction hreq with
  | nil =>
    intro map _ _ _ _
    exact ⟨map, [], rfl, rfl, rfl, rfl, fun c city hc => ⟨_, _, .nil _, hc, rfl⟩⟩
  | @cons msg r msgs requests hr hreqs ih =>
    intro map hproduct hn hlist hneeds
    obtain ⟨k, stocks⟩ := r
    have hlt : k < map.cities.length := by rw [hn]; exact hr.city_lt
    have hget : map.cities[k]? = some map.cities[k] := List.getElem?_eq_getElem hlt
    generalize map.cities[k] = cityK at hget
    have hmem := List.mem_of_getElem? hget
    obtain ⟨needsK, leftK, hun⟩ := exists_unloads stocks (hlist cityK hmem)
    obtain ⟨hdc, -⟩ := drained_unloads hun (hneeds cityK hmem) hr.nonneg
    have hserve : serveUnload map msg = some (map.setNeeds k cityK needsK, msg.header.airline,
        .stock (stockReply msg.header.airline msg.header.id k leftK)) := by
      rw [hr.eq_stockReply]
      exact serveUnload_eq (by rw [hproduct]; exact hw) (by rw [hproduct]; exact hr.packable)
        (by rw [getFromVector_natCast, hget]) hun
    have hmem' : ∀ city ∈ (map.setNeeds k cityK needsK).cities,
        city ∈ map.cities ∨ city = { cityK with stock := needsK } :=
      fun city hc => List.mem_or_eq_of_mem_set hc
    obtain ⟨map', replies, hrest, h1, h2, h3, hcities⟩ := ih (map.setNeeds k cityK needsK) hproduct
      (by rw [Map.setNeeds, List.length_set, hn])
      (fun city hc => (hmem' city hc).elim (hlist city) fun h => by
        rw [h]; exact hdc.ne_nil (hlist cityK hmem))
      (fun city hc => (hmem' city hc).elim (hneeds city) fun h => by rw [h]; exact hdc.nonneg)
    refine ⟨map', (msg.header.airline, .stock (stockReply msg.header.airline msg.header.id k leftK))
      :: replies, ?_, h1, h2, h3.trans List.length_set, ?_⟩
    · simp only [serveUnloads, hserve, Option.bind_eq_bind, Option.bind_some, hrest]
      rfl
    · intro c city hc
      have hsum : leftAboard c ((msg.header.airline,
          .stock (stockReply msg.header.airline msg.header.id k leftK)) :: replies) =
            (if k = c then total leftK else 0) + leftAboard c replies := by
        rw [leftAboard, List.map_cons, List.sum_cons, leftIn_stockReply]
        rfl
      rw [hsum]
      by_cases hk : k = c
      · subst hk
        obtain rfl : cityK = city := Option.some.inj (hget.symm.trans hc)
        obtain ⟨needs, left, hun', hc', hleft⟩ := hcities k { cityK with stock := needsK }
          (List.getElem?_set_self (List.getElem?_eq_some_iff.mp hget).1)
        refine ⟨needs, leftK ++ left, ?_, hc', ?_⟩
        · rw [stocksFor, List.flatMap_cons, if_pos rfl]
          exact hun.append hun'
        · rw [if_pos rfl, hleft, total, total, total, List.map_append, List.sum_append]
      · obtain ⟨needs, left, hun', hc', hleft⟩ := hcities c city
          ((List.getElem?_set_ne hk).trans hc)
        refine ⟨needs, left, ?_, hc', ?_⟩
        · rw [stocksFor, List.flatMap_cons, if_neg hk]
          exact hun'
        · rw [if_neg hk, zero_add, hleft]

/-- **Phase 1 is order-independent for the map.** -/
theorem serveUnloads_perm {map : Map} (hw : WellFormed map.product) (hlist : Listing map)
    (hneeds : ∀ city ∈ map.cities, Nonneg city.stock) {msgs msgs' : List StockStateMessage}
    (hreq : ∀ msg ∈ msgs, ∃ c stocks, UnloadRequest map.product map.cities.length msg c stocks)
    (hperm : msgs'.Perm msgs) :
    ∃ after replies replies', serveUnloads map msgs = some (after, replies) ∧
      serveUnloads map msgs' = some (after, replies') ∧
      ∀ c < map.cities.length, leftAboard c replies' = leftAboard c replies := by
  choose! f g hfg using hreq
  have hall : ∀ l : List StockStateMessage, (∀ msg ∈ l, msg ∈ msgs) →
      List.Forall₂ (fun msg r => UnloadRequest map.product map.cities.length msg r.1 r.2) l
        (l.map fun msg => (f msg, g msg)) := by
    intro l hl
    rw [List.forall₂_map_right_iff, List.forall₂_same]
    exact fun msg hmsg => hfg msg (hl msg hmsg)
  have hnn : ∀ r ∈ msgs.map fun msg => (f msg, g msg), Nonneg r.2 := by
    intro r hr
    obtain ⟨msg, hmsg, rfl⟩ := List.mem_map.mp hr
    exact (hfg msg hmsg).nonneg
  obtain ⟨after, replies, hserve, h1, h2, h3, hcities⟩ :=
    serveUnloads_spec hw (hall msgs fun _ h => h) map rfl rfl hlist hneeds
  obtain ⟨after', replies', hserve', h1', h2', h3', hcities'⟩ :=
    serveUnloads_spec hw (hall msgs' fun _ h => hperm.mem_iff.mp h) map rfl rfl hlist hneeds
  have hstocks : ∀ c, (stocksFor c (msgs'.map fun msg => (f msg, g msg))).Perm
      (stocksFor c (msgs.map fun msg => (f msg, g msg))) :=
    fun c => (hperm.map _).flatMap_right _
  have hboth : ∀ c city, map.cities[c]? = some city →
      after'.cities[c]? = after.cities[c]? ∧ leftAboard c replies' = leftAboard c replies := by
    intro c city hc
    have hcity := hneeds city (List.mem_of_getElem? hc)
    obtain ⟨needs, left, hun, hat, hleft⟩ := hcities c city hc
    obtain ⟨needs', left', hun', hat', hleft'⟩ := hcities' c city hc
    have hneeds' : needs' = needs := by
      rw [hun'.needs hcity fun s hs => stocksFor_nonneg hnn s ((hstocks c).mem_iff.mp hs),
        hun.needs hcity (stocksFor_nonneg hnn), discharged_perm city.stock (hstocks c)]
    have htotal : total (stocksFor c (msgs'.map fun msg => (f msg, g msg))) =
        total (stocksFor c (msgs.map fun msg => (f msg, g msg))) := ((hstocks c).map _).sum_eq
    have hbal := total_unloads hun
    have hbal' := total_unloads hun'
    refine ⟨by rw [hat, hat', hneeds'], ?_⟩
    rw [hneeds'] at hbal'
    omega
  have hsame : after' = after := by
    have hlist' : after'.cities = after.cities := by
      apply List.ext_getElem?
      intro c
      cases hc : map.cities[c]? with
      | some city => exact (hboth c city hc).1
      | none =>
        rw [List.getElem?_eq_none_iff] at hc
        rw [List.getElem?_eq_none (by omega), List.getElem?_eq_none (by omega)]
    obtain ⟨cities, product, matrix⟩ := after
    obtain ⟨cities', product', matrix'⟩ := after'
    dsimp only at h1 h2 h1' h2' hlist'
    rw [h1, h2, h1', h2', hlist']
  rw [hsame] at hserve'
  exact ⟨after, replies, replies', hserve, hserve',
    fun c hc => (hboth c _ (List.getElem?_eq_getElem hc)).2⟩

/-- Two planes with more than the one city needs, and not of what it needs only. -/
theorem serveUnloads_perm_paraCity :
    let few := stockReply 0 1 ((0 : ℕ) : Int) [{ amount := 2, product := aspi }]
    let many := stockReply 1 3 ((0 : ℕ) : Int)
      [{ amount := 1, product := aspi }, { amount := 4, product := para }]
    ∃ after replies replies', serveUnloads paraCity [few, many] = some (after, replies) ∧
      serveUnloads paraCity [many, few] = some (after, replies') ∧
      ∀ c < 1, leftAboard c replies' = leftAboard c replies := by
  intro few many
  refine @serveUnloads_perm paraCity ?_ ?_ ?_ [few, many] [many, few] ?_ (List.Perm.swap _ _ _)
  · have htable : productTable [['A', 's', 'p', 'i'], ['P', 'a', 'r', 'a']] =
      some paraCity.product := by decide
    exact wellFormed_productTable htable
  · intro city hc
    obtain rfl := List.mem_singleton.mp hc
    simp
  · intro city hc
    obtain rfl := List.mem_singleton.mp hc
    unfold Nonneg
    decide
  · have hpack : ∀ stocks : List Stock, stocks.length ≤ 2 →
        (∀ s ∈ stocks, s.product = aspi ∨ s.product = para) → Packable paraCity.product stocks :=
      fun stocks hlen hmem => ⟨hlen.trans (by decide), fun s hs => by
        rcases hmem s hs with h | h <;> simp [h, paraCity], fun s hs => by
        rcases hmem s hs with h | h <;> simp [h, aspi, para, CITY_NAME_MAX_LENGTH]⟩
    intro msg hmsg
    rcases List.mem_cons.mp hmsg with rfl | hmsg
    · exact ⟨0, _, hpack _ (by decide) (by simp), by unfold Nonneg; decide, rfl, by decide, rfl⟩
    · obtain rfl := List.mem_singleton.mp hmsg
      exact ⟨0, _, hpack _ (by decide) (by simp), by unfold Nonneg; decide, rfl, by decide, rfl⟩

end PlaneSim
