import PlaneSim.Destinations

/-!
# Requests and replies

What the map does with one request (`serveUnload`, `serveDestinations`), how an airline hands the
reply on (`redirect`), and what the plane does with it (`unloadStock`, `takeDestinations`).

`unload_exchange`: through all of this the plane's own stock becomes exactly the map's copy.
-/

namespace PlaneSim

/-! ## The map -/

/-- `comm_unloaded_stock`: the message it writes to the airline's connection. -/
def commUnloadedStock (airlineID : Int) (plane : Plane) : Option MapMessage :=
  (marshallChangeStock airlineID plane.id plane.cityId plane.stocks).map .stock

/-- The unload branch of phase 1: the map afterwards, the connection and the reply. -/
def serveUnload (map : Map) (msg : StockStateMessage) : Option (Map × Int × MapMessage) := do
  let airlineId := msg.header.airline
  let (plane, map) ← initPlane msg.stocks msg.header map
  let (map, plane) ← updateMap map plane
  let reply ← commUnloadedStock airlineId plane
  pure (map, airlineId, reply)

/-- The destinations branch of phase 2. -/
def serveDestinations (qsort : Qsort) (map : Map) (msg : CheckDestinationsMessage) :
    Option (Map × Int × MapMessage) := do
  let airlineId := msg.header.airline
  let (plane, map) ← initPlane msg.stocks msg.header map
  let reply ← appGiveDestinations qsort map plane
  pure (map, airlineId, .destinations reply)

/-! ## The airline -/

/-- `redirect_stock_message`: the thread it looks up and the message it pushes. -/
def redirectStockMessage (msg : StockStateMessage) : Int × Message :=
  (msg.header.id, .stock msg.stocks.count msg.stocks.quantities)

/-- `redirect_destinations_message`. -/
def redirectDestinationsMessage (msg : DestinationsMessage) : Int × Message :=
  (msg.planeId, .destinations msg.count msg.destinations msg.distance)

/-- The two redirections of `listen`. -/
def redirect : MapMessage → Option (Int × Message)
  | .stock msg => some (redirectStockMessage msg)
  | .destinations msg => some (redirectDestinationsMessage msg)
  | .start _ => none
  | .finish => none

/-! ## The plane -/

/-- The loop of `unload_stock` over the plane's list and `stockDelta`: the list it leaves and
`done`, or no `done` where it returned `-1`. Past the end of `stockDelta` nothing was written. -/
def storeLoop : List Stock → List Int → Option (List Stock × Option Bool)
  | [], _ => some ([], some true)
  | _ :: _, [] => none
  | stock :: rest, delta :: deltas =>
    if delta < 0 then some ({ stock with amount := delta } :: rest, none)
    else do
      let (rest', done) ← storeLoop rest deltas
      pure ({ stock with amount := delta } :: rest', done.map fun done => done && !(delta > 0))

/-- `unload_stock` once the reply is there; `stockDelta` has one entry per stock. -/
def unloadStock (plane : Plane) (count : ℕ) (delta : List (Option Int)) :
    Option (Plane × Option Bool) := do
  guard (count ≤ plane.stocks.length)
  let stockDelta ← loadPrefix delta count
  let (stocks, done) ← storeLoop plane.stocks stockDelta
  pure ({ plane with stocks := stocks }, done)

/-- `comm_check_destinations` once the reply is there: at most `len` destinations and distances. -/
def takeDestinations (len count : ℕ) (destinations distances : List (Option Int)) :
    Option (List Int × List Int) := do
  let len := min len count
  let destinations ← loadPrefix destinations len
  let distances ← loadPrefix distances len
  pure (destinations, distances)

/-! ## Serving an unload -/

theorem marshallChangeStock_eq {stocks : List Stock} (h : stocks.length ≤ MAX_STOCKS)
    (airline id cityId : Int) :
    marshallChangeStock airline id cityId stocks =
      some { header := { airline := airline, id := id, cityId := cityId },
             stocks := packed stocks } := by
  unfold marshallChangeStock
  rw [marshallStocks_eq h]
  rfl

theorem marshallCheckDestinations_eq {stocks : List Stock} (h : stocks.length ≤ MAX_STOCKS)
    (airline id cityId : Int) (len : ℕ) :
    marshallCheckDestinations airline id cityId stocks len =
      some { header := { airline := airline, id := id, cityId := cityId },
             maxDestinations := len, stocks := packed stocks } := by
  unfold marshallCheckDestinations
  rw [marshallStocks_eq h]
  rfl

/-- `updateMap` changes the needs of one city and the stock of one plane. -/
theorem updateMap_eq {map : Map} (plane : Plane) {city : City} {needs stocks : List Stock}
    (hcity : getFromVector map.cities plane.cityId = some city)
    (h : Unloads city.stock plane.stocks needs stocks) :
    updateMap map plane =
      some ({ map with cities := map.cities.set plane.cityId.toNat { city with stock := needs } },
            { plane with stocks := stocks }) := by
  unfold updateMap
  rw [hcity, Option.bind_eq_bind, Option.bind_some, unloadStocks_iff.mpr h]
  rfl

/-- A list that only lost amounts is still one a message can carry. -/
theorem Packable.drained {product : List Product} {stocks stocks' : List Stock}
    (h : Packable product stocks) (hd : Drained stocks stocks') : Packable product stocks' := by
  refine ⟨by rw [← hd.length_eq]; exact h.length_le, fun t ht => ?_, fun t ht => ?_⟩
  · obtain ⟨s, hs, hp, -⟩ := hd.exists_of_mem ht
    rw [hp]; exact h.mem s hs
  · obtain ⟨s, hs, hp, -⟩ := hd.exists_of_mem ht
    rw [hp]; exact h.name_lt s hs

/-- The reply that carries `stocks`. -/
def stockReply (airline id cityId : Int) (stocks : List Stock) : StockStateMessage :=
  { header := { airline := airline, id := id, cityId := cityId }, stocks := packed stocks }

/-- **Serving an unload.** The map rebuilds the plane, unloads it and answers with what is left. -/
theorem serveUnload_eq {map : Map} (hw : WellFormed map.product) {airline id cityId : Int}
    {stocks : List Stock} (hp : Packable map.product stocks) {city : City}
    (hcity : getFromVector map.cities cityId = some city) {needs stocks' : List Stock}
    (h : Unloads city.stock stocks needs stocks') :
    serveUnload map (stockReply airline id cityId stocks) =
      some ({ map with cities := map.cities.set cityId.toNat { city with stock := needs } },
            airline, .stock (stockReply airline id cityId stocks')) := by
  have hlen : stocks'.length ≤ MAX_STOCKS := by rw [h.length_eq]; exact hp.length_le
  unfold serveUnload stockReply
  dsimp only
  rw [initPlane_packed hw hp, Option.bind_eq_bind, Option.bind_some,
    updateMap_eq { id := id, stocks := stocks, cityId := cityId, distance := 0 } hcity h]
  simp only [Option.bind_eq_bind, Option.bind_some, commUnloadedStock,
    marshallChangeStock_eq hlen, Option.map_some]
  rfl

/-! ## Storing the reply -/

theorem storeLoop_spec {old new : List Stock} (h : Drained old new) :
    storeLoop old (new.map (·.amount)) = some (new, some (new.all fun s => !(s.amount > 0))) := by
  induction h with
  | nil => rfl
  | @cons s t _ _ hst _ ih =>
    obtain ⟨ta, tp⟩ := t
    obtain ⟨hprod, h0, -⟩ := hst
    dsimp only at hprod h0
    rw [List.map_cons, storeLoop, if_neg (by dsimp only; omega), ih]
    simp [hprod, Bool.and_comm]

/-- All amounts are zero. -/
def Emptied (stocks : List Stock) : Prop := ∀ s ∈ stocks, s.amount = 0

instance (stocks : List Stock) : Decidable (Emptied stocks) := by
  unfold Emptied; infer_instance

/-- **Storing.** The plane's own list becomes the map's copy, and `done` says whether it is
empty. -/
theorem unloadStock_packed {plane : Plane} {stocks : List Stock}
    (hd : Drained plane.stocks stocks) :
    unloadStock plane (packed stocks).count (packed stocks).quantities =
      some ({ plane with stocks := stocks }, some (decide (Emptied stocks))) := by
  have hcount : (packed stocks).count = (stocks.map (·.amount)).length := by simp [packed]
  have hload : loadPrefix (packed stocks).quantities (packed stocks).count =
      some (stocks.map (·.amount)) := by
    rw [hcount]
    have := loadPrefix_store (stocks.map (·.amount)) le_rfl
      (List.replicate (MAX_STOCKS - stocks.length) none)
    rwa [List.take_length] at this
  have hall : (stocks.all fun s => !(s.amount > 0)) = decide (Emptied stocks) := by
    rw [Bool.eq_iff_iff, List.all_eq_true, decide_eq_true_iff]
    refine forall₂_congr fun s hs => ?_
    have := hd.nonneg s hs
    simp only [Bool.not_eq_true', decide_eq_false_iff_not]
    omega
  unfold unloadStock
  rw [hload, show (packed stocks).count = stocks.length from rfl, ← hd.length_eq]
  simp [storeLoop_spec hd, hall]

/-! ## The whole exchange -/

/-- Writing to connection or thread queue `index`. -/
def sendTo {α : Type*} (queues : List (List α)) (index : Int) (msg : α) :
    Option (List (List α)) := do
  let queue ← getFromVector queues index
  pure (queues.set index.toNat (queue ++ [msg]))

/-- The message is at the end of its queue, and every other queue is as before. -/
theorem sendTo_natCast {α : Type*} {queues : List (List α)} {i : ℕ} (hi : i < queues.length)
    (msg : α) :
    ∃ queues', sendTo queues (i : Int) msg = some queues' ∧
      queues'[i]? = some (queues[i] ++ [msg]) ∧ ∀ k, k ≠ i → queues'[k]? = queues[k]? := by
  refine ⟨queues.set i (queues[i] ++ [msg]), ?_, ?_, fun k hk => ?_⟩
  · unfold sendTo
    rw [getFromVector_natCast, List.getElem?_eq_getElem hi]
    rfl
  · rw [List.getElem?_set_self (by simpa using hi)]
  · rw [List.getElem?_set_ne (Ne.symm hk)]

/-- **The two views never drift apart.** What the map rebuilds from either request is the plane's
stock, entry by entry; after `updateMap` the reply goes to the asking airline's connection and from
there to the asking plane's queue only, and storing it leaves the plane with the map's amounts,
done exactly when all of them are zero. -/
theorem unload_exchange {names : List Name} {map : Map}
    (htable : productTable names = some map.product) {plane : Plane}
    (hlen : plane.stocks.length ≤ MAX_STOCKS)
    (hmem : ∀ s ∈ plane.stocks, s.product ∈ map.product)
    (hname : ∀ s ∈ plane.stocks, s.product.name.length ≤ 29) (hnn : Nonneg plane.stocks)
    {airline planeId : ℕ} (hid : plane.id = planeId) {conns : List (List MapMessage)}
    (hairline : airline < conns.length) {queues : List (List Message)}
    (hplane : planeId < queues.length) {city : City}
    (hcity : getFromVector map.cities plane.cityId = some city) (hlist : city.stock ≠ [])
    (hneeds : Nonneg city.stock) (len : ℕ) :
    ∃ check unload : StockMessagePart, ∃ header : PlaneMessageHeader,
      -- both requests
      marshallCheckDestinations airline plane.id plane.cityId plane.stocks len =
        some { header := header, maxDestinations := len, stocks := check } ∧
      marshallChangeStock airline plane.id plane.cityId plane.stocks =
        some { header := header, stocks := unload } ∧
      initPlane check header map = some ({ plane with distance := 0 }, map) ∧
      initPlane unload header map = some ({ plane with distance := 0 }, map) ∧
      -- the map's copy after unloading
      ∃ map' copy, updateMap map { plane with distance := 0 } = some (map', copy) ∧
        copy.stocks.map (·.product) = plane.stocks.map (·.product) ∧
        -- the reply and its way back
        ∃ reply conns' queues',
          commUnloadedStock airline copy = some (.stock reply) ∧
          sendTo conns airline (.stock reply) = some conns' ∧
          conns'[airline]? = some (conns[airline] ++ [.stock reply]) ∧
          (∀ k, k ≠ airline → conns'[k]? = conns[k]?) ∧
          sendTo queues (redirectStockMessage reply).1 (redirectStockMessage reply).2 =
            some queues' ∧
          queues'[planeId]? =
            some (queues[planeId] ++ [.stock reply.stocks.count reply.stocks.quantities]) ∧
          (∀ k, k ≠ planeId → queues'[k]? = queues[k]?) ∧
          unloadStock plane reply.stocks.count reply.stocks.quantities =
            some ({ plane with stocks := copy.stocks }, some (decide (Emptied copy.stocks))) := by
  have hw := wellFormed_productTable htable
  have hpack : Packable map.product plane.stocks :=
    ⟨hlen, hmem, fun s hs => Nat.lt_succ_of_le (hname s hs)⟩
  obtain ⟨needs, stocks', hun⟩ := exists_unloads plane.stocks hlist
  obtain ⟨-, hdrain⟩ := drained_unloads hun hneeds hnn
  have hlen' : stocks'.length ≤ MAX_STOCKS := by rw [hun.length_eq]; exact hlen
  obtain ⟨conns', hc1, hc2, hc3⟩ :=
    sendTo_natCast hairline (MapMessage.stock (stockReply airline plane.id plane.cityId stocks'))
  obtain ⟨queues', hq1, hq2, hq3⟩ := sendTo_natCast hplane
    (Message.stock (packed stocks').count (packed stocks').quantities)
  refine ⟨packed plane.stocks, packed plane.stocks, _, marshallCheckDestinations_eq hlen ..,
    marshallChangeStock_eq hlen .., initPlane_packed hw hpack _, initPlane_packed hw hpack _, _, _,
    updateMap_eq { plane with distance := 0 } hcity hun, hdrain.products,
    stockReply airline plane.id plane.cityId stocks', conns', queues', ?_, hc1, hc2, hc3, ?_,
    hq2, hq3, unloadStock_packed hdrain⟩
  · unfold commUnloadedStock
    rw [marshallChangeStock_eq hlen']
    rfl
  · show sendTo queues plane.id _ = _
    rw [hid]
    exact hq1

def aspi : Product := { id := 0, name := ['A', 's', 'p', 'i'] }

def para : Product := { id := 1, name := ['P', 'a', 'r', 'a'] }

/-- One city in need of `para` only. -/
def paraCity : Map where
  cities := [{ name := ['R', 'o', 's', 'a', 'r', 'i', 'o'], id := 0
               stock := [{ amount := 5, product := para }] }]
  product := [aspi, para]
  matrix := [[0]]

/-- A plane with both products, one of them twice. -/
def mixedPlane : Plane where
  id := 2
  stocks := [{ amount := 3, product := para }, { amount := 7, product := aspi },
    { amount := 4, product := para }]
  cityId := 0
  distance := 0

theorem unload_exchange_mixedPlane :
    ∃ map' copy reply, updateMap paraCity { mixedPlane with distance := 0 } = some (map', copy) ∧
      commUnloadedStock ((1 : ℕ) : Int) copy = some (.stock reply) ∧
      unloadStock mixedPlane reply.stocks.count reply.stocks.quantities =
        some ({ mixedPlane with stocks := copy.stocks }, some (decide (Emptied copy.stocks))) := by
  have htable : productTable [['A', 's', 'p', 'i'], ['P', 'a', 'r', 'a'], ['A', 's', 'p', 'i']] =
      some paraCity.product := by decide
  obtain ⟨check, unload, header, -, -, -, -, map', copy, hmap, -, reply, conns', queues', hreply,
    -, -, -, -, -, -, hstore⟩ := @unload_exchange _ _ htable mixedPlane (by decide)
      (by simp [mixedPlane, paraCity]) (by simp [mixedPlane, aspi, para])
      (by unfold Nonneg; decide) 1 2 rfl [[], []] (by decide) [[], [], []] (by decide) _ rfl
      (by simp) (by unfold Nonneg; decide) 5
  exact ⟨map', copy, reply, hmap, hreply, hstore⟩

end PlaneSim
