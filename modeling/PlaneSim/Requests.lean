import PlaneSim.Best
import PlaneSim.Progress
import PlaneSim.Simulation

/-!
# What the map serves

The request that the map takes next is a plane's, as it is now (`Sim.asking`).

1. Serving it is defined, but for an unload in a city without a list (`served_defined`).
2. The plane's own city scores nothing when it asks for destinations (`own_city_run`).
3. The distances sent are those of shortest routes, or `0` where there is none
   (`destinations_run`).
-/

namespace PlaneSim

open Lts Update CInt Routes

/-- The header and the stocks of a request. -/
def PlaneMessage.parts : PlaneMessage → Option (PlaneMessageHeader × StockMessagePart)
  | .unloadStock msg => some (msg.header, msg.stocks)
  | .checkDestinations msg => some (msg.header, msg.stocks)
  | _ => none

/-- Thread `p` of airline `a` is waiting with `plane`, in phase `ph`, for the reply to `msg`. -/
structure Asking (s : System) (ph : Phase) (a p : ℕ) (plane : Plane) (msg : PlaneMessage) :
    Prop where
  thread : ∃ A P, s.airlines[a]? = some A ∧ A.planes[p]? = some P ∧ P.plane = plane
  ground : plane.distance = 0
  request : request a plane ph = some msg

section Asking

variable {cfg : Config} {s : System} {T : Turn} {sts : List Status} {map : Map}
  {airlines : List Airline} {tr : List Event}

/-- The request at the head of the inbox. -/
theorem Sim.asking (h : Sim s T sts) {w : Phase} {i a : ℕ} (hpc : s.pc = .recv w i)
    {msg : PlaneMessage} {inbox : List (ℕ × PlaneMessage)} (hinbox : s.inbox = (a, msg) :: inbox)
    {id : Int} (hmsg : msg.owner = some id) :
    w = T.phase ∧ ∃ p t, id = (p : ℕ) ∧ T.get a p = some t ∧ t.todo = true ∧ t.done = false ∧
      Asking s w a p t.plane msg := by
  have hmap := h.pc
  rw [hpc] at hmap
  obtain ⟨rfl, -, -⟩ := hmap
  let s1 : System := { s with inbox := inbox }
  have ha : a < s.airlines.length := h.inbox (a, msg) (by simp [hinbox])
  obtain ⟨A, ts, st, hat⟩ := h.exists_at ha
  have hok := h.airline a A ts st hat
  rw [out_cons hinbox s1 rfl, if_pos rfl, hpc] at hok
  obtain ⟨p, t, rfl, ht, ⟨P, hP, hplane⟩, hground, htodo, hdone, hreq, -, -⟩ := hok.serve hmsg
  exact ⟨rfl, p, t, rfl, get2_eq_some.mpr ⟨ts, hat.turn, ht⟩, htodo, hdone,
    ⟨A, P, hat.system, hP, hplane.symm⟩, hground, hreq⟩

/-- What a request carries. -/
theorem request_parts {a : ℕ} {plane : Plane} {ph : Phase} {msg : PlaneMessage}
    (hlen : plane.stocks.length ≤ MAX_STOCKS) (h : request a plane ph = some msg) :
    msg.parts = some ({ airline := a, id := plane.id, cityId := plane.cityId },
      packed plane.stocks) := by
  cases ph with
  | one =>
    rw [request, marshallChangeStock_eq hlen, Option.map_some] at h
    cases h
    rfl
  | two =>
    rw [request, marshallCheckDestinations_eq hlen, Option.map_some] at h
    cases h
    rfl

theorem PlaneMessage.owner_of_parts {msg : PlaneMessage} {header : PlaneMessageHeader}
    {stocks : StockMessagePart} (h : msg.parts = some (header, stocks)) :
    msg.owner = some header.id := by
  cases msg with
  | unloadStock m | checkDestinations m =>
    cases h
    rfl
  | airlineDone | airlineStatus status => cases h

/-- The map gets the plane as it is. -/
theorem Valid.initPlane (h : Valid T) (hmap : s.map = T.map) {a p : ℕ} {t : TurnPlane}
    (ht : T.get a p = some t) (hground : t.plane.distance = 0) :
    initPlane (packed t.plane.stocks)
      { airline := a, id := t.plane.id, cityId := t.plane.cityId } s.map = some (t.plane, s.map) := by
  obtain ⟨-, hpack, -⟩ := h.plane a p t ht
  rw [hmap, initPlane_packed h.product hpack, ← hground]

/-! ## Every access is defined -/

/-- **Serving a request is defined**, but for an unload of some stock in a city that lists none. -/
theorem served_defined (hparsed : Parsed map airlines)
    (hneeds : ∀ city ∈ map.cities, Nonneg city.stock)
    (hcargo : ∀ airline ∈ airlines, ∀ plane ∈ airline.planes,
      plane.stocks.length ≤ MAX_STOCKS ∧ Nonneg plane.stocks)
    (hknown : ∀ airline ∈ airlines, ∀ plane ∈ airline.planes,
      ∃ city ∈ map.cities, plane.cityId = city.id)
    (hrun : Run (reliableStep cfg) (System.init map airlines) tr s) {w : Phase} {i a : ℕ}
    (hpc : s.pc = .recv w i) {msg : PlaneMessage} {inbox : List (ℕ × PlaneMessage)}
    (hinbox : s.inbox = (a, msg) :: inbox) {header : PlaneMessageHeader}
    {stocks : StockMessagePart} (hmsg : msg.parts = some (header, stocks)) :
    -- the airline and the city
    header.airline = a ∧ a < s.airlines.length ∧
      ∃ city, getFromVector s.map.cities header.cityId = some city ∧
      -- the products
      (∀ j < stocks.count, ∃ id product, loadArray stocks.stockId j = some id ∧
        getFromVector s.map.product id = some product) ∧
      (∀ c ∈ s.map.cities, ∀ stock ∈ c.stock,
        getFromVector s.map.product stock.product.id = some stock.product) ∧
      -- the distances
      (∀ c ∈ s.map.cities, ∃ d, getDistance s.map c.id header.cityId = some d) ∧
      ∃ plane, initPlane stocks header s.map = some (plane, s.map) ∧
        ((∃ after, updateMap s.map plane = some after) ↔ city.stock ≠ [] ∨ plane.stocks = []) := by
  have hsetup : Setup map airlines := ⟨hparsed.sound, hneeds, hcargo, hknown⟩
  obtain ⟨T, sts, hturns, hsim⟩ := sim_run hsetup hrun (by rw [hpc]; simp)
  obtain ⟨-, p, t, -, ht, -, -, hask⟩ := hsim.asking hpc hinbox (PlaneMessage.owner_of_parts hmsg)
  have hvalid := hsim.valid
  obtain ⟨hid, hpack, c, hcity, hlt⟩ := hvalid.plane a p t ht
  rw [request_parts hpack.length_le hask.request] at hmsg
  cases hmsg
  have ha : a < s.airlines.length := hsim.inbox (a, msg) (by simp [hinbox])
  have htable : ∀ product ∈ s.map.product, getFromVector s.map.product product.id = some product := by
    rw [hsim.map]
    intro product hp
    obtain ⟨k, hk, hget⟩ := hvalid.product.getElem_of_mem hp
    rw [hk, getFromVector_natCast, hget]
  have hget : getFromVector s.map.cities t.plane.cityId = some T.map.cities[c] := by
    rw [hsim.map, hcity, getFromVector_natCast, List.getElem?_eq_getElem hlt]
  refine ⟨rfl, ha, T.map.cities[c], hget, fun j hj => ?_, fun city hc stock hs => ?_,
    fun city hc => ?_, t.plane, hvalid.initPlane hsim.map ht hask.ground, ?_⟩
  · have hj : j < t.plane.stocks.length := hj
    have hload := @loadArray_map_some (t.plane.stocks.map (·.product.id)) j (by simpa using hj)
      (List.replicate (MAX_STOCKS - t.plane.stocks.length) none)
    rw [List.getElem_map] at hload
    refine ⟨_, _, hload, htable t.plane.stocks[j].product ?_⟩
    rw [hsim.map]
    exact hpack.mem _ (List.getElem_mem hj)
  · refine htable stock.product ?_
    rw [hsim.map] at hc ⊢
    have hshrinks := (turnOk_run hsetup.valid.ok hturns).2
    obtain ⟨old, hold, -, -, hd⟩ := hshrinks.exists_city hc
    obtain ⟨s0, hs0, hprod, -⟩ := hd.exists_of_mem hs
    rw [hprod, hshrinks.product]
    exact hsetup.sound.city old hold s0 hs0
  · rw [hsim.map] at hc ⊢
    obtain ⟨k, hk⟩ := List.mem_iff_getElem?.mp hc
    rw [hvalid.ok.numbered k city hk]
    show ∃ d, getDistance T.map k t.plane.cityId = some d
    rw [hcity]
    exact getDistance_square hvalid.square (List.getElem?_eq_some_iff.mp hk).1 hlt
  · rw [← exists_unloads_iff]
    constructor
    · rintro ⟨after, hafter⟩
      unfold updateMap at hafter
      rw [hget, Option.bind_eq_bind, Option.bind_some] at hafter
      obtain ⟨⟨needs, left⟩, hun, -⟩ := Option.bind_eq_some_iff.mp hafter
      exact ⟨needs, left, unloadStocks_iff.mp hun⟩
    · rintro ⟨needs, left, hun⟩
      exact ⟨_, updateMap_eq t.plane hget hun⟩

end Asking

/-- Inboxes without a limit. -/
def someConfig : Config := { qsort := .insertion, capacity := none }

/-- Up to the first unload of a simulation with one plane. -/
def toUnload : List Action :=
  [(2, Action.map), (5, .listener 0), (6, .plane 0 0), (2, .listener 0), (1, .map)].flatMap
    fun block => List.replicate block.1 block.2

/-- And on to its first check of destinations. -/
def toCheck : List Action :=
  toUnload ++ [(2, Action.map), (2, .listener 0), (10, .plane 0 0), (3, .map), (5, .listener 0),
    (5, .plane 0 0), (2, .listener 0), (1, .map)].flatMap
      fun block => List.replicate block.1 block.2

theorem served_defined_trio :
    ∃ tr s msg, Run (reliableStep someConfig) (System.init trioMap trioAirlines) tr s ∧
      s.inbox = [(0, .unloadStock msg)] ∧ msg.header.airline = 0 ∧
      ∃ plane, initPlane msg.stocks msg.header s.map = some (plane, s.map) ∧
        ∃ after, updateMap s.map plane = some after := by
  obtain ⟨tr, s, msg, hexec, hpc, hinbox, hcity⟩ : ∃ tr s msg,
      exec (reliableStep someConfig) (System.init trioMap trioAirlines) toUnload = some (tr, s) ∧
        s.pc = .recv .one 0 ∧ s.inbox = [(0, .unloadStock msg)] ∧
        getFromVector s.map.cities msg.header.cityId = trioMap.cities[0]? :=
    ⟨_, _, _, rfl, rfl, rfl, rfl⟩
  have hrun := run_of_exec hexec
  obtain ⟨hairline, -, city, hget, -, -, -, plane, hinit, hdefined⟩ :=
    served_defined parsed_trio needs_trio cargo_trio known_trio hrun hpc hinbox
      (show (PlaneMessage.unloadStock msg).parts = some (msg.header, msg.stocks) from rfl)
  obtain rfl : city = trioMap.cities[0] := Option.some.inj (hget.symm.trans hcity)
  exact ⟨tr, s, msg, hrun, hinbox, hairline, plane, hinit, hdefined.mpr (.inl (by decide))⟩

/-- Rosario lists nothing. -/
def idleMap : Map where
  cities := [{ name := ['R', 'o', 's', 'a', 'r', 'i', 'o'], id := 0, stock := [] },
    { name := ['S', 'a', 'l', 't', 'a'], id := 1, stock := [{ amount := 5, product := aspi }] }]
  product := [aspi]
  matrix := [[0, 2], [2, 0]]

/-- One plane with some stock, in Rosario. -/
def idleAirlines : List Airline :=
  [{ id := 0
     planes := [{ id := 0, stocks := [{ amount := 3, product := aspi }], cityId := 0
                  distance := 0 }] }]

theorem parsed_idle : Parsed idleMap idleAirlines := by
  have hmap : parseMap ['2', '\n', 'R', 'o', 's', 'a', 'r', 'i', 'o', '\n',
      'S', 'a', 'l', 't', 'a', '\n', 'A', 's', 'p', 'i', ' ', '5', '\n',
      'R', 'o', 's', 'a', 'r', 'i', 'o', ' ', 'S', 'a', 'l', 't', 'a', ' ', '2', '\n'] =
        .ok idleMap := by decide +kernel
  have hairline : parseAirlines ['1', '\n', 'R', 'o', 's', 'a', 'r', 'i', 'o', '\n',
      'A', 's', 'p', 'i', ' ', '3', '\n'] idleMap = .ok (idleAirlines[0], idleMap) := by
    decide +kernel
  exact .airline (.map hmap) hairline

/-- The first request of its plane has no `city_stock` to work on. -/
theorem idle_unset :
    Parsed idleMap idleAirlines ∧ (∀ city ∈ idleMap.cities, Nonneg city.stock) ∧
      (∀ airline ∈ idleAirlines, ∀ plane ∈ airline.planes,
        (plane.stocks.length ≤ MAX_STOCKS ∧ Nonneg plane.stocks) ∧
          ∃ city ∈ idleMap.cities, plane.cityId = city.id) ∧
      ∃ tr s msg, Run (reliableStep someConfig) (System.init idleMap idleAirlines) tr s ∧
        s.pc = .recv .one 0 ∧ s.inbox = [(0, .unloadStock msg)] ∧
        ∃ plane, initPlane msg.stocks msg.header s.map = some (plane, s.map) ∧
          updateMap s.map plane = none := by
  obtain ⟨tr, s, msg, hexec, hpc, hinbox, hinit⟩ : ∃ tr s msg,
      exec (reliableStep someConfig) (System.init idleMap idleAirlines) toUnload = some (tr, s) ∧
        s.pc = .recv .one 0 ∧ s.inbox = [(0, .unloadStock msg)] ∧
        ∃ plane, initPlane msg.stocks msg.header s.map = some (plane, s.map) ∧
          updateMap s.map plane = none :=
    ⟨_, _, _, rfl, rfl, rfl, _, rfl, rfl⟩
  exact ⟨parsed_idle, by unfold Nonneg; decide, by unfold Nonneg; decide, tr, s, msg,
    run_of_exec hexec, hpc, hinbox, hinit⟩

/-! ## The plane's own city -/

/-- A plane on the ground that has unloaded finds nothing in its city that it could deliver. -/
def Settled (T : Turn) : Prop :=
  ∀ a p t, T.get a p = some t → t.done = false → t.plane.distance = 0 → ¬Unvisited T t →
    ∀ c : ℕ, t.plane.cityId = c → ∀ city, T.map.cities[c]? = some city →
      NoShared city.stock t.plane.stocks

theorem settled_init {map : Map} {airlines : List Airline} : Settled (Turn.init map airlines) := by
  intro a p t ht _ _ hvisited
  obtain ⟨-, -, -, -, htodo⟩ := Setup.get_init ht
  exact absurd (.inl ⟨rfl, htodo⟩) hvisited

/-- One plane changes, and no city does. -/
theorem Settled.set {T : Turn} (h : Settled T) {a p : ℕ} {t : TurnPlane} (ht : T.get a p = some t)
    (t' : TurnPlane)
    (hnew : t'.done = false → t'.plane.distance = 0 → ¬Unvisited T t' →
      ∀ c : ℕ, t'.plane.cityId = c → ∀ city, T.map.cities[c]? = some city →
        NoShared city.stock t'.plane.stocks) : Settled (T.set a p t') := by
  intro b q x hx hd hground hvisited c hc city hcity
  rcases get2_set2_cases ht hx with ⟨-, -, rfl⟩ | ⟨-, hx⟩
  · exact hnew hd hground hvisited c hc city hcity
  · exact h b q x hx hd hground hvisited c hc city hcity

theorem settled_step {qsort : Qsort} {T T' : Turn} {act : TurnAction}
    {es : List (List Stock × List Stock)} (h : Settled T) (hok : TurnOk T)
    (hneeds : NeedsDistinct T.map) (hstep : turnStep qsort T act = some (es, T')) :
    Settled T' := by
  rcases turnStep_cases hstep with
    ⟨a, p, t, c, city, needs, stocks, ht, hphase, -, hground, hcity, hc, hun, -, rfl⟩ |
    ⟨a, p, t, ht, -, -, hair, -, rfl⟩ | ⟨a, p, t, cityInfo, ht, hphase, -, -, -, -, rfl⟩ |
    ⟨a, p, t, ht, hphase, -, -, -, rfl⟩ | ⟨hall, -, rfl⟩
  · have hmem := List.mem_of_getElem? hc
    have hnn := hok.needs city hmem
    obtain ⟨hdc, -⟩ := drained_unloads hun hnn (hok.cargo a p t ht)
    intro b q x hx hd hg hvisited k hk city' hcity'
    -- a city of the new map is one of the old map, with fewer needs
    rcases get2_set2_cases ht hx with ⟨-, -, rfl⟩ | ⟨-, hx⟩
    · obtain rfl : c = k := by
        have hk : t.plane.cityId = (k : ℕ) := hk
        omega
      have hcity' : (T.map.cities.set c { city with stock := needs })[c]? = some city' := hcity'
      rw [List.getElem?_set_self (List.getElem?_eq_some_iff.mp hc).1] at hcity'
      cases hcity'
      exact no_shared_unloads hun hnn (hok.cargo a p t ht) (hneeds city hmem)
    · have hcity' : (T.map.cities.set c { city with stock := needs })[k]? = some city' := hcity'
      by_cases hck : c = k
      · subst hck
        rw [List.getElem?_set_self (List.getElem?_eq_some_iff.mp hc).1] at hcity'
        cases hcity'
        exact (h b q x hx hd hg hvisited c hk city hc).mono hdc
      · rw [List.getElem?_set_ne hck] at hcity'
        exact h b q x hx hd hg hvisited k hk city' hcity'
  · exact h.set ht _ fun _ hg => absurd hg hair
  · exact h.set ht _ fun _ _ hvisited =>
      absurd (.inr ⟨hphase, t.choose_todo cityInfo⟩) hvisited
  · exact h.set ht _ fun _ _ hvisited => absurd (.inr ⟨hphase, rfl⟩) hvisited
  · intro b q x hx hd hg hvisited k hk city hcity
    rw [Turn.get, get2_map] at hx
    obtain ⟨t, ht, rfl⟩ := Option.map_eq_some_iff.mp hx
    have htodo := hall b q t ht
    have hd : t.done = false := hd
    cases hphase : T.phase with
    | one =>
      exact h b q t ht hd hg (by simp [Unvisited, hphase, htodo]) k hk city hcity
    | two =>
      refine absurd (.inl ⟨?_, ?_⟩) hvisited
      · show T.phase.next = _
        rw [hphase]
        rfl
      · show (!t.done) = true
        rw [hd]
        rfl

theorem settled_run {qsort : Qsort} {T T' : Turn} {tr : List (List Stock × List Stock)}
    (h : Settled T) (hok : TurnOk T) (hneeds : NeedsDistinct T.map)
    (hrun : Run (turnStep qsort) T tr T') : Settled T' := by
  induction hrun with
  | refl => exact h
  | step run last ih =>
    obtain ⟨hok1, hs1⟩ := turnOk_run hok run
    exact settled_step ih hok1 (hneeds.mono hs1) last

section Answer

variable {cfg : Config} {s : System} {T : Turn} {sts : List Status} {map : Map}
  {airlines : List Airline} {tr : List Event} {i a : ℕ} {msg : CheckDestinationsMessage}
  {inbox : List (ℕ × PlaneMessage)}

/-- The map answers plane `p` of airline `a` with the cities and distances in `listed`. -/
structure Answer (cfg : Config) (s : System) (a p : ℕ) (plane : Plane)
    (msg : CheckDestinationsMessage) (listed : List CityInfo) : Prop where
  asking : Asking s .two a p plane (.checkDestinations msg)
  offer : candidates cfg.qsort s.map plane = some listed
  sent : ∃ d, serveDestinations cfg.qsort s.map msg = some (s.map, (a : Int), .destinations d) ∧
    loadPrefix d.destinations d.count = some (listed.map (·.cityId)) ∧
    loadPrefix d.distance d.count = some (listed.map (·.distance))

theorem Sim.answer (cfg : Config) (h : Sim s T sts) (hpc : s.pc = .recv .two i)
    (hinbox : s.inbox = (a, .checkDestinations msg) :: inbox) :
    T.phase = .two ∧ ∃ p t listed, T.get a p = some t ∧ t.todo = true ∧ t.done = false ∧
      Answer cfg s a p t.plane msg listed := by
  obtain ⟨hphase, p, t, -, ht, htodo, hdone, hask⟩ := h.asking hpc hinbox rfl
  obtain ⟨-, hpack, -⟩ := h.valid.plane a p t ht
  obtain ⟨listed, hlisted⟩ := h.valid.exists_candidates cfg.qsort ht
  obtain ⟨msg', d, -, hreq, hserve, hcities, hdistances, -⟩ :=
    answered h.valid.product hpack hask.ground hlisted a
  cases hreq.symm.trans hask.request
  refine ⟨hphase.symm, p, t, listed, ht, htodo, hdone, hask, ?_, d, ?_, hcities, hdistances⟩
  · rw [h.map]
    exact hlisted
  · rw [h.map]
    exact hserve

/-- The city of a plane that is settled, when it chooses. -/
theorem Settled.own_city (qsort : Qsort) (h : Settled T) (hv : Valid T) (hphase : T.phase = .two)
    {p : ℕ} {t : TurnPlane} (ht : T.get a p = some t) (htodo : t.todo = true)
    (hdone : t.done = false) (hground : t.plane.distance = 0) :
    ∃ city, getFromVector T.map.cities t.plane.cityId = some city ∧
      getCityScore city.stock t.plane.stocks = 0 ∧
      ∀ listed, candidates qsort T.map t.plane = some listed →
        ∀ info ∈ listed, info.cityId ≠ t.plane.cityId := by
  obtain ⟨-, -, c, hcity, hlt⟩ := hv.plane a p t ht
  have hget : T.map.cities[c]? = some T.map.cities[c] := List.getElem?_eq_getElem hlt
  generalize T.map.cities[c] = city at hget
  have hshared := h a p t ht hdone hground (by simp [Unvisited, hphase, htodo]) c hcity city hget
  have hzero := getCityScore_of_noShared (hv.ok.needs city (List.mem_of_getElem? hget))
    (hv.ok.cargo a p t ht) hshared
  refine ⟨city, by rw [hcity, getFromVector_natCast, hget], hzero, fun listed hlisted info hi he => ?_⟩
  obtain ⟨other, hother, hid, hnz, -⟩ := (candidates_spec hlisted).1 info hi
  obtain ⟨k, hk⟩ := List.mem_iff_getElem?.mp hother
  rw [he, hcity, hv.ok.numbered k other hk] at hid
  obtain rfl : c = k := by exact_mod_cast hid
  obtain rfl : city = other := Option.some.inj (hget.symm.trans hk)
  exact hnz hzero

/-- **A plane is never offered the city it is in.** Whoever asks for destinations, its own city
scores nothing, and is not in the list it is sent. -/
theorem own_city_run (h : Setup map airlines) (hneeds : NeedsDistinct map)
    (hrun : Run (reliableStep cfg) (System.init map airlines) tr s) (hpc : s.pc = .recv .two i)
    (hinbox : s.inbox = (a, .checkDestinations msg) :: inbox) :
    ∃ p plane listed city, Answer cfg s a p plane msg listed ∧
      getFromVector s.map.cities plane.cityId = some city ∧
      getCityScore city.stock plane.stocks = 0 ∧ ∀ info ∈ listed, info.cityId ≠ plane.cityId := by
  obtain ⟨T, sts, hturns, hsim⟩ := sim_run h hrun (by rw [hpc]; simp)
  obtain ⟨hphase, p, t, listed, ht, htodo, hdone, hanswer⟩ := hsim.answer cfg hpc hinbox
  have hsettled := settled_run settled_init h.valid.ok hneeds hturns
  obtain ⟨city, hcity, hzero, hnot⟩ := hsettled.own_city cfg.qsort hsim.valid hphase ht htodo
    hdone hanswer.asking.ground
  have hoffer := hanswer.offer
  rw [hsim.map] at hoffer
  exact ⟨p, t.plane, listed, city, hanswer, by rw [hsim.map]; exact hcity, hzero, hnot listed hoffer⟩

theorem exec_trio : ∃ tr s msg,
    exec (reliableStep someConfig) (System.init trioMap trioAirlines) toCheck = some (tr, s) ∧
      s.pc = .recv .two 0 ∧ s.inbox = [(0, .checkDestinations msg)] :=
  ⟨_, _, _, rfl, rfl, rfl⟩

theorem needsDistinct_trio : NeedsDistinct trioMap := by
  unfold NeedsDistinct
  decide

theorem own_city_run_trio :
    ∃ s a msg p plane listed city, Answer someConfig s a p plane msg listed ∧
      getFromVector s.map.cities plane.cityId = some city ∧
      getCityScore city.stock plane.stocks = 0 ∧ ∀ info ∈ listed, info.cityId ≠ plane.cityId := by
  obtain ⟨tr, s, msg, hexec, hpc, hinbox⟩ := exec_trio
  exact ⟨s, 0, msg, own_city_run setup_trio needsDistinct_trio (run_of_exec hexec) hpc hinbox⟩

/-! ## The distances sent -/

theorem Charted.later {roads : List (List Int)} (h : Charted roads map)
    (hshrinks : Shrinks (Turn.init map airlines) T) : Charted roads T.map := by
  have hlen : T.map.cities.length = map.cities.length := hshrinks.cities.length_eq.symm
  refine ⟨?_, ?_, ?_⟩ <;> rw [hlen]
  · exact h.valid
  · exact h.fits
  · rw [hshrinks.matrix]
    exact h.matrix

/-- **Distances sent.** A city listed is not the plane's own, if no city lists a product twice; it
is sent with the length of the shortest route from there, which is positive, and with `0` if there
is no route. -/
theorem destinations_run (h : Setup map airlines) {roads : List (List Int)}
    (hchart : Charted roads map)
    (hrun : Run (reliableStep cfg) (System.init map airlines) tr s) (hpc : s.pc = .recv .two i)
    (hinbox : s.inbox = (a, .checkDestinations msg) :: inbox) :
    ∃ p plane listed, Answer cfg s a p plane msg listed ∧ ∀ info ∈ listed,
      ∃ here there : ℕ, plane.cityId = here ∧ info.cityId = there ∧
        (here = there → ¬NeedsDistinct map) ∧
        (here ≠ there →
          ((∃ l, Joined (entry roads) here l there) → 0 < info.distance ∧
            IsLeast {w | ∃ l, Joined (entry roads) here l there ∧
              length (entry roads) here l there = w} info.distance) ∧
          ((¬∃ l, Joined (entry roads) here l there) → info.distance = 0)) := by
  obtain ⟨T, sts, hturns, hsim⟩ := sim_run h hrun (by rw [hpc]; simp)
  obtain ⟨hphase, p, t, listed, ht, htodo, hdone, hanswer⟩ := hsim.answer cfg hpc hinbox
  have hoffer := hanswer.offer
  rw [hsim.map] at hoffer
  have hchart' := hchart.later (turnOk_run h.valid.ok hturns).2
  refine ⟨p, t.plane, listed, hanswer, fun info hi => ?_⟩
  obtain ⟨-, -, c, hcity, hlt⟩ := hsim.valid.plane a p t ht
  obtain ⟨city, hc, hid, -, hd⟩ := (candidates_spec hoffer).1 info hi
  obtain ⟨k, hk⟩ := List.mem_iff_getElem?.mp hc
  have hklt := (List.getElem?_eq_some_iff.mp hk).1
  rw [hsim.valid.ok.numbered k city hk] at hid hd
  have hdistances := hchart'.distances
  rw [hcity, getDistance_eq_entry hdistances.square hklt hlt, hdistances.symm] at hd
  rw [← Option.some.inj hd]
  refine ⟨c, k, hcity, hid, fun hck hneeds => ?_, fun hne => ?_⟩
  · have hsettled := settled_run settled_init h.valid.ok hneeds hturns
    obtain ⟨-, -, -, hnot⟩ := hsettled.own_city cfg.qsort hsim.valid hphase ht htodo hdone
      hanswer.asking.ground
    exact hnot listed hoffer info hi (by rw [hid, hcity, hck])
  · obtain ⟨hjoined, hnone⟩ := hdistances.shortest.isLeast hchart'.valid.nonneg
      (fun _ _ => hchart'.valid.lt) hne
    refine ⟨fun hroute => ⟨?_, hjoined hroute⟩, hnone⟩
    obtain ⟨⟨l, hl, hlen⟩, -⟩ := hjoined hroute
    rw [← hlen]
    exact length_pos hchart'.valid.nonneg hl

end Answer

def trioRoads : List (List Int) := [[0, 2, 0], [2, 0, 0], [0, 0, 0]]

theorem charted_trio : Charted trioRoads trioMap where
  valid := roads_of_lt (by unfold Square; decide) (by decide) (by decide)
  fits := by unfold RoadsFit; decide
  matrix := by decide +kernel

theorem destinations_run_trio :
    ∃ s a msg p plane listed, Answer someConfig s a p plane msg listed ∧ ∀ info ∈ listed,
      ∃ here there : ℕ, plane.cityId = here ∧ info.cityId = there ∧
        (here ≠ there → (¬∃ l, Joined (entry trioRoads) here l there) → info.distance = 0) := by
  obtain ⟨tr, s, msg, hexec, hpc, hinbox⟩ := exec_trio
  obtain ⟨p, plane, listed, hanswer, hlisted⟩ :=
    destinations_run setup_trio charted_trio (run_of_exec hexec) hpc hinbox
  refine ⟨s, 0, msg, p, plane, listed, hanswer, fun info hi => ?_⟩
  obtain ⟨here, there, hhere, hthere, -, hroute⟩ := hlisted info hi
  exact ⟨here, there, hhere, hthere, fun hne => (hroute hne).2⟩

/-- The plane in Rosario is sent to Jujuy, at distance `0`, though no road leads there. -/
theorem trio_jump :
    Parsed trioMap trioAirlines ∧ Charted trioRoads trioMap ∧ NeedsDistinct trioMap ∧
      (¬∃ l, Joined (entry trioRoads) 0 l 2) ∧
      ∃ tr s msg plane listed, Run (reliableStep someConfig) (System.init trioMap trioAirlines) tr s ∧
        s.pc = .recv .two 0 ∧ s.inbox = [(0, .checkDestinations msg)] ∧
        Answer someConfig s 0 0 plane msg listed ∧ plane.cityId = 0 ∧
        ∃ info rest, listed = info :: rest ∧ info.cityId = 2 ∧ info.distance = 0 := by
  refine ⟨parsed_trio, charted_trio, needsDistinct_trio, ?_, ?_⟩
  · rintro ⟨l, hl⟩
    obtain ⟨x, hx⟩ := hl.exists_edge
    apply hx
    rcases x with _ | _ | _ | x <;> simp [entry, trioRoads]
  · obtain ⟨tr, s, msg, plane, listed, hexec, hpc, hinbox, hthread, hrequest, hoffer, hsent, hcity,
      hfirst⟩ : ∃ tr s msg plane listed,
        exec (reliableStep someConfig) (System.init trioMap trioAirlines) toCheck = some (tr, s) ∧
          s.pc = .recv .two 0 ∧ s.inbox = [(0, .checkDestinations msg)] ∧
          (∃ A P, s.airlines[0]? = some A ∧ A.planes[0]? = some P ∧ P.plane = plane) ∧
          request 0 plane .two = some (.checkDestinations msg) ∧
          candidates Qsort.insertion s.map plane = some listed ∧
          (∃ d, serveDestinations Qsort.insertion s.map msg = some (s.map, 0, .destinations d) ∧
            loadPrefix d.destinations d.count = some (listed.map (·.cityId)) ∧
            loadPrefix d.distance d.count = some (listed.map (·.distance))) ∧
          (plane.cityId = 0 ∧ plane.distance = 0) ∧
          ∃ info rest, listed = info :: rest ∧ info.cityId = 2 ∧ info.distance = 0 :=
      ⟨_, _, _, _, _, rfl, rfl, rfl, ⟨_, _, rfl, rfl, rfl⟩, rfl, rfl, ⟨_, rfl, rfl, rfl⟩, ⟨rfl, rfl⟩,
        _, _, rfl, rfl, rfl⟩
    exact ⟨tr, s, msg, plane, listed, run_of_exec hexec, hpc, hinbox,
      ⟨⟨hthread, hcity.2, hrequest⟩, hoffer, hsent⟩, hcity.1, hfirst⟩

end PlaneSim
