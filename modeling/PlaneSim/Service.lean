import PlaneSim.Setup
import PlaneSim.System

/-!
# Serving a request

What the map does with the request of a plane is an unload or a choice of the abstract turn, and the
reply is what turns the thread's plane into the abstract one (`act_request`).
-/

namespace PlaneSim

open Lts Update

/-- The lists an unload works on. -/
def Event.unload : Event → Option (List Stock × List Stock)
  | .applied _ _ city stocks => some (city, stocks)
  | _ => none

/-- The events of serving plane `p` of airline `a`. -/
def Event.isService (a p : ℕ) : Event → Prop
  | .error => 10 < p
  | .applied airline plane _ _ => airline = a ∧ plane = p
  | _ => False

/-- The unload of the plane has a need to work on, or nothing to do. -/
def Searchable (map : Map) (plane : Plane) : Prop :=
  ∀ city, getFromVector map.cities plane.cityId = some city → city.stock ≠ [] ∨ plane.stocks = []

theorem Listing.searchable {map : Map} (h : Listing map) (plane : Plane) : Searchable map plane := by
  intro city hget
  obtain ⟨k, -, hk⟩ := getFromVector_eq_some hget
  exact .inl (h city (List.mem_of_getElem? hk))

section Service

variable (cfg : Config) {s : System} {T : Turn} {a p : ℕ} {t : TurnPlane}

/-- `initPlane` finds an error in a plane's number only. -/
theorem initPlaneEvents_packed (hv : Valid T) (ht : T.get a p = some t) {airline : Int}
    {e : Event}
    (he : e ∈ initPlaneEvents (packed t.plane.stocks)
      { airline := airline, id := t.plane.id, cityId := t.plane.cityId } T.map) :
    e = .error ∧ 10 < p := by
  obtain ⟨hid, hpack, c, hcity, hlt⟩ := hv.plane a p t ht
  have hnonneg := hv.ok.cargo a p t ht
  unfold initPlaneEvents at he
  rw [initPlane_packed hv.product hpack] at he
  dsimp only at he
  split at he
  · rename_i herror
    refine ⟨by simpa using he, ?_⟩
    have hstocks : (t.plane.stocks.any fun stock => stock.amount < 0 || stock.product.id < 0) =
        false := by
      rw [List.any_eq_false]
      intro stock hstock
      obtain ⟨k, hk, -⟩ := hv.product.getElem_of_mem (hpack.mem stock hstock)
      have := hnonneg stock hstock
      simp [hk]
      omega
    simp only [initPlaneError, hid, hcity, hstocks, Bool.or_false, Bool.or_eq_true,
      decide_eq_true_eq] at herror
    omega
  · cases he

/-- Phase 1: the request is an unload. -/
theorem act_unload (hv : Valid T) (hmap : s.map = T.map) (ht : T.get a p = some t)
    (hphase : T.phase = .one) (hground : t.plane.distance = 0) (htodo : t.todo = true)
    (hsearch : Searchable T.map t.plane) {msg : PlaneMessage}
    (hreq : request a t.plane .one = some msg) (i : ℕ) :
    ∃ map t' reply m es,
      Run (turnStep cfg.qsort) T (es.filterMap Event.unload) ({ T with map := map }.set a p t') ∧
        t'.todo = false ∧ redirect reply = some ((p : Int), m) ∧
        takeReply t.plane .one m = some (t'.plane, some t'.done) ∧
        act cfg s .one i msg = (es, { s with map := map, pc := .reply .one i a reply }) ∧
        (∀ e ∈ es, e.isService a p) ∧ ∃ city stocks, .applied a p city stocks ∈ es := by
  obtain ⟨hid, hpack, c, hcity, hlt⟩ := hv.plane a p t ht
  have hnonneg := hv.ok.cargo a p t ht
  rw [request, marshallChangeStock_eq hpack.length_le, Option.map_some] at hreq
  cases hreq
  have hget : getFromVector T.map.cities t.plane.cityId = some T.map.cities[c] := by
    rw [hcity, getFromVector_natCast, List.getElem?_eq_getElem hlt]
  generalize T.map.cities[c] = city at hget
  have hneeds := hv.ok.needs city (by
    obtain ⟨k, -, hk⟩ := getFromVector_eq_some hget
    exact List.mem_of_getElem? hk)
  obtain ⟨needs, stocks, hun⟩ := exists_unloads_iff.mpr (hsearch city hget)
  obtain ⟨-, hdrain⟩ := drained_unloads hun hneeds hnonneg
  have hserve : serveUnload T.map (stockReply a t.plane.id t.plane.cityId t.plane.stocks) = _ :=
    serveUnload_eq hv.product hpack hget hun
  have hstep : turnStep cfg.qsort T (.unload a p) = some ([(city.stock, t.plane.stocks)],
      { T with map := T.map.setNeeds t.plane.cityId.toNat city needs }.set a p
        { plane := { t.plane with stocks := stocks }, done := Emptied stocks, todo := false }) := by
    simp [turnStep, ht, Turn.may, hphase, htodo, hground, hget, updateMap_eq t.plane hget hun, guard,
      Map.setNeeds]
  have hinit : initPlane (packed t.plane.stocks)
      { airline := a, id := t.plane.id, cityId := t.plane.cityId } T.map = _ :=
    initPlane_packed hv.product hpack _
  have happlied : appliedEvents T.map
      { airline := a, id := t.plane.id, cityId := t.plane.cityId } (packed t.plane.stocks) =
        [.applied a t.plane.id city.stock t.plane.stocks] := by
    unfold appliedEvents
    rw [hinit]
    dsimp only
    rw [hget]
  have hnone : (initPlaneEvents (packed t.plane.stocks)
      { airline := a, id := t.plane.id, cityId := t.plane.cityId } T.map).filterMap Event.unload =
        [] := by
    rw [List.filterMap_eq_nil_iff]
    intro e he
    rw [(initPlaneEvents_packed hv ht he).1]
    rfl
  refine ⟨T.map.setNeeds t.plane.cityId.toNat city needs,
    { plane := { t.plane with stocks := stocks }, done := Emptied stocks, todo := false },
    .stock (stockReply a t.plane.id t.plane.cityId stocks),
    .stock (packed stocks).count (packed stocks).quantities,
    initPlaneEvents (packed t.plane.stocks)
      { airline := a, id := t.plane.id, cityId := t.plane.cityId } T.map ++
        [.applied a t.plane.id city.stock t.plane.stocks], ?_, rfl, ?_, unloadStock_packed hdrain,
    ?_, ?_, city.stock, t.plane.stocks, ?_⟩
  · rw [List.filterMap_append, hnone]
    exact Run.single hstep
  · rw [← hid]
    rfl
  · show act cfg s .one i (.unloadStock (stockReply a t.plane.id t.plane.cityId t.plane.stocks)) = _
    unfold act
    dsimp only
    rw [hmap, hserve, ← happlied]
    rfl
  · intro e he
    rcases List.mem_append.mp he with he | he
    · obtain ⟨rfl, hlt⟩ := initPlaneEvents_packed hv ht he
      exact hlt
    · rw [List.mem_singleton.mp he]
      exact ⟨rfl, hid⟩
  · rw [← hid]
    simp

/-- Carrying something to a city that lists nothing, the plane is the map's undoing. -/
theorem act_unset (hv : Valid T) (hmap : s.map = T.map) (ht : T.get a p = some t)
    (hsearch : ¬Searchable T.map t.plane) {msg : PlaneMessage}
    (hreq : request a t.plane .one = some msg) (i : ℕ) :
    (act cfg s .one i msg).2.pc = .crashed := by
  obtain ⟨-, hpack, -⟩ := hv.plane a p t ht
  rw [request, marshallChangeStock_eq hpack.length_le, Option.map_some] at hreq
  cases hreq
  unfold Searchable at hsearch
  push Not at hsearch
  obtain ⟨city, hget, hempty, hstocks⟩ := hsearch
  have hnone : unloadStocks city.stock t.plane.stocks = none := by
    rw [Option.eq_none_iff_forall_ne_some]
    rintro ⟨city', stocks'⟩ h
    exact (exists_unloads_iff.mp ⟨_, _, unloadStocks_iff.mp h⟩).elim (absurd hempty) hstocks
  have hserve : serveUnload T.map (stockReply a t.plane.id t.plane.cityId t.plane.stocks) = none := by
    unfold serveUnload stockReply
    dsimp only
    rw [initPlane_packed hv.product hpack, Option.bind_eq_bind, Option.bind_some]
    simp [updateMap, hget, hnone]
  show (act cfg s .one i (.unloadStock (stockReply a t.plane.id t.plane.cityId t.plane.stocks))).2.pc = _
  unfold act
  dsimp only
  rw [hmap, hserve]

/-! ## Destinations -/

/-- **Serving a check of destinations.** The map rebuilds the plane and answers with its candidates. -/
theorem serveDestinations_eq {qsort : Qsort} {map : Map} (hw : WellFormed map.product)
    {plane : Plane} (hpack : Packable map.product plane.stocks) (hground : plane.distance = 0)
    {cityInfo : List CityInfo} (hcand : candidates qsort map plane = some cityInfo)
    {d : DestinationsMessage}
    (hd : marshallGiveDestinations plane.id (cityInfo.map (·.cityId)) (cityInfo.map (·.distance)) =
      some d) (airline : Int) (len : ℕ) :
    serveDestinations qsort map
      { header := { airline := airline, id := plane.id, cityId := plane.cityId }
        maxDestinations := len, stocks := packed plane.stocks } =
      some (map, airline, .destinations d) := by
  have hplane : ({ id := plane.id, stocks := plane.stocks, cityId := plane.cityId
                   distance := 0 } : Plane) = plane := by rw [← hground]
  have hgive : appGiveDestinations qsort map plane = some d := by
    unfold appGiveDestinations
    rw [hcand, Option.bind_eq_bind, Option.bind_some]
    exact hd
  unfold serveDestinations
  dsimp only
  rw [initPlane_packed hw hpack, Option.bind_eq_bind, Option.bind_some]
  dsimp only
  rw [hplane, hgive]
  rfl

/-- What the plane makes of the offer is the choice of the abstract plane. -/
theorem takeReply_destinations (hdone : t.done = false) {cityInfo : List CityInfo}
    (hlen : cityInfo.length ≤ MAX_DESTINATIONS) :
    ∃ d, marshallGiveDestinations t.plane.id (cityInfo.map (·.cityId)) (cityInfo.map (·.distance)) =
        some d ∧ d.planeId = t.plane.id ∧
      takeReply t.plane .two (.destinations d.count d.destinations d.distance) =
        some ((t.choose cityInfo).plane, some (t.choose cityInfo).done) := by
  have hcities : (cityInfo.map (·.cityId)).length ≤ MAX_DESTINATIONS := by simpa using hlen
  have hdistances : (cityInfo.map (·.distance)).length ≤ MAX_DESTINATIONS := by simpa using hlen
  unfold marshallGiveDestinations
  rw [storeArray_of_le hcities, storeArray_of_le hdistances]
  refine ⟨_, rfl, rfl, ?_⟩
  have htake : takeDestinations 5 (cityInfo.map (·.cityId)).length
      ((cityInfo.map (·.cityId)).map some ++
        List.replicate (MAX_DESTINATIONS - (cityInfo.map (·.cityId)).length) none)
      ((cityInfo.map (·.distance)).map some ++
        List.replicate (MAX_DESTINATIONS - (cityInfo.map (·.distance)).length) none) =
      some ((cityInfo.map (·.cityId)).take (min 5 cityInfo.length),
        (cityInfo.map (·.distance)).take (min 5 cityInfo.length)) := by
    unfold takeDestinations
    dsimp only
    rw [List.length_map, List.length_map, loadPrefix_store _ (by rw [List.length_map]; omega),
      loadPrefix_store _ (by rw [List.length_map]; omega)]
    rfl
  show (takeDestinations _ _ _ _).map _ = _
  rw [htake, Option.map_some]
  cases cityInfo with
  | nil => rfl
  | cons info rest =>
    obtain ⟨k, hk⟩ : ∃ k, min 5 (info :: rest).length = k + 1 :=
      ⟨min 5 (info :: rest).length - 1, by rw [List.length_cons]; omega⟩
    rw [hk]
    simp [chooseDestination, TurnPlane.choose, hdone]

/-- Phase 2: the request is a choice. -/
theorem act_choose (hv : Valid T) (hmap : s.map = T.map) (ht : T.get a p = some t)
    (hphase : T.phase = .two) (hground : t.plane.distance = 0) (htodo : t.todo = true)
    (hdone : t.done = false) {msg : PlaneMessage} (hreq : request a t.plane .two = some msg)
    (i : ℕ) :
    ∃ t' reply m es,
      Run (turnStep cfg.qsort) T (es.filterMap Event.unload) (T.set a p t') ∧
        t'.todo = false ∧ redirect reply = some ((p : Int), m) ∧
        takeReply t.plane .two m = some (t'.plane, some t'.done) ∧
        act cfg s .two i msg = (es, { s with pc := .reply .two i a reply }) ∧
        ∀ e ∈ es, e = .error ∧ 10 < p := by
  obtain ⟨hid, hpack, -⟩ := hv.plane a p t ht
  rw [request, marshallCheckDestinations_eq hpack.length_le, Option.map_some] at hreq
  cases hreq
  obtain ⟨cityInfo, hcand⟩ := hv.exists_candidates cfg.qsort ht
  obtain ⟨d, hd, hplaneId, htake⟩ := takeReply_destinations hdone (candidates_spec hcand).2.1
  have hstep : turnStep cfg.qsort T (.choose a p) = some ([], T.set a p (t.choose cityInfo)) := by
    simp [turnStep, ht, Turn.may, hphase, htodo, hground, hcand, guard]
  have hserve : serveDestinations cfg.qsort T.map
      { header := { airline := a, id := t.plane.id, cityId := t.plane.cityId }
        maxDestinations := 5, stocks := packed t.plane.stocks } =
      some (T.map, (a : Int), .destinations d) :=
    serveDestinations_eq hv.product hpack hground hcand hd a 5
  refine ⟨t.choose cityInfo, .destinations d, .destinations d.count d.destinations d.distance,
    initPlaneEvents (packed t.plane.stocks)
      { airline := a, id := t.plane.id, cityId := t.plane.cityId } T.map, ?_,
    t.choose_todo cityInfo, ?_, htake, ?_, fun e he => initPlaneEvents_packed hv ht he⟩
  · rw [List.filterMap_eq_nil_iff.mpr fun e he => by rw [(initPlaneEvents_packed hv ht he).1]; rfl]
    exact Run.single hstep
  · rw [← hid, ← hplaneId]
    rfl
  · unfold act
    dsimp only
    rw [hmap, hserve, ← hmap]

/-- **Serving a request.** It is a step of the abstract turn, and the plane that takes the reply
becomes the abstract one. -/
theorem act_request (hv : Valid T) (hmap : s.map = T.map) (ht : T.get a p = some t)
    (hground : t.plane.distance = 0) (htodo : t.todo = true) (hdone : t.done = false)
    (hsearch : T.phase = .one → Searchable T.map t.plane) {msg : PlaneMessage}
    (hreq : request a t.plane T.phase = some msg) (i : ℕ) :
    ∃ map t' reply m es,
      Run (turnStep cfg.qsort) T (es.filterMap Event.unload) ({ T with map := map }.set a p t') ∧
        t'.todo = false ∧ redirect reply = some ((p : Int), m) ∧
        takeReply t.plane T.phase m = some (t'.plane, some t'.done) ∧
        act cfg s T.phase i msg = (es, { s with map := map, pc := .reply T.phase i a reply }) ∧
        (∀ e ∈ es, e.isService a p) ∧
        (T.phase = .one → ∃ city stocks, .applied a p city stocks ∈ es) := by
  obtain hphase | hphase : T.phase = .one ∨ T.phase = .two := by cases T.phase <;> simp
  · rw [hphase] at hreq
    obtain ⟨map, t', reply, m, es, hrun, h1, h2, h3, h4, h5, h6⟩ :=
      act_unload cfg hv hmap ht hphase hground htodo (hsearch hphase) hreq i
    exact ⟨map, t', reply, m, es, hrun, h1, h2, by rw [hphase]; exact h3,
      by rw [hphase]; exact h4, h5, fun _ => h6⟩
  · rw [hphase] at hreq
    obtain ⟨t', reply, m, es, hrun, h1, h2, h3, h4, h5⟩ :=
      act_choose cfg hv hmap ht hphase hground htodo hdone hreq i
    refine ⟨T.map, t', reply, m, es, hrun, h1, h2, by rw [hphase]; exact h3, ?_, ?_, ?_⟩
    · rw [hphase, h4, ← hmap]
    · intro e he
      obtain ⟨rfl, hlt⟩ := h5 e he
      exact hlt
    · intro h
      rw [hphase] at h
      cases h

end Service

end PlaneSim
