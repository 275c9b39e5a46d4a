import PlaneSim.Transport
import PlaneSim.Reporting
import PlaneSim.Report

/-!
# Every message can be carried

Where every number of the configuration is an `int`, so is every number a run puts into a message
(`sends_run`). The simulation over bytes is then the simulation (`wire_run`).
-/

namespace PlaneSim

open Lts CInt Update

/-- Every number of the configuration is an `int`. -/
structure Ints (map : Map) (airlines : List Airline) : Prop where
  cities : (map.cities.length : Int) ≤ INT_MAX
  products : (map.product.length : Int) ≤ INT_MAX
  fleet : (airlines.length : Int) ≤ INT_MAX
  planes : ∀ airline ∈ airlines, (airline.planes.length : Int) ≤ INT_MAX
  amounts : ∀ airline ∈ airlines, ∀ plane ∈ airline.planes, ∀ stock ∈ plane.stocks,
    stock.amount ≤ INT_MAX
  distances : ∀ i j distance, getDistance map i j = some distance → Fits distance

theorem fits_of_lt {k n : ℕ} (h : k < n) (hn : (n : Int) ≤ INT_MAX) : Fits k := by
  unfold Fits
  omega

section Numbers

variable {map : Map} {airlines : List Airline} {cfg : Config} {T : Turn} {a p : ℕ} {t : TurnPlane}

/-- Where the planes of the turn come from. -/
theorem Shrinks.origin (h : Shrinks (Turn.init map airlines) T) (ht : T.get a p = some t) :
    a < airlines.length ∧ ∃ airline ∈ airlines, ∃ plane, airline.planes[p]? = some plane ∧
      Drained plane.stocks t.plane.stocks := by
  obtain ⟨t0, ht0, hdrained⟩ := h.cargo a p t ht
  obtain ⟨airline, hmem, hplane, -⟩ := Setup.get_init ht0
  obtain ⟨row, hrow, -⟩ := get2_eq_some.mp ht0
  refine ⟨?_, airline, hmem, t0.plane, hplane, hdrained⟩
  simpa [Turn.init] using (List.getElem?_eq_some_iff.mp hrow).1

/-- What is left of a plane's stocks can be packed. -/
theorem Ints.stocksFit (h : Ints map airlines) (hv : Valid T)
    (hs : Shrinks (Turn.init map airlines) T) (ht : T.get a p = some t) {stocks : List Stock}
    (hdrained : Drained t.plane.stocks stocks) : StocksFit stocks := by
  obtain ⟨-, hpack, -⟩ := hv.plane a p t ht
  obtain ⟨-, airline, hmem, plane, hplane, horigin⟩ := hs.origin ht
  have hpack' := hpack.drained hdrained
  refine ⟨hpack'.length_le, fun stock hstock => ?_, fun stock hstock => ?_⟩
  · obtain ⟨k, hk, hget⟩ := hv.product.getElem_of_mem (hpack'.mem stock hstock)
    have hlt := (List.getElem?_eq_some_iff.mp hget).1
    rw [hs.product] at hlt
    rw [hk]
    exact fits_of_lt hlt h.products
  · obtain ⟨first, hfirst, -, hle⟩ := (horigin.trans hdrained).exists_of_mem hstock
    have hmax := h.amounts airline hmem plane (List.mem_of_getElem? hplane) first hfirst
    have hnonneg := hdrained.nonneg stock hstock
    unfold Fits
    omega

theorem Ints.header (h : Ints map airlines) (hv : Valid T)
    (hs : Shrinks (Turn.init map airlines) T) (ht : T.get a p = some t) :
    ({ airline := a, id := t.plane.id, cityId := t.plane.cityId } : PlaneMessageHeader).Fits := by
  obtain ⟨hid, -, c, hcity, hlt⟩ := hv.plane a p t ht
  obtain ⟨ha, airline, hmem, plane, hplane, -⟩ := hs.origin ht
  have hp := (List.getElem?_eq_some_iff.mp hplane).1
  have hcities : T.map.cities.length = map.cities.length := hs.cities.length_eq.symm
  refine ⟨fits_of_lt ha h.fleet, ?_, ?_⟩
  · rw [hid]
    exact fits_of_lt hp (h.planes airline hmem)
  · rw [hcity]
    exact fits_of_lt (hcities ▸ hlt) h.cities

theorem Ints.request (h : Ints map airlines) (hv : Valid T)
    (hs : Shrinks (Turn.init map airlines) T) (ht : T.get a p = some t) {ph : Phase}
    {msg : PlaneMessage} (hmsg : request a t.plane ph = some msg) : msg.Sendable := by
  have hfit := h.stocksFit hv hs ht (Drained.refl (hv.ok.cargo a p t ht))
  have hheader := h.header hv hs ht
  cases ph with
  | one =>
    rw [PlaneSim.request, marshallChangeStock_eq hfit.length_le, Option.map_some] at hmsg
    cases hmsg
    exact .unloadStock hheader hfit
  | two =>
    rw [PlaneSim.request, marshallCheckDestinations_eq hfit.length_le, Option.map_some] at hmsg
    cases hmsg
    exact .checkDestinations hheader hfit (by decide)

/-- The report of an airline. -/
theorem Ints.report (h : Ints map airlines) (ha : a < airlines.length) {airline : Airline}
    (hmem : airline ∈ airlines) {flags : List Bool} (hlen : flags.length = airline.planes.length)
    (ph : Phase) : (reportMessage a flags ph).Sendable := by
  have hplanes := h.planes airline hmem
  have hcount : flags.count false ≤ flags.length := List.count_le_length
  cases ph with
  | one => exact .airlineDone
  | two =>
    refine .airlineStatus (fits_of_lt ha h.fleet) ?_ ?_ <;>
      simp only [marshallSendAirlineStatus, Fits] <;> omega

/-- The reply to an unload. -/
theorem Ints.stock (h : Ints map airlines) (hv : Valid T)
    (hs : Shrinks (Turn.init map airlines) T) (ht : T.get a p = some t) {map' : Map}
    {airline : Int} {reply : MapMessage}
    (hserve : serveUnload T.map (stockReply a t.plane.id t.plane.cityId t.plane.stocks) =
      some (map', airline, reply)) : reply.Sendable := by
  obtain ⟨hid, hpack, c, hcity, hlt⟩ := hv.plane a p t ht
  have hget : getFromVector T.map.cities t.plane.cityId = some T.map.cities[c] := by
    rw [hcity, getFromVector_natCast, List.getElem?_eq_getElem hlt]
  cases hun : unloadStocks T.map.cities[c].stock t.plane.stocks with
  | none =>
    unfold serveUnload stockReply at hserve
    dsimp only at hserve
    rw [initPlane_packed hv.product hpack, Option.bind_eq_bind, Option.bind_some] at hserve
    simp [updateMap, hget, hun] at hserve
  | some r =>
    obtain ⟨needs, stocks⟩ := r
    have hunloads := unloadStocks_iff.mp hun
    have hneeds := hv.ok.needs _ (List.getElem_mem hlt)
    obtain ⟨-, hdrained⟩ := drained_unloads hunloads hneeds (hv.ok.cargo a p t ht)
    cases (serveUnload_eq hv.product hpack hget hunloads).symm.trans hserve
    exact .stock (h.header hv hs ht) (h.stocksFit hv hs ht hdrained)

/-- The reply to a check of destinations. -/
theorem Ints.destinations (h : Ints map airlines) (hv : Valid T)
    (hs : Shrinks (Turn.init map airlines) T) (ht : T.get a p = some t) {cityInfo : List CityInfo}
    (hcand : candidates cfg.qsort T.map t.plane = some cityInfo) {d : DestinationsMessage}
    (hd : marshallGiveDestinations t.plane.id (cityInfo.map (·.cityId))
      (cityInfo.map (·.distance)) = some d) : (MapMessage.destinations d).Sendable := by
  have hoffered := (candidates_spec hcand).1
  have hcities : T.map.cities.length = map.cities.length := hs.cities.length_eq.symm
  refine .destinations (h.header hv hs ht).2.1 (fun id hid => ?_) (fun distance hdistance => ?_)
    (by simp) hd
  · obtain ⟨info, hinfo, rfl⟩ := List.mem_map.mp hid
    obtain ⟨city, hcity, hid, -⟩ := hoffered info hinfo
    obtain ⟨k, hk⟩ := List.mem_iff_getElem?.mp hcity
    have hlt := (List.getElem?_eq_some_iff.mp hk).1
    rw [hid, hv.ok.numbered k city hk]
    exact fits_of_lt (hcities ▸ hlt) h.cities
  · obtain ⟨info, hinfo, rfl⟩ := List.mem_map.mp hdistance
    obtain ⟨city, -, -, -, hget⟩ := hoffered info hinfo
    refine h.distances city.id t.plane.cityId info.distance ?_
    rw [← hget]
    unfold getDistance
    rw [hs.matrix]
    rfl

end Numbers

/-! ## What is sent -/

section Sent

variable {a p : ℕ} {room : Bool} {A : AirlineState} {r : AirlineStep} {msg : PlaneMessage}

theorem reportStep_sent {thread : Thread} {pc : ReportPc} {x : ReportStep}
    (h : reportStep a room A thread pc = some x) (hmsg : x.sent = some msg) : pc = .send msg := by
  unfold reportStep at h
  cases pc with
  | send m =>
    dsimp only at h
    split at h <;> cases h
    cases hmsg
    rfl
  | stage =>
    dsimp only at h
    split at h <;> cases h <;> cases hmsg
  | count i flying =>
    dsimp only at h
    split at h <;> cases h <;> cases hmsg
  | lockConn m =>
    dsimp only at h
    split at h <;> cases h
    cases hmsg
  | unlockConn =>
    cases h
    cases hmsg

/-- The listener sends reports only. -/
theorem listenStep_sent (h : listenStep a room A = some r) (hmsg : r.2.2 = some msg) :
    A.pc = .report (.send msg) := by
  unfold listenStep at h
  cases hpc : A.pc with
  | report pc =>
    simp only [hpc] at h
    obtain ⟨x, hx, rfl⟩ := Option.map_eq_some_iff.mp h
    rw [reportStep_sent hx hmsg]
  | recv =>
    simp only [hpc] at h
    split at h
    · cases h
    · split at h <;> cases h <;> cases hmsg
  | lockLeft phase =>
    simp only [hpc] at h
    split at h <;> cases h
    cases hmsg
  | scan phase i =>
    simp only [hpc] at h
    split at h <;> cases h <;> cases hmsg
  | bcast phase i =>
    simp only [hpc] at h
    split at h
    · split at h
      · cases h
        cases hmsg
      · obtain ⟨P, -, rfl⟩ := Option.map_eq_some_iff.mp h
        cases hmsg
    · cases h
      cases hmsg
  | unlockLeft =>
    simp only [hpc] at h
    cases h
    cases hmsg
  | push id m =>
    simp only [hpc] at h
    split at h
    · obtain ⟨P, -, rfl⟩ := Option.map_eq_some_iff.mp h
      cases hmsg
    · cases h
      cases hmsg
  | finish i =>
    simp only [hpc] at h
    split at h
    · split at h
      · cases h
        cases hmsg
      · obtain ⟨P, -, rfl⟩ := Option.map_eq_some_iff.mp h
        cases hmsg
    · cases h
      cases hmsg
  | join i =>
    simp only [hpc] at h
    split at h
    · split at h <;> cases h
      cases hmsg
    · cases h
      cases hmsg
  | stopped =>
    simp only [hpc] at h
    cases h

/-- A plane sends its request or the report. -/
theorem planeStep_sent (h : planeStep a room A p = some r) (hmsg : r.2.2 = some msg) :
    ∃ P, A.planes[p]? = some P ∧
      ((∃ ph, P.pc = .send ph ∧ request a P.plane ph = some msg) ∨
        ∃ ph, P.pc = .report ph (.send msg)) := by
  unfold planeStep at h
  obtain ⟨P, hP, h⟩ := Option.bind_eq_some_iff.mp h
  refine ⟨P, hP, ?_⟩
  cases hpc : P.pc with
  | send phase =>
    simp only [hpc] at h
    split at h
    · cases h
      cases hmsg
    · rename_i m hreq
      split at h <;> cases h
      cases hmsg
      exact .inl ⟨phase, rfl, hreq⟩
  | report phase pc =>
    simp only [hpc] at h
    obtain ⟨x, hx, rfl⟩ := Option.map_eq_some_iff.mp h
    rw [reportStep_sent hx hmsg]
    exact .inr ⟨phase, rfl⟩
  | top =>
    simp only [hpc] at h
    split at h
    · cases h
      cases hmsg
    · split at h <;> cases h <;> cases hmsg
  | safe action =>
    simp only [hpc] at h
    split at h <;> cases h <;> cases hmsg
  | lockConn phase =>
    simp only [hpc] at h
    split at h <;> cases h
    cases hmsg
  | reply phase =>
    simp only [hpc] at h
    split at h
    · cases h
    · split at h <;> cases h <;> cases hmsg
  | cont =>
    simp only [hpc] at h
    split at h
    · cases h
    · split at h <;> cases h <;> cases hmsg
    · cases h
      cases hmsg
  | lockLeft phase =>
    simp only [hpc] at h
    split at h <;> cases h
    cases hmsg
  | unlockConn phase | dec phase | unlockLeft phase =>
    simp only [hpc] at h
    cases h
    cases hmsg
  | exited =>
    simp only [hpc] at h
    cases h

end Sent

section Runs

variable {map : Map} {airlines : List Airline} {cfg : Config} {s s' : System} {T : Turn}
  {sts : List Status} {a p : ℕ} {A : AirlineState} {P : PlaneThread} {ts : List TurnPlane}
  {st : Status} {ph : Phase} {out : List PlaneMessage} {pend : List MapMessage}
  {msg : PlaneMessage} {tr es : List Event}

theorem AirlineOk.listener_report (h : AirlineOk a ph st A ts out pend)
    (hpc : A.pc = .report (.send msg)) : msg = reportMessage a A.done ph := by
  have hs := h.status
  have hquiet : ∀ {st : Status}, Quiet ph st A ts out pend → False := by
    intro st hq
    rcases hq.listener with hq | hq | hq <;> rw [hpc] at hq <;> cases hq
  cases st with
  | busy =>
    have hbusy := hs.2.2
    rw [hpc] at hbusy
    exact hbusy.2.2
  | ending =>
    have hending := hs.2.2.2.2.2
    rw [hpc] at hending
    exact hending.elim
  | waiting | told | reported | counted | toldEnd => exact (hquiet hs).elim

theorem AirlineOk.plane_report (h : AirlineOk a ph st A ts out pend) (hP : A.planes[p]? = some P)
    {w : Phase} (hpc : P.pc = .report w (.send msg)) : msg = reportMessage a A.done ph := by
  have hreporting : P.reporting = true := reporting_of_report hpc (by simp)
  obtain ⟨hfly, -⟩ := h.flying hP (.inr hreporting) (by rw [hpc]; rfl)
  exact (hfly.report P (List.mem_of_getElem? hP) w _ hpc (by simp)).2

/-- A plane that is about to send its request is the plane of the turn. -/
theorem AirlineOk.plane_request (h : AirlineOk a ph st A ts out pend) (hP : A.planes[p]? = some P)
    {w : Phase} (hpc : P.pc = .send w) : ∃ t, ts[p]? = some t ∧ t.plane = P.plane := by
  obtain ⟨t, ht⟩ := h.exists_abstract hP
  exact ⟨t, ht, ((h.planeOk hP ht).idle (by simp [hpc, PlanePc.station])).2.2⟩

/-- What the threads send. -/
theorem Ints.sent (h : Ints map airlines) (hsim : Sim s T sts) {qsort : Qsort}
    {unloads : List (List Stock × List Stock)} (hok : TurnOk (Turn.init map airlines))
    (hturns : Run (turnStep qsort) (Turn.init map airlines) unloads T)
    (hA : s.airlines[a]? = some A) :
    (∀ ph, (reportMessage a A.done ph).Sendable) ∧
      ∀ (p : ℕ) (P : PlaneThread) (ph : Phase) msg, A.planes[p]? = some P → P.pc = .send ph →
        PlaneSim.request a P.plane ph = some msg →
        msg.Sendable := by
  obtain ⟨ts, st, hat⟩ := hsim.exists_at_of_system hA
  have hairline := hsim.airline a A ts st hat
  have hs := (turnOk_run hok hturns).2
  refine ⟨fun ph => ?_, fun p P ph msg hP hpc hreq => ?_⟩
  · have hrow := congrArg (·[a]?) (turn_lengths hturns)
    simp only [Turn.init, List.getElem?_map, hat.turn, Option.map_some] at hrow
    cases hair : airlines[a]? with
    | none =>
      rw [hair] at hrow
      cases hrow
    | some airline =>
      rw [hair] at hrow
      have hlen : ts.length = airline.planes.length := by simpa using hrow
      refine h.report (List.getElem?_eq_some_iff.mp hair).1 (List.mem_of_getElem? hair) ?_ ph
      rw [← hlen, hairline.length]
      exact List.length_map _
  · obtain ⟨t, ht, hplane⟩ := hairline.plane_request hP hpc
    rw [← hplane] at hreq
    exact h.request hsim.valid hs (get2_eq_some.mpr ⟨ts, hat.turn, ht⟩) hreq

/-- The reply to a request is of the map's own making. -/
theorem Ints.reply (h : Ints map airlines) (hsim : Sim s T sts) {unloads : List (List Stock × List Stock)}
    (hok : TurnOk (Turn.init map airlines))
    (hturns : Run (turnStep cfg.qsort) (Turn.init map airlines) unloads T) {w phase : Phase}
    {i j : ℕ} {airline : Int} {reply : MapMessage} {inbox : List (ℕ × PlaneMessage)}
    (hpc : s.pc = .recv w i) (hinbox : s.inbox = (a, msg) :: inbox)
    (hreply : (act cfg { s with inbox := inbox, msg := some msg } w i msg).2.pc =
      .reply phase j airline reply) : reply.Sendable := by
  have hs := (turnOk_run hok hturns).2
  have hmap : s.map = T.map := hsim.map
  cases w with
  | one =>
    cases msg with
    | airlineDone | airlineStatus status | checkDestinations m =>
      simp [act, hpc] at hreply
    | unloadStock m =>
      obtain ⟨-, p, t, -, ht, -, -, hask⟩ := hsim.asking hpc hinbox rfl
      have hpack := (hsim.valid.plane a p t ht).packable
      have hreq := hask.request
      rw [PlaneSim.request, marshallChangeStock_eq hpack.length_le, Option.map_some] at hreq
      cases hreq
      unfold act at hreply
      dsimp only at hreply
      split at hreply
      · rename_i r hserve
        cases hreply
        rw [hmap] at hserve
        exact h.stock hsim.valid hs ht hserve
      · cases hreply
  | two =>
    cases msg with
    | airlineDone | airlineStatus status | unloadStock m =>
      simp [act, hpc] at hreply
    | checkDestinations m =>
      obtain ⟨-, p, t, -, ht, -, -, hask⟩ := hsim.asking hpc hinbox rfl
      have hpack := (hsim.valid.plane a p t ht).packable
      have hreq := hask.request
      have hplane : ({ id := t.plane.id, stocks := t.plane.stocks, cityId := t.plane.cityId
                       distance := 0 } : Plane) = t.plane := by rw [← hask.ground]
      rw [PlaneSim.request, marshallCheckDestinations_eq hpack.length_le, Option.map_some] at hreq
      cases hreq
      unfold act at hreply
      dsimp only at hreply
      split at hreply
      · rename_i r hserve
        cases hreply
        rw [hmap] at hserve
        unfold serveDestinations at hserve
        dsimp only at hserve
        rw [initPlane_packed hsim.valid.product hpack, Option.bind_eq_bind, Option.bind_some,
          hplane] at hserve
        obtain ⟨d, hd, heq⟩ := Option.bind_eq_some_iff.mp hserve
        obtain ⟨cityInfo, hcand, hmarshall⟩ := Option.bind_eq_some_iff.mp hd
        cases heq
        exact h.destinations hsim.valid hs ht hcand hmarshall
      · cases hreply

/-- A reply comes up where the map takes a request. -/
theorem mapStep_reply {phase : Phase} {j : ℕ} {airline : Int} {reply : MapMessage}
    (h : mapStep cfg s = some (es, s')) (hreply : s'.pc = .reply phase j airline reply) :
    ∃ w i a msg inbox, s.pc = .recv w i ∧ s.inbox = (a, msg) :: inbox ∧
      (act cfg { s with inbox := inbox, msg := some msg } w i msg).2.pc =
        .reply phase j airline reply := by
  unfold mapStep at h
  cases hpc : s.pc with
  | recv w i =>
    simp only [hpc] at h
    split at h
    · cases h
      cases w <;> cases hreply
    · cases hinbox : s.inbox with
      | nil =>
        rw [hinbox] at h
        cases h
      | cons x inbox =>
        rw [hinbox] at h
        cases h
        exact ⟨w, i, x.1, x.2, inbox, rfl, rfl, hreply⟩
  | head =>
    simp only [hpc] at h
    split at h <;> cases h <;> cases hreply
  | send w i =>
    simp only [hpc] at h
    split at h
    · obtain ⟨s1, -, heq⟩ := Option.map_eq_some_iff.mp h
      cases heq
      cases hreply
    · cases h
      cases hreply
  | reply w i airline' msg =>
    simp only [hpc] at h
    split at h
    · obtain ⟨s1, -, heq⟩ := Option.map_eq_some_iff.mp h
      cases heq
      cases hreply
    · cases h
      cases hreply
  | finish i =>
    simp only [hpc] at h
    split at h
    · obtain ⟨s1, -, heq⟩ := Option.map_eq_some_iff.mp h
      cases heq
      cases hreply
    · cases h
      cases hreply
  | halted | crashed =>
    simp only [hpc] at h
    cases h

/-- The map writes replies of its own making. -/
theorem reply_run (h : Setup map airlines) (hints : Ints map airlines)
    (hrun : Run (reliableStep cfg) (System.init map airlines) tr s) :
    ∀ phase i airline msg, s.pc = .reply phase i airline msg → msg.Sendable := by
  induction hrun with
  | refl => exact fun phase i airline msg hpc => by cases hpc
  | @step tr es s1 s2 action run last ih =>
    intro phase j airline reply hreply
    have hsame : s2.pc = s1.pc → reply.Sendable := fun hpc =>
      ih phase j airline reply (hpc ▸ hreply)
    unfold reliableStep at last
    split at last
    swap
    · cases last
    cases action with
    | map =>
      obtain ⟨w, i, a, msg, inbox, hpc, hinbox, hact⟩ := mapStep_reply last hreply
      obtain ⟨T, sts, hturns, hsim⟩ := sim_run h run (by rw [hpc]; simp)
      exact hints.reply hsim h.valid.ok hturns hpc hinbox hact
    | listener a | plane a p =>
      obtain ⟨A, -, hupdate⟩ := Option.bind_eq_some_iff.mp last
      obtain ⟨r, -, heq⟩ := Option.map_eq_some_iff.mp hupdate
      cases heq
      exact hsame rfl
    | exit =>
      cases last
      exact hsame rfl
    | mapFail | listenerFail a =>
      rename_i hreliable
      cases hreliable

/-- **Every message of a run can be carried.** -/
theorem sends_run (h : Setup map airlines) (hlist : Listing map) (hints : Ints map airlines)
    (hrun : Run (reliableStep cfg) (System.init map airlines) tr s) : Sends cfg s := by
  obtain ⟨T, sts, hturns, hsim⟩ := sim_run h hrun (not_crashed h hlist hrun)
  refine ⟨reply_run h hints hrun, ?_, ?_⟩
  · intro a A r msg hA hr hmsg
    obtain ⟨ts, st, hat⟩ := hsim.exists_at_of_system hA
    have hreport := (hints.sent hsim h.valid.ok hturns hA).1 T.phase
    rwa [← (hsim.airline a A ts st hat).listener_report (listenStep_sent hr hmsg)] at hreport
  · intro a A p r msg hA hr hmsg
    obtain ⟨ts, st, hat⟩ := hsim.exists_at_of_system hA
    obtain ⟨hreport, hrequest⟩ := hints.sent hsim h.valid.ok hturns hA
    obtain ⟨P, hP, ⟨w, hpc, hreq⟩ | ⟨w, hpc⟩⟩ := planeStep_sent hr hmsg
    · exact hrequest p P w msg hP hpc hreq
    · rw [(hsim.airline a A ts st hat).plane_report hP hpc]
      exact hreport T.phase

theorem written_init (map : Map) (airlines : List Airline) :
    (System.init map airlines).written = System.init map airlines := by
  unfold System.init System.written
  dsimp only
  rw [List.map_map, List.map_nil]
  congr 1
  refine List.map_congr_left fun airline _ => ?_
  simp [bootstrapPlanes, AirlineState.written, PlaneThread.written, ListenPc.written]

/-- **The simulation over bytes is the simulation.** Whatever the stacks of the senders and the
unions of the receivers hold, a run over bytes is a run of the system, but for the entries nobody
wrote; and in each of its states the same steps are possible. -/
theorem wire_run (h : Setup map airlines) (hlist : Listing map) (hints : Ints map airlines)
    (hrun : Run (wireStep cfg) (System.init map airlines) tr s) :
    Run (reliableStep cfg) (System.init map airlines) (tr.map Event.written) s.written ∧
      ∀ action junk, IPC_MAX_PACKET_LEN ≤ junk.length →
        ((wireStep cfg s (action, junk)).isSome ↔ (reliableStep cfg s.written action).isSome) := by
  have hruns : Run (reliableStep cfg) (System.init map airlines) (tr.map Event.written)
      s.written := by
    induction hrun with
    | refl =>
      rw [written_init]
      exact .refl
    | @step tr es s1 s2 action run last ih =>
      rw [List.map_append]
      exact ih.step (wireStep_refines (sends_run h hlist hints ih) last)
  have hsends := sends_run h hlist hints hruns
  refine ⟨hruns, fun action junk hjunk => ?_⟩
  rw [Option.isSome_iff_exists, Option.isSome_iff_exists]
  constructor
  · rintro ⟨⟨es, s'⟩, hstep⟩
    exact ⟨_, wireStep_refines hsends hstep⟩
  · rintro ⟨r, hstep⟩
    exact exists_wireStep hsends hjunk hstep

end Runs

theorem ints_trio : Ints trioMap trioAirlines where
  cities := by decide
  products := by decide
  fleet := by decide
  planes := by decide
  amounts := by decide
  distances i j distance h := by
    obtain ⟨row, hrow, hget⟩ := Option.bind_eq_some_iff.mp h
    obtain ⟨_, -, hi⟩ := getFromVector_eq_some hrow
    obtain ⟨_, -, hj⟩ := getFromVector_eq_some hget
    have hall : ∀ row ∈ trioMap.matrix, ∀ distance ∈ row, Fits distance := by decide
    exact hall row (List.mem_of_getElem? hi) distance (List.mem_of_getElem? hj)

/-- The bytes on the stacks and in the unions. -/
def noise : List UInt8 := List.replicate IPC_MAX_PACKET_LEN 171

/-- Up to a request in the inbox of the map, with noise behind its two stocks. -/
theorem wire_run_trio : ∃ tr s a msg,
    Run (wireStep someConfig) (System.init trioMap trioAirlines) tr s ∧
      s.inbox = [(a, msg)] ∧ msg.written ≠ msg ∧
      Run (reliableStep someConfig) (System.init trioMap trioAirlines) (tr.map Event.written)
        s.written ∧
      ((wireStep someConfig s (.map, noise)).isSome ↔
        (reliableStep someConfig s.written .map).isSome) := by
  have hsent : ((exec (wireStep someConfig) (System.init trioMap trioAirlines)
      (toUnload.map fun action => (action, noise))).any fun x =>
        x.2.inbox.any fun y => x.2.inbox = [y] ∧ y.2.written ≠ y.2) = true := by decide +kernel
  obtain ⟨⟨tr, s⟩, hexec, hany⟩ := (Option.any_eq_true _ _).mp hsent
  obtain ⟨⟨a, msg⟩, -, hmsg⟩ := List.any_eq_true.mp hany
  obtain ⟨hinbox, hnoise⟩ : s.inbox = [(a, msg)] ∧ msg.written ≠ msg := by simpa using hmsg
  have hrun := run_of_exec hexec
  obtain ⟨hrun', hsame⟩ := wire_run setup_trio listing_trio ints_trio hrun
  exact ⟨tr, s, a, msg, hrun, hinbox, hnoise, hrun', hsame .map noise (by decide +kernel)⟩

end PlaneSim
