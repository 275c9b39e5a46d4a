import PlaneSim.Outcome
import PlaneSim.Termination

/-!
# What is delivered in the end

A simulation that nobody interrupts delivers of every product all that is needed or all that is
aboard, whichever is less, so that the outcome depends neither on the order in which the threads
take their steps nor on the room of the inboxes nor on the sort (`final_outcome`).

1. A product of which some is left aboard retired planes is needed nowhere
   (`Turn.need_or_aboard`), and what has been delivered follows by conservation
   (`outcome_of_retired`).
2. The map only ends when every city is satisfied, when all turns are over, or when the exit flag is
   up (`ended_run`).
3. When all threads have ended, what is aboard is what the abstract turn says
   (`Sim.aboard_eq_of_final`).
-/

namespace PlaneSim

open Lts Update

/-! ## Retired planes -/

theorem exists_of_amountOf_ne_zero {id : Int} {stocks : List Stock}
    (hne : amountOf id stocks ≠ 0) : ∃ s ∈ stocks, s.product.id = id ∧ s.amount ≠ 0 := by
  by_contra hnone
  refine hne (List.sum_eq_zero ?_)
  simp only [List.mem_map, forall_exists_index, and_imp, forall_apply_eq_imp_iff₂]
  intro s hs
  split
  · rename_i hid
    by_contra hs'
    exact hnone ⟨s, hs, hid, hs'⟩
  · rfl

theorem amountOf_eq_zero_of_forall {id : Int} {stocks : List Stock}
    (h : ∀ s ∈ stocks, s.product.id = id → s.amount = 0) : amountOf id stocks = 0 := by
  refine List.sum_eq_zero ?_
  simp only [List.mem_map, forall_exists_index, and_imp, forall_apply_eq_imp_iff₂]
  intro s hs
  split
  · exact h s hs ‹_›
  · rfl

theorem Map.need_eq_zero {map : Map} {id : Int}
    (h : ∀ city ∈ map.cities, amountOf id city.stock = 0) : map.need id = 0 := by
  refine List.sum_eq_zero ?_
  simpa using h

theorem need_nonneg {T : Turn} (h : TurnOk T) (id : Int) : 0 ≤ T.map.need id :=
  List.sum_nonneg (by simpa using fun city hc => amountOf_nonneg id (h.needs city hc))

theorem aboard_nonneg {T : Turn} (h : TurnOk T) (id : Int) : 0 ≤ T.aboard id :=
  sum2_nonneg _ fun a p t ht => amountOf_nonneg id (h.cargo a p t ht)

/-- With all planes retired, a product of which some is left aboard is needed nowhere. -/
theorem Turn.need_or_aboard {T : Turn} (huseless : Useless T) (hall : T.AllDone)
    (id : Int) : T.map.need id = 0 ∨ T.aboard id = 0 := by
  by_cases hleft : ∃ a p t, T.get a p = some t ∧ amountOf id t.plane.stocks ≠ 0
  · left
    obtain ⟨a, p, t, ht, hleft⟩ := hleft
    obtain ⟨s, hs, hid, hne⟩ := exists_of_amountOf_ne_zero hleft
    refine Map.need_eq_zero fun city hc => amountOf_eq_zero_of_forall fun c hcm hcid => ?_
    have hshared := huseless a p t ht (hall a p t ht) city hc c hcm s hs (hcid.trans hid.symm)
    exact hshared.resolve_right hne
  · right
    refine sum2_eq_zero _ fun a p t ht => ?_
    by_contra hne
    exact hleft ⟨a, p, t, ht, hne⟩

theorem need_eq_zero_of_satisfied {map : Map} {id : Int}
    (h : ∀ city ∈ map.cities, cityIsSatisfied city = true) : map.need id = 0 := by
  refine Map.need_eq_zero fun city hc => amountOf_eq_zero_of_forall fun s hs _ => ?_
  have hcity := h city hc
  unfold cityIsSatisfied hasNoStocks at hcity
  simpa using List.all_eq_true.mp hcity s hs

/-- What is left of the needs and aboard, once they cannot meet any more. -/
theorem outcome_of_retired {need aboard need' aboard' : Int} (hneed : 0 ≤ need')
    (haboard : 0 ≤ aboard') (hfall : need - need' = aboard - aboard')
    (hnone : need' = 0 ∨ aboard' = 0) :
    need' = max 0 (need - aboard) ∧ aboard' = max 0 (aboard - need) := by
  omega

/-! ## The end of the main loop -/

section Ended

variable {cfg : Config} {s s' : System} {es : List Event}

/-- The map has left the main loop. -/
def MapPc.left : MapPc → Bool
  | .finish _ => true
  | .halted => true
  | _ => false

/-- The test of the main loop has failed. -/
def System.Ended (s : System) : Prop := s.exitState = true ∨ continueSim s.map s.turn = false

theorem left_act {phase : Phase} {i : ℕ} (hpc : s.pc = .recv phase i) (cfg : Config)
    (msg : PlaneMessage) :
    (act cfg s phase i msg).2.pc.left = false := by
  unfold act
  split
  · rfl
  · split <;> rfl
  · rfl
  · split <;> rfl
  · dsimp only
    rw [hpc]
    rfl

theorem deliver_same {i : ℕ} {msg : MapMessage} (h : s.deliver cfg i msg = some s') :
    s'.map = s.map ∧ s'.turn = s.turn ∧ s'.exitState = s.exitState := by
  obtain ⟨A, -, h⟩ := Option.bind_eq_some_iff.mp h
  split at h <;> cases h
  exact ⟨rfl, rfl, rfl⟩

theorem System.Ended.congr (h : s.Ended) (hmap : s'.map = s.map) (hturn : s'.turn = s.turn)
    (hexit : s'.exitState = s.exitState) : s'.Ended := by
  unfold System.Ended
  rw [hmap, hturn, hexit]
  exact h

theorem ended_mapStep (hs : s.pc.left = true → s.Ended) (h : mapStep cfg s = some (es, s')) :
    s'.pc.left = true → s'.Ended := by
  unfold mapStep at h
  cases hpc : s.pc with
  | head =>
    simp only [hpc] at h
    split at h <;> cases h
    · intro hleft
      cases hleft
    · rename_i hstop
      intro _
      unfold System.Ended
      simpa [Bool.and_eq_true, imp_iff_not_or] using hstop
  | send phase i =>
    simp only [hpc] at h
    split at h
    · obtain ⟨s1, -, h⟩ := Option.map_eq_some_iff.mp h
      cases h
      intro hleft
      cases hleft
    · cases h
      intro hleft
      cases hleft
  | recv phase i =>
    simp only [hpc] at h
    split at h
    · cases h
      cases phase <;> intro hleft <;> cases hleft
    · split at h
      · cases h
      · rename_i b msg inbox hinbox
        have hact : (act cfg { s with inbox := inbox, msg := some msg } phase i msg).2 = s' := by
          rw [hpc]
          exact (Prod.mk.inj (Option.some.inj h)).2
        have hleft := left_act (s := { s with inbox := inbox, msg := some msg }) hpc cfg msg
        rw [hact] at hleft
        rw [hleft]
        intro hleft
        cases hleft
  | reply phase i airline msg =>
    simp only [hpc] at h
    split at h
    · obtain ⟨s1, -, h⟩ := Option.map_eq_some_iff.mp h
      cases h
      intro hleft
      cases hleft
    · cases h
      intro hleft
      cases hleft
  | finish i =>
    simp only [hpc] at h
    have hended := hs (by rw [hpc]; rfl)
    split at h
    · obtain ⟨s1, hs1, h⟩ := Option.map_eq_some_iff.mp h
      cases h
      obtain ⟨hmap, hturn, hexit⟩ := deliver_same hs1
      exact fun _ => hended.congr hmap hturn hexit
    · cases h
      exact fun _ => hended
  | halted | crashed =>
    simp only [hpc] at h
    cases h

/-- **The map ends for a reason**: the exit flag is up, every city is satisfied, or the turns are
over. -/
theorem ended_run {map : Map} {airlines : List Airline} {tr : List Event}
    (hrun : Run (reliableStep cfg) (System.init map airlines) tr s) :
    s.pc.left = true → s.Ended := by
  refine hrun.invariant (P := fun s => s.pc.left = true → s.Ended) (fun h => by cases h) ?_
  intro s action es s' hs hstep
  obtain ⟨hstep, hfail⟩ := step_of_reliable hstep
  cases action with
  | map => exact ended_mapStep hs hstep
  | listener a | plane a p =>
    obtain ⟨A, -, hstep⟩ := Option.bind_eq_some_iff.mp hstep
    obtain ⟨r, -, hnew⟩ := Option.map_eq_some_iff.mp hstep
    cases hnew
    exact hs
  | exit =>
    cases hstep
    exact fun _ => .inl rfl
  | mapFail => exact absurd rfl hfail
  | listenerFail a =>
    obtain ⟨A, -, hstep⟩ := Option.bind_eq_some_iff.mp hstep
    obtain ⟨A', -, hnew⟩ := Option.map_eq_some_iff.mp hstep
    cases hnew
    exact hs

end Ended

/-! ## The outcome -/

section Outcome

variable {cfg : Config} {map : Map} {airlines : List Airline} {roads : List (List Int)}
  {s : System} {tr : List Event} {T : Turn} {sts : List Status}

/-- When all threads have ended, their planes are those of the abstract turn. -/
theorem Sim.aboard_eq_of_final (h : Sim s T sts) (hfinal : Final s) (id : Int) :
    T.aboard id = s.aboard id := by
  have hplanes : T.airlines.map (fun row => row.map (·.plane)) =
      (s.airlines.map (·.planes)).map fun row => row.map (·.plane) := by
    refine List.ext_getElem? fun a => ?_
    rw [List.getElem?_map, List.getElem?_map, List.getElem?_map]
    by_cases ha : a < s.airlines.length
    · obtain ⟨A, ts, st, hat⟩ := h.exists_at ha
      have hok := h.airline a A ts st hat
      rw [hat.turn, hat.system, Option.map_some, Option.map_some, Option.map_some]
      refine congrArg some (List.ext_getElem? fun p => ?_)
      rw [List.getElem?_map, List.getElem?_map]
      cases hP : A.planes[p]? with
      | none =>
        rw [List.getElem?_eq_none (by rw [hok.length]; exact List.getElem?_eq_none_iff.mp hP)]
        rfl
      | some P =>
        obtain ⟨t, ht⟩ := hok.exists_abstract hP
        have hexited := hfinal.plane A (List.mem_of_getElem? hat.system) P (List.mem_of_getElem? hP)
        have hidle := (hok.planeOk hP ht).idle (by simp [hexited, PlanePc.station])
        rw [ht, Option.map_some, Option.map_some, hidle.2.2]
    · rw [List.getElem?_eq_none (by rw [h.length]; omega), List.getElem?_eq_none (by omega)]
      rfl
  calc T.aboard id
      = sum2 (fun plane : Plane => amountOf id plane.stocks)
          (T.airlines.map fun row => row.map (·.plane)) :=
        (sum2_map (fun plane : Plane => amountOf id plane.stocks) TurnPlane.plane _).symm
    _ = sum2 (fun plane : Plane => amountOf id plane.stocks)
          ((s.airlines.map (·.planes)).map fun row => row.map (·.plane)) := by rw [hplanes]
    _ = s.aboard id :=
        sum2_map (fun plane : Plane => amountOf id plane.stocks) PlaneThread.plane _

/-- What the turns unload is what the map applies. -/
theorem exists_applied {e : List Stock × List Stock} (h : e ∈ tr.filterMap Event.unload) :
    ∃ airline plane, .applied airline plane e.1 e.2 ∈ tr := by
  obtain ⟨event, hevent, hunload⟩ := List.mem_filterMap.mp h
  cases event with
  | applied airline plane city stocks =>
    cases hunload
    exact ⟨airline, plane, hevent⟩
  | sent _ _ _ | receive _ _ _ | got _ _ _ | stored _ _ | ready _ _ _ | ended _ _ | error =>
    cases hunload

/-- At the end of a simulation that nobody interrupts, no product is both needed and aboard. -/
theorem need_or_aboard_of_final (h : Setup map airlines) (hlist : Listing map)
    (hneeds : NeedsDistinct map) (hchart : Charted roads map)
    (hfit : ∀ airline ∈ airlines, ∀ plane ∈ airline.planes, Distinct plane.stocks ∧
      ∀ city ∈ map.cities, ScoreFits city.stock plane.stocks)
    (hlast : (map.totalNeed + 1) * (2 * map.longest + 2) ≤ 70000)
    (hrun : Run (reliableStep cfg) (System.init map airlines) tr s) (hfinal : Final s)
    (hexit : s.exitState = false) (id : Int) : s.map.need id = 0 ∨ s.aboard id = 0 := by
  obtain ⟨T, sts, hturns, hsim⟩ := sim_run h hrun (not_crashed h hlist hrun)
  have hturn : s.turn = T.turn := by
    have := hsim.turn
    rwa [hfinal.map] at this
  rw [hsim.map, ← hsim.aboard_eq_of_final hfinal]
  rcases ended_run hrun (by rw [hfinal.map]; rfl) with hup | hstop
  · rw [hexit] at hup
    cases hup
  rw [continueSim, Bool.and_eq_false_iff] at hstop
  rcases hstop with hover | hsat
  · obtain ⟨n, hn⟩ := Int.eq_ofNat_of_zero_le (totalNeed_nonneg h.valid.ok)
    have hn : map.totalNeed = n := hn
    rw [hn] at hlast
    have hlast : (n + 1) * (2 * map.longest + 2) ≤ 70000 := by exact_mod_cast hlast
    have hover : 70000 ≤ s.turn := by simpa using hover
    have hfresh : Fresh (Turn.init map airlines) := by
      rw [← toTurn_init]
      exact fresh_toTurn _
    have hall := all_retired n ⟨h.valid.ok, hneeds, hchart.within h.sound⟩ hfresh hturns hn.le
      (show 0 + _ ≤ T.turn by omega)
    exact Turn.need_or_aboard
      (useless_run (useless_init map airlines) h.valid.ok (scoresFit_init hfit) hturns) hall id
  · left
    refine need_eq_zero_of_satisfied fun city hc => ?_
    rw [← hsim.map] at hc
    simpa using List.any_eq_false.mp hsat city hc

/-- At the end of a simulation what is needed no more is what is aboard no more. -/
theorem conserved_of_final (h : Setup map airlines) (hlist : Listing map)
    (hneeds : NeedsDistinct map)
    (hrun : Run (reliableStep cfg) (System.init map airlines) tr s) (hfinal : Final s)
    (hm : ∀ airline plane city stocks, .applied airline plane city stocks ∈ tr →
      NoMismatch city stocks) (id : Int) :
    0 ≤ s.map.need id ∧ 0 ≤ s.aboard id ∧
      map.need id - s.map.need id = (System.init map airlines).aboard id - s.aboard id := by
  obtain ⟨T, sts, hturns, hsim⟩ := sim_run h hrun (not_crashed h hlist hrun)
  have hok := hsim.valid.ok
  have hfall := conservation h.valid.ok hneeds hturns (fun e he => by
    obtain ⟨airline, plane, happlied⟩ := exists_applied he
    exact hm airline plane e.1 e.2 happlied) id
  rw [hsim.map, ← hsim.aboard_eq_of_final hfinal, ← aboard_toTurn, toTurn_init]
  exact ⟨need_nonneg hok id, aboard_nonneg hok id, hfall⟩

/-- **The outcome.** A simulation that runs to its end without the exit flag leaves of each product
the need that exceeds what the planes set out with, and aboard what exceeds the need, whatever the
order of the steps: provided that the turns last, that no score overflows, and that nothing is
unloaded on another product's need. -/
theorem final_outcome (h : Setup map airlines) (hlist : Listing map)
    (hneeds : NeedsDistinct map) (hchart : Charted roads map)
    (hfit : ∀ airline ∈ airlines, ∀ plane ∈ airline.planes, Distinct plane.stocks ∧
      ∀ city ∈ map.cities, ScoreFits city.stock plane.stocks)
    (hlast : (map.totalNeed + 1) * (2 * map.longest + 2) ≤ 70000)
    (hrun : Run (reliableStep cfg) (System.init map airlines) tr s) (hfinal : Final s)
    (hexit : s.exitState = false)
    (hm : ∀ airline plane city stocks, .applied airline plane city stocks ∈ tr →
      NoMismatch city stocks) (id : Int) :
    s.map.need id = max 0 (map.need id - (System.init map airlines).aboard id) ∧
      s.aboard id = max 0 ((System.init map airlines).aboard id - map.need id) := by
  obtain ⟨hneed, haboard, hfall⟩ := conserved_of_final h hlist hneeds hrun hfinal hm id
  exact outcome_of_retired hneed haboard hfall
    (need_or_aboard_of_final h hlist hneeds hchart hfit hlast hrun hfinal hexit id)

end Outcome

/-- A plane that has more than the only need. -/
def soloMap : Map where
  cities := [{ name := ['R', 'o', 's', 'a', 'r', 'i', 'o'], id := 0
               stock := [{ amount := 5, product := aspi }] },
    { name := ['S', 'a', 'l', 't', 'a'], id := 1, stock := [{ amount := 0, product := aspi }] }]
  product := [aspi]
  matrix := [[0, 1], [1, 0]]

def soloAirlines : List Airline :=
  [{ id := 0
     planes := [{ id := 0, stocks := [{ amount := 7, product := aspi }], cityId := 0
                  distance := 0 }] }]

theorem parsed_solo : Parsed soloMap soloAirlines := by
  have hmap : parseMap ['2', '\n', 'R', 'o', 's', 'a', 'r', 'i', 'o', '\n',
      'A', 's', 'p', 'i', ' ', '5', '\n', 'S', 'a', 'l', 't', 'a', '\n',
      'A', 's', 'p', 'i', ' ', '0', '\n',
      'R', 'o', 's', 'a', 'r', 'i', 'o', ' ', 'S', 'a', 'l', 't', 'a', ' ', '1', '\n'] =
        .ok soloMap := by decide +kernel
  have hairline : parseAirlines ['1', '\n', 'R', 'o', 's', 'a', 'r', 'i', 'o', '\n',
      'A', 's', 'p', 'i', ' ', '7', '\n'] soloMap = .ok (soloAirlines[0], soloMap) := by
    decide +kernel
  exact .airline (.map hmap) hairline

theorem setup_solo : Setup soloMap soloAirlines :=
  ⟨parsed_solo.sound, by unfold Nonneg; decide, by unfold Nonneg; decide, by decide⟩

theorem listing_solo : Listing soloMap := by
  unfold Listing
  decide

theorem charted_solo : Charted crossRoads soloMap where
  valid := roads_of_lt (by unfold Square; decide) (by decide) (by decide)
  fits := by unfold RoadsFit; decide
  matrix := by decide +kernel

/-- The whole simulation. -/
def soloRun : List Action :=
  [(2, Action.map), (5, .listener 0), (6, .plane 0 0), (2, .listener 0), (3, .map), (2, .listener 0),
    (10, .plane 0 0), (3, .map), (5, .listener 0), (5, .plane 0 0), (2, .listener 0), (3, .map),
    (2, .listener 0), (12, .plane 0 0), (4, .map), (5, .listener 0), (1, .map)].flatMap
      fun block => List.replicate block.1 block.2

theorem exec_solo :
    ∃ tr s, exec (reliableStep someConfig) (System.init soloMap soloAirlines) soloRun =
        some (tr, s) ∧ Final s ∧ s.exitState = false ∧ tr.filterMap Event.unload =
          [(soloMap.cities[0].stock, soloAirlines[0].planes[0].stocks)] := by
  have hstate : (exec (reliableStep someConfig) (System.init soloMap soloAirlines) soloRun).map
      (fun r => (r.2.pc, r.2.exitState, r.2.airlines.map fun A => (A.pc, A.planes.map (·.pc)))) =
        some (.halted, false, [(.stopped, [.exited])]) := by decide +kernel
  have hunloads : (exec (reliableStep someConfig) (System.init soloMap soloAirlines) soloRun).map
      (fun r => r.1.filterMap Event.unload) =
        some [(soloMap.cities[0].stock, soloAirlines[0].planes[0].stocks)] := by decide +kernel
  obtain ⟨⟨tr, s⟩, hexec, hlast⟩ := Option.map_eq_some_iff.mp hstate
  rw [hexec] at hunloads
  simp only [Prod.mk.injEq] at hlast
  obtain ⟨hpc, hexit, hover⟩ := hlast
  refine ⟨tr, s, hexec, ⟨hpc, fun A hA => ?_, fun A hA P hP => ?_⟩, hexit,
    Option.some.inj hunloads⟩
  all_goals
    have hmem := List.mem_map_of_mem (f := fun A : AirlineState => (A.pc, A.planes.map (·.pc))) hA
    rw [hover, List.mem_singleton, Prod.mk.injEq] at hmem
  · exact hmem.1
  · have hin : P.pc ∈ A.planes.map (·.pc) := List.mem_map_of_mem hP
    rw [hmem.2] at hin
    exact List.mem_singleton.mp hin

/-- The city lists the only product aboard. -/
theorem noMismatch_solo {tr : List Event} (hunloads : tr.filterMap Event.unload =
      [(soloMap.cities[0].stock, soloAirlines[0].planes[0].stocks)]) {airline plane : Int}
    {city stocks : List Stock} (happlied : .applied airline plane city stocks ∈ tr) :
    NoMismatch city stocks := by
  have hmem : (city, stocks) ∈ tr.filterMap Event.unload :=
    List.mem_filterMap.mpr ⟨_, happlied, rfl⟩
  rw [hunloads] at hmem
  cases List.mem_singleton.mp hmem
  intro pre p post hsplit _ hnot
  have hp : p ∈ soloAirlines[0].planes[0].stocks := by
    rw [hsplit]
    simp
  obtain rfl := List.mem_singleton.mp hp
  exact absurd rfl (hnot { amount := 5, product := aspi } (List.mem_singleton.mpr rfl))

theorem final_outcome_solo :
    ∃ tr s, Run (reliableStep someConfig) (System.init soloMap soloAirlines) tr s ∧ Final s ∧
      s.map.need aspi.id = 0 ∧ s.aboard aspi.id = 2 := by
  obtain ⟨tr, s, hexec, hfinal, hexit, hunloads⟩ := exec_solo
  have hrun := run_of_exec hexec
  obtain ⟨hneed, haboard⟩ := final_outcome setup_solo listing_solo (by unfold NeedsDistinct; decide)
    charted_solo (by unfold ScoreFits; decide) (by decide) hrun hfinal hexit
    (fun _ _ _ _ happlied => noMismatch_solo hunloads happlied) aspi.id
  exact ⟨tr, s, hrun, hfinal, hneed, haboard⟩

end PlaneSim
