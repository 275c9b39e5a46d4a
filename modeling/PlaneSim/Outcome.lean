import PlaneSim.Report

/-!
# Between two turns

Between two turns the messages are all gone, and the system is a state of the abstract turn
(`System.toTurn`, `Sim.eq_toTurn`); from one such state to the next the turns run
(`turns_between`).

1. Cargo and need fall together, if nothing is unloaded on another product's need
   (`boundary_conserves`).
2. A plane retires with nothing that any city still needs (`retired_useless`).
3. In `2 * D + 2` turns a need is met or every plane has retired (`window_progress`).
-/

namespace PlaneSim

open Lts Update

/-! ## The state between two turns -/

/-- The turn that is about to begin. -/
def System.toTurn (s : System) : Turn where
  map := s.map
  turn := s.turn
  phase := .one
  airlines := (s.airlines.map (·.planes)).map fun planes => planes.map fun P =>
    { plane := P.plane, done := P.done, todo := !P.done }

/-- Every plane has retired. -/
def System.AllDone (s : System) : Prop := ∀ A ∈ s.airlines, ∀ P ∈ A.planes, P.done = true

theorem toTurn_init (map : Map) (airlines : List Airline) :
    (System.init map airlines).toTurn = Turn.init map airlines := by
  simp [System.toTurn, System.init, Turn.init, bootstrapPlanes, Function.comp_def]

theorem fresh_toTurn (s : System) : Fresh s.toTurn where
  phase := rfl
  todo a p t ht := by
    rw [Turn.get, System.toTurn, get2_map] at ht
    obtain ⟨P, -, rfl⟩ := Option.map_eq_some_iff.mp ht
    rfl

theorem get_toTurn {s : System} {a p : ℕ} {A : AirlineState} {P : PlaneThread}
    (hA : s.airlines[a]? = some A) (hP : A.planes[p]? = some P) :
    s.toTurn.get a p = some { plane := P.plane, done := P.done, todo := !P.done } := by
  rw [Turn.get, System.toTurn, get2_map]
  refine Option.map_eq_some_iff.mpr ⟨P, get2_eq_some.mpr ⟨A.planes, ?_, hP⟩, rfl⟩
  rw [List.getElem?_map, hA]
  rfl

theorem allDone_toTurn {s : System} (h : s.toTurn.AllDone) : s.AllDone := by
  intro A hA P hP
  obtain ⟨a, ha⟩ := List.mem_iff_getElem?.mp hA
  obtain ⟨p, hp⟩ := List.mem_iff_getElem?.mp hP
  exact h a p _ (get_toTurn ha hp)

/-- A plane out of the phase is what its abstract plane says. -/
theorem PlaneOk.eq_of_calm {a : ℕ} {ph : Phase} {P : PlaneThread} {t : TurnPlane}
    {rq : List PlaneMessage} {rp : List Message} (h : PlaneOk a ph false P t rq rp)
    (hcalm : Calm true P t) : t = { plane := P.plane, done := P.done, todo := !P.done } := by
  obtain ⟨hactive, hreporting, htodo⟩ := hcalm
  have hs := h.station
  have hsame : t.plane = P.plane ∧ t.done = P.done := by
    cases hst : P.pc.station with
    | rest w =>
      rw [hst] at hs
      exact ⟨hs.2.2.1, hs.2.2.2.1⟩
    | work w | asked w | finished w => simp [PlaneThread.active, hst] at hactive
    | reporting w => simp [PlaneThread.reporting, hst] at hreporting
    | gone =>
      rw [hst] at hs
      obtain ⟨-, -, hplane, -, hdone, ⟨ht, -⟩ | hend⟩ := hs
      · exact ⟨hplane, ht.trans hdone.symm⟩
      · cases hend
  obtain ⟨plane, done, todo⟩ := t
  obtain ⟨rfl, rfl⟩ := hsame
  simpa using htodo

/-- **Between two turns** the system is a state of the abstract turn. -/
theorem Sim.eq_toTurn {s : System} {T : Turn} {sts : List Status} (h : Sim s T sts)
    (hb : s.AtBoundary) : T = s.toTurn := by
  have hpc := h.pc
  have hturn := h.turn
  rw [System.AtBoundary] at hb
  rw [hb] at hpc hturn
  obtain ⟨hphase, hwaiting⟩ := hpc
  have hairlines : T.airlines = s.toTurn.airlines := by
    apply List.ext_getElem?
    intro a
    by_cases ha : a < s.airlines.length
    · obtain ⟨A, ts, st, hat⟩ := h.exists_at ha
      obtain rfl := hwaiting st (List.mem_of_getElem? hat.status)
      have hok := h.airline a A ts _ hat
      have hcalm : Planes A ts fun _ => Calm true := Quiet.calm hok.status
      have hrow : ts = A.planes.map fun P =>
          ({ plane := P.plane, done := P.done, todo := !P.done } : TurnPlane) := by
        apply List.ext_getElem?
        intro p
        rw [List.getElem?_map]
        cases hP : A.planes[p]? with
        | none =>
          rw [Option.map_none, List.getElem?_eq_none_iff, hok.length]
          exact List.getElem?_eq_none_iff.mp hP
        | some P =>
          obtain ⟨t, ht⟩ := hok.exists_abstract hP
          rw [ht, Option.map_some, ← (hok.planeOk hP ht).eq_of_calm (hcalm p P t hP ht)]
      rw [hat.turn, System.toTurn, List.getElem?_map, List.getElem?_map, hat.system, hrow]
      rfl
    · rw [List.getElem?_eq_none (by rw [h.length]; omega),
        List.getElem?_eq_none (by simp [System.toTurn]; omega)]
  obtain ⟨map, turn, phase, airlines⟩ := T
  have hmap : s.map = map := h.map
  have hturn : s.turn = turn := hturn
  have hphase : phase = .one := hphase
  have hairlines : airlines = s.toTurn.airlines := hairlines
  subst hmap hturn hphase hairlines
  rfl

section Boundary

variable {cfg : Config} {map : Map} {airlines : List Airline} {s s' : System} {tr tr' : List Event}

/-- **From boundary to boundary the turns run.** -/
theorem turns_between (h : Setup map airlines) (hlist : Listing map)
    (hrun : Run (reliableStep cfg) (System.init map airlines) tr s) (hb : s.AtBoundary)
    (hrun' : Run (reliableStep cfg) s tr' s') (hb' : s'.AtBoundary) :
    Run (turnStep cfg.qsort) s.toTurn (tr'.filterMap Event.unload) s'.toTurn := by
  have hnot := not_crashed h hlist (hrun.trans hrun')
  obtain ⟨T, sts, -, hsim⟩ := sim_run h hrun (not_crashed h hlist hrun)
  obtain ⟨T', sts', hturns, hsim'⟩ := hsim.run hrun' hnot
  rw [hsim.eq_toTurn hb, hsim'.eq_toTurn hb'] at hturns
  exact hturns

theorem turns_to_boundary (h : Setup map airlines) (hlist : Listing map)
    (hrun : Run (reliableStep cfg) (System.init map airlines) tr s) (hb : s.AtBoundary) :
    Run (turnStep cfg.qsort) (Turn.init map airlines) (tr.filterMap Event.unload) s.toTurn := by
  rw [← toTurn_init]
  exact turns_between h hlist .refl rfl hrun hb

/-! ## Conservation -/

/-- The amount of a product aboard all planes. -/
def System.aboard (s : System) (id : Int) : Int :=
  sum2 (fun P => amountOf id P.plane.stocks) (s.airlines.map (·.planes))

theorem aboard_toTurn (s : System) (id : Int) : s.toTurn.aboard id = s.aboard id := by
  unfold Turn.aboard System.toTurn System.aboard
  rw [sum2_map]

/-- **Conservation.** In a run whose unloads discharge nothing on another product's need, the need
for each product has fallen between two turns by what is no longer aboard. -/
theorem boundary_conserves (h : Setup map airlines) (hlist : Listing map)
    (hneeds : NeedsDistinct map)
    (hrun : Run (reliableStep cfg) (System.init map airlines) tr s) (hb : s.AtBoundary)
    (hm : ∀ airline plane city stocks, .applied airline plane city stocks ∈ tr →
      NoMismatch city stocks) (id : Int) :
    map.need id - s.map.need id = (System.init map airlines).aboard id - s.aboard id := by
  have hturns := turns_to_boundary h hlist hrun hb
  rw [← aboard_toTurn, ← aboard_toTurn, toTurn_init]
  refine conservation h.valid.ok hneeds hturns (fun e he => ?_) id
  obtain ⟨event, hevent, hunload⟩ := List.mem_filterMap.mp he
  cases event with
  | applied airline plane city stocks =>
    cases hunload
    exact hm airline plane city stocks hevent
  | sent _ _ _ | receive _ _ _ | got _ _ _ | stored _ _ | ready _ _ _ | ended _ _ | error =>
    cases hunload

end Boundary

/-- The first turn of a simulation with one plane, which goes on. -/
def firstTurn : List Action :=
  [(3, Action.map), (7, .listener 0), (5, .plane 0 0), (2, .map), (2, .listener 0), (8, .plane 0 0),
    (4, .map), (1, .listener 0), (2, .plane 0 0), (6, .listener 0), (5, .plane 0 0), (2, .map),
    (2, .listener 0), (10, .plane 0 0), (2, .map)].flatMap
      fun block => List.replicate block.1 block.2

theorem boundary_conserves_trio :
    ∃ tr s, Run (reliableStep someConfig) (System.init trioMap trioAirlines) tr s ∧
      s.AtBoundary ∧ s.turn = 1 ∧
      trioMap.need aspi.id - s.map.need aspi.id =
        (System.init trioMap trioAirlines).aboard aspi.id - s.aboard aspi.id := by
  obtain ⟨tr, s, hexec, hb, hturn, hunloads⟩ : ∃ tr s,
      exec (reliableStep someConfig) (System.init trioMap trioAirlines) firstTurn = some (tr, s) ∧
        s.pc = .head ∧ s.turn = 1 ∧ tr.filterMap Event.unload =
          [(trioMap.cities[0].stock, trioAirlines[0].planes[0].stocks)] :=
    ⟨_, _, rfl, rfl, rfl, rfl⟩
  have hrun := run_of_exec hexec
  refine ⟨tr, s, hrun, hb, hturn, boundary_conserves setup_trio listing_trio needsDistinct_trio
    hrun hb (fun airline plane city stocks he => ?_) _⟩
  have hmem : (city, stocks) ∈ tr.filterMap Event.unload := List.mem_filterMap.mpr ⟨_, he, rfl⟩
  rw [hunloads] at hmem
  cases List.mem_singleton.mp hmem
  -- the need for `aspi` is used up before `para` comes up
  intro pre p post hsplit _ hnot last hlast
  obtain rfl := Option.some.inj hlast
  rcases pre with _ | ⟨x, _ | ⟨y, pre⟩⟩
  · obtain ⟨rfl, -⟩ := List.cons_eq_cons.mp hsplit
    exact absurd rfl (hnot _ (List.getLast_mem (by decide)))
  · obtain ⟨rfl, -⟩ := List.cons_eq_cons.mp hsplit
    decide
  · simp [trioAirlines] at hsplit

/-- A plane in Rosario with nothing but `para`, which nobody needs. -/
def crossAirlines : List Airline :=
  [{ id := 0
     planes := [{ id := 0, stocks := [{ amount := 3, product := para }], cityId := 0
                  distance := 0 }] }]

def crossMap : Map where
  cities := [{ name := ['R', 'o', 's', 'a', 'r', 'i', 'o'], id := 0
               stock := [{ amount := 5, product := aspi }] },
    { name := ['S', 'a', 'l', 't', 'a'], id := 1, stock := [{ amount := 2, product := aspi }] }]
  product := [aspi, para]
  matrix := [[0, 1], [1, 0]]

theorem parsed_cross : Parsed crossMap crossAirlines := by
  have hmap : parseMap ['2', '\n', 'R', 'o', 's', 'a', 'r', 'i', 'o', '\n',
      'A', 's', 'p', 'i', ' ', '5', '\n', 'S', 'a', 'l', 't', 'a', '\n',
      'A', 's', 'p', 'i', ' ', '2', '\n',
      'R', 'o', 's', 'a', 'r', 'i', 'o', ' ', 'S', 'a', 'l', 't', 'a', ' ', '1', '\n'] =
        .ok { crossMap with product := [aspi] } := by decide +kernel
  have hairline : parseAirlines ['1', '\n', 'R', 'o', 's', 'a', 'r', 'i', 'o', '\n',
      'P', 'a', 'r', 'a', ' ', '3', '\n'] { crossMap with product := [aspi] } =
        .ok (crossAirlines[0], crossMap) := by decide +kernel
  exact .airline (.map hmap) hairline

theorem setup_cross : Setup crossMap crossAirlines :=
  ⟨parsed_cross.sound, by unfold Nonneg; decide, by unfold Nonneg; decide, by decide⟩

theorem listing_cross : Listing crossMap := by
  unfold Listing
  decide

theorem needsDistinct_cross : NeedsDistinct crossMap := by
  unfold NeedsDistinct
  decide

/-- The turn in which that plane retires. -/
def crossTurn : List Action :=
  [(3, Action.map), (7, .listener 0), (5, .plane 0 0), (2, .map), (2, .listener 0), (8, .plane 0 0),
    (4, .map), (1, .listener 0), (2, .plane 0 0), (8, .listener 0), (2, .map)].flatMap
      fun block => List.replicate block.1 block.2

/-- Its `para` meets a need for `aspi`. -/
theorem cross_mismatch :
    Setup crossMap crossAirlines ∧ Listing crossMap ∧ NeedsDistinct crossMap ∧
      (∀ airline ∈ crossAirlines, ∀ plane ∈ airline.planes, Distinct plane.stocks) ∧
      ∃ tr s, Run (reliableStep someConfig) (System.init crossMap crossAirlines) tr s ∧
        s.AtBoundary ∧ crossMap.need aspi.id - s.map.need aspi.id = 3 ∧
        (System.init crossMap crossAirlines).aboard aspi.id - s.aboard aspi.id = 0 := by
  refine ⟨setup_cross, listing_cross, needsDistinct_cross, by decide, ?_⟩
  obtain ⟨tr, s, hexec, hb, hneed, haboard⟩ : ∃ tr s,
      exec (reliableStep someConfig) (System.init crossMap crossAirlines) crossTurn = some (tr, s) ∧
        s.pc = .head ∧ crossMap.need aspi.id - s.map.need aspi.id = 3 ∧
        (System.init crossMap crossAirlines).aboard aspi.id - s.aboard aspi.id = 0 :=
    ⟨_, _, rfl, rfl, rfl, rfl⟩
  exact ⟨tr, s, run_of_exec hexec, hb, hneed, haboard⟩

/-! ## Retirement -/

/-- The map has not begun to end the simulation. -/
def MapPc.running : MapPc → Bool
  | .finish _ => false
  | .halted => false
  | _ => true

section Retirement

variable {cfg : Config} {map : Map} {airlines : List Airline} {s s' : System} {T T' : Turn}
  {sts sts' : List Status} {tr tr' : List Event} {a p : ℕ} {A : AirlineState} {P : PlaneThread}
  {t : TurnPlane}

theorem Sim.not_ending (h : Sim s T sts) (hpc : s.pc.running = true) {st : Status}
    (hst : st ∈ sts) : st.isEnding = false := by
  obtain ⟨b, hb⟩ := List.mem_iff_getElem?.mp hst
  have hmap := h.pc
  cases hs : s.pc with
  | head =>
    rw [hs] at hmap
    rw [hmap.2 st hst]
    rfl
  | send w i =>
    rw [hs] at hmap
    have := hmap.2.2 b st hb
    split at this
    · obtain rfl | rfl | rfl := this <;> rfl
    · rw [this]
      rfl
  | recv w i | reply w i airline msg =>
    rw [hs] at hmap
    obtain (rfl | rfl | rfl) | rfl := hmap.2.1 st hst <;> rfl
  | crashed =>
    rw [hs] at hmap
    exact hmap.elim
  | finish i | halted =>
    rw [hs] at hpc
    cases hpc

/-- The thread of an abstract plane. -/
theorem Sim.exists_thread (h : Sim s T sts) (ht : T.get a p = some t) :
    ∃ A ts st P, At s T sts a A ts st ∧ A.planes[p]? = some P ∧ ts[p]? = some t := by
  obtain ⟨ts, hts, htp⟩ := get2_eq_some.mp ht
  obtain ⟨A, ts', st, hat⟩ := h.exists_at (a := a)
    (by rw [← h.length]; exact (List.getElem?_eq_some_iff.mp hts).1)
  cases hts.symm.trans hat.turn
  refine ⟨A, ts, st, _, hat, List.getElem?_eq_getElem (i := p) ?_, htp⟩
  rw [← (h.airline a A ts st hat).length]
  exact (List.getElem?_eq_some_iff.mp htp).1

/-- A plane that is done carries what its abstract plane does. -/
theorem PlaneOk.plane_eq {ph : Phase} {ending : Bool} {rq : List PlaneMessage} {rp : List Message}
    (h : PlaneOk a ph ending P t rq rp) (hdone : P.done = true) : t.plane = P.plane :=
  (h.idle fun w hw => by
    have hs := h.station
    rw [hw] at hs
    rw [hs.2.1] at hdone
    cases hdone).2.2

/-- Before the simulation ends, a plane that is done has retired. -/
theorem Sim.retired (h : Sim s T sts) (hpc : s.pc.running = true) (hA : s.airlines[a]? = some A)
    (hP : A.planes[p]? = some P) (hdone : P.done = true) :
    ∃ t, T.get a p = some t ∧ t.done = true ∧ t.plane = P.plane := by
  obtain ⟨ts, st, hat⟩ := h.exists_at_of_system hA
  have hok := h.airline a A ts st hat
  obtain ⟨t, ht⟩ := hok.exists_abstract hP
  have hplane := hok.planeOk hP ht
  have hs := hplane.station
  refine ⟨t, get2_eq_some.mpr ⟨ts, hat.turn, ht⟩, ?_, hplane.plane_eq hdone⟩
  cases hst : P.pc.station with
  | rest w | finished w | reporting w =>
    rw [hst] at hs
    exact hs.2.2.2.1.trans hdone
  | work w =>
    rw [hst] at hs
    exact hs.2.2.2.1.trans hdone
  | asked w =>
    rw [hst] at hs
    rw [hs.2.1] at hdone
    cases hdone
  | gone =>
    rw [hst] at hs
    obtain ⟨hd, -⟩ | hend := hs.2.2.2.2.2
    · exact hd
    · rw [h.not_ending hpc (List.mem_of_getElem? hat.status)] at hend
      cases hend

/-- A step does not take a plane's flag back. -/
theorem Steps.done {es : List Event} (h : Steps s T sts es s' T' sts')
    {A' : AirlineState} {ts ts' : List TurnPlane} {st st' : Status} {P' : PlaneThread}
    (hat : At s T sts a A ts st) (hat' : At s' T' sts' a A' ts' st') (hP : A.planes[p]? = some P)
    (hP' : A'.planes[p]? = some P') (hdone : P.done = true) : P'.done = true := by
  cases h with
  | within _ _ follows =>
    rcases (follows a A ts st A' ts' st' hat hat').flags p P P' hP hP' with hd | ⟨hd, -⟩
    · exact hd.trans hdone
    · exact hd
  | next _ _ _ same _ _ =>
    have hA' := hat'.system
    rw [same, hat.system] at hA'
    cases hA'
    rw [hP] at hP'
    cases hP'
    exact hdone

/-- A plane that is done stays where it is. -/
theorem Sim.done_run (h : Sim s T sts) (hrun : Run (reliableStep cfg) s tr s')
    (hnot : s'.pc ≠ .crashed) (hA : s.airlines[a]? = some A) (hP : A.planes[p]? = some P)
    (hdone : P.done = true) {t : TurnPlane} (ht : T.get a p = some t) (htdone : t.done = true) :
    ∃ T' sts' A' P', Run (turnStep cfg.qsort) T (tr.filterMap Event.unload) T' ∧ Sim s' T' sts' ∧
      s'.airlines[a]? = some A' ∧ A'.planes[p]? = some P' ∧ P'.done = true := by
  induction hrun with
  | refl => exact ⟨T, sts, A, P, .refl, h, hA, hP, hdone⟩
  | step run last ih =>
    obtain ⟨T1, sts1, A1, P1, hturns, hsim, hA1, hP1, hdone1⟩ :=
      ih fun hcrash => hnot (crashed_step hcrash last)
    rcases hsim.step last with ⟨T', sts', hturns', hsim', hsteps, -⟩ | ⟨hcrash, -⟩
    swap
    · exact absurd hcrash hnot
    have hall := hturns.trans hturns'
    obtain ⟨t', ht', -⟩ := (turnOk_run h.valid.ok hall).2.done a p t ht htdone
    obtain ⟨A', ts', st', P', hat', hP', -⟩ := hsim'.exists_thread ht'
    obtain ⟨ts1, st1, hat1⟩ := hsim.exists_at_of_system hA1
    refine ⟨T', sts', A', P', ?_, hsim', hat'.system, hP', hsteps.done hat1 hat' hP1 hP' hdone1⟩
    rw [List.filterMap_append]
    exact hall

theorem scoresFit_init (hfit : ∀ airline ∈ airlines, ∀ plane ∈ airline.planes,
    Distinct plane.stocks ∧ ∀ city ∈ map.cities, ScoreFits city.stock plane.stocks) :
    ScoresFit (Turn.init map airlines) := by
  intro a p t ht
  obtain ⟨airline, hairline, hp, -, -⟩ := Setup.get_init ht
  exact hfit airline hairline t.plane (List.mem_of_getElem? hp)

theorem useless_init (map : Map) (airlines : List Airline) : Useless (Turn.init map airlines) := by
  intro a p t ht hd
  obtain ⟨-, -, -, hnot, -⟩ := Setup.get_init ht
  rw [hnot] at hd
  cases hd

/-- **Retirement wastes nothing.** A plane that has retired keeps its stocks, and no city ever needs
any of them; once all have retired, nothing that is needed is aboard. -/
theorem retired_useless (h : Setup map airlines) (hlist : Listing map)
    (hfit : ∀ airline ∈ airlines, ∀ plane ∈ airline.planes, Distinct plane.stocks ∧
      ∀ city ∈ map.cities, ScoreFits city.stock plane.stocks)
    (hrun : Run (reliableStep cfg) (System.init map airlines) tr s) (hpc : s.pc.running = true)
    (hrun' : Run (reliableStep cfg) s tr' s') :
    (∀ (a p : ℕ) (A : AirlineState) (P : PlaneThread), s.airlines[a]? = some A →
      A.planes[p]? = some P → P.done = true →
      (∃ (A' : AirlineState) (P' : PlaneThread), s'.airlines[a]? = some A' ∧ A'.planes[p]? = some P' ∧ P'.done = true ∧
        P'.plane = P.plane) ∧
      ∀ city ∈ s'.map.cities, getCityScore city.stock P.plane.stocks = 0) ∧
    (s.AllDone → ∀ A ∈ s'.airlines, ∀ P ∈ A.planes, ∀ city ∈ s'.map.cities,
      NoShared city.stock P.plane.stocks) := by
  obtain ⟨T, sts, hturns, hsim⟩ := sim_run h hrun (not_crashed h hlist hrun)
  have huseless := useless_run (useless_init map airlines) h.valid.ok (scoresFit_init hfit) hturns
  have hplane : ∀ (a p : ℕ) (A : AirlineState) (P : PlaneThread), s.airlines[a]? = some A →
      A.planes[p]? = some P → P.done = true →
      (∃ (A' : AirlineState) (P' : PlaneThread), s'.airlines[a]? = some A' ∧ A'.planes[p]? = some P' ∧ P'.done = true ∧
        P'.plane = P.plane) ∧
      ∀ city ∈ s'.map.cities, Nonneg city.stock ∧ Nonneg P.plane.stocks ∧
        NoShared city.stock P.plane.stocks := by
    intro a p A P hA hP hdone
    obtain ⟨t, ht, htdone, hplane⟩ := hsim.retired hpc hA hP hdone
    obtain ⟨T', sts', A', P', hturns', hsim', hA', hP', hdone'⟩ :=
      hsim.done_run hrun' (not_crashed h hlist (hrun.trans hrun')) hA hP hdone ht htdone
    have hlater := (turnOk_run hsim.valid.ok hturns').2
    obtain ⟨t', ht', -, hsame⟩ := hlater.done a p t ht htdone
    obtain ⟨A'', ts', st', P'', hat', hP'', htp'⟩ := hsim'.exists_thread ht'
    cases hA'.symm.trans hat'.system
    cases hP'.symm.trans hP''
    have hok := (hsim'.airline a A' ts' st' hat').planeOk hP' htp'
    refine ⟨⟨A', P', hA', hP', hdone', ?_⟩, fun city hc => ?_⟩
    · rw [← hok.plane_eq hdone', hsame, hplane]
    · rw [hsim'.map] at hc
      rw [← hplane]
      exact ⟨hsim'.valid.ok.needs city hc, hsim.valid.ok.cargo a p t ht,
        huseless.mono hlater ht htdone hc⟩
  refine ⟨fun a p A P hA hP hdone => ?_, fun hall A' hA' P' hP' city hc => ?_⟩
  · obtain ⟨hstays, hnone⟩ := hplane a p A P hA hP hdone
    refine ⟨hstays, fun city hc => ?_⟩
    obtain ⟨hneeds, hcargo, hno⟩ := hnone city hc
    exact getCityScore_of_noShared hneeds hcargo hno
  · obtain ⟨a, ha⟩ := List.mem_iff_getElem?.mp hA'
    obtain ⟨p, hp⟩ := List.mem_iff_getElem?.mp hP'
    obtain ⟨T', sts', hturns', hsim'⟩ :=
      hsim.run hrun' (not_crashed h hlist (hrun.trans hrun'))
    obtain ⟨ts', st', hat'⟩ := hsim'.exists_at_of_system ha
    obtain ⟨t', ht'⟩ := (hsim'.airline a A' ts' st' hat').exists_abstract hp
    obtain ⟨t, ht, -⟩ := (turnOk_run hsim.valid.ok hturns').2.cargo a p t'
      (get2_eq_some.mpr ⟨ts', hat'.turn, ht'⟩)
    obtain ⟨A, ts, st, P, hat, hP, -⟩ := hsim.exists_thread ht
    obtain ⟨⟨A'', P'', hA'', hP'', -, hsame⟩, hnone⟩ := hplane a p A P hat.system hP
      (hall A (List.mem_of_getElem? hat.system) P (List.mem_of_getElem? hP))
    cases ha.symm.trans hA''
    cases hp.symm.trans hP''
    rw [hsame]
    exact (hnone city hc).2.2

end Retirement

/-- The plane retires in its first turn. -/
theorem exec_cross : ∃ tr s,
    exec (reliableStep someConfig) (System.init crossMap crossAirlines) crossTurn = some (tr, s) ∧
      s.pc = .head ∧ s.turn = 1 ∧ s.AllDone :=
  ⟨_, _, rfl, rfl, rfl, by unfold System.AllDone; decide +kernel⟩

theorem retired_useless_cross :
    ∃ tr s, Run (reliableStep someConfig) (System.init crossMap crossAirlines) tr s ∧
      s.AtBoundary ∧ s.AllDone ∧ ∀ A ∈ s.airlines, ∀ P ∈ A.planes, ∀ city ∈ s.map.cities,
        NoShared city.stock P.plane.stocks := by
  obtain ⟨tr, s, hexec, hb, -, hall⟩ := exec_cross
  have hrun := run_of_exec hexec
  exact ⟨tr, s, hrun, hb, hall, (retired_useless setup_cross listing_cross
    (by unfold ScoreFits; decide) hrun (by rw [hb]; rfl) .refl).2 hall⟩

/-! ## Progress -/

/-- The largest entry of the distance matrix. -/
def Map.longest (map : Map) : ℕ := (map.matrix.flatten.foldr max 0).toNat

theorem getDistance_le_longest {map : Map} {i j d : Int} (h : getDistance map i j = some d) :
    d ≤ map.longest := by
  obtain ⟨row, hrow, hd⟩ := Option.bind_eq_some_iff.mp h
  obtain ⟨i', -, hi⟩ := getFromVector_eq_some hrow
  obtain ⟨j', -, hj⟩ := getFromVector_eq_some hd
  have hmem : d ∈ map.matrix.flatten :=
    List.mem_flatten.mpr ⟨row, List.mem_of_getElem? hi, List.mem_of_getElem? hj⟩
  exact (List.le_max_of_le' 0 hmem le_rfl).trans (Int.self_le_toNat _)

/-- Planes start on the ground, and no distance is longer than the longest. -/
theorem Charted.within {roads : List (List Int)} {map : Map} {airlines : List Airline}
    (h : Charted roads map) (hsound : Sound map airlines) :
    Within map.longest (Turn.init map airlines) where
  plane a p t ht := by
    obtain ⟨airline, ha, hp, -, -⟩ := Setup.get_init ht
    obtain ⟨-, hground⟩ := hsound.parked airline ha p t.plane hp
    omega
  matrix i j d hd := by
    refine ⟨?_, getDistance_le_longest hd⟩
    obtain ⟨row, hrow, hentry⟩ := Option.bind_eq_some_iff.mp hd
    obtain ⟨i', rfl, hi⟩ := getFromVector_eq_some hrow
    obtain ⟨j', rfl, hj⟩ := getFromVector_eq_some hentry
    have hsquare := h.distances.square
    have hi' := (List.getElem?_eq_some_iff.mp hi).1
    have hj' := (List.getElem?_eq_some_iff.mp hj).1
    rw [hsquare.2 row (List.mem_of_getElem? hi)] at hj'
    exact h.getDistance_nonneg (by rw [← hsquare.1]; exact hi') hj' hd

section Progress

variable {cfg : Config} {map : Map} {airlines : List Airline} {roads : List (List Int)}
  {s : System} {tr : List Event}

/-- **Progress.** Within `2 * D + 2` turns, `D` being the longest distance, a need is met or every
plane has retired; after `(need + 1) * (2 * D + 2)` turns every plane has. -/
theorem window_progress (h : Setup map airlines) (hlist : Listing map)
    (hneeds : NeedsDistinct map) (hchart : Charted roads map)
    (hrun : Run (reliableStep cfg) (System.init map airlines) tr s) (hb : s.AtBoundary) :
    (∀ tr' s', Run (reliableStep cfg) s tr' s' → s'.AtBoundary →
      s.turn + (2 * map.longest + 2) ≤ s'.turn →
        s'.map.totalNeed < s.map.totalNeed ∨ s'.AllDone) ∧
    ((map.totalNeed + 1) * (2 * map.longest + 2) ≤ s.turn → s.AllDone) := by
  have hready : Ready map.longest (Turn.init map airlines) :=
    ⟨h.valid.ok, hneeds, hchart.within h.sound⟩
  have hturns := turns_to_boundary h hlist hrun hb
  refine ⟨fun tr' s' hrun' hb' hturn => ?_, fun hturn => ?_⟩
  · refine (window (ready_run hready hturns) (fresh_toTurn s)
      (turns_between h hlist hrun hb hrun' hb') (fresh_toTurn s') hturn).imp_right allDone_toTurn
  · obtain ⟨n, hn⟩ := Int.eq_ofNat_of_zero_le (totalNeed_nonneg h.valid.ok)
    have hn : map.totalNeed = n := hn
    rw [hn] at hturn
    refine allDone_toTurn (all_retired n hready ?_ hturns hn.le ?_)
    · rw [← toTurn_init]
      exact fresh_toTurn _
    · show 0 + (n + 1) * (2 * map.longest + 2) ≤ s.turn
      rw [Nat.zero_add]
      exact_mod_cast hturn

end Progress

def crossRoads : List (List Int) := [[0, 1], [1, 0]]

theorem charted_cross : Charted crossRoads crossMap where
  valid := roads_of_lt (by unfold Square; decide) (by decide) (by decide)
  fits := by unfold RoadsFit; decide
  matrix := by decide +kernel

/-- Three turns in which nobody is left to do anything. -/
def crossWindow : List Action :=
  (List.replicate 3 [(3, Action.map), (9, .listener 0), (4, .map), (11, .listener 0),
    (2, .map)]).flatten.flatMap fun block => List.replicate block.1 block.2

theorem window_progress_cross :
    ∃ tr s tr' s', Run (reliableStep someConfig) (System.init crossMap crossAirlines) tr s ∧
      Run (reliableStep someConfig) s tr' s' ∧ s.turn = 0 ∧ s'.turn = 4 ∧
      crossMap.longest = 1 ∧ (s'.map.totalNeed < s.map.totalNeed ∨ s'.AllDone) := by
  have hstate : (exec (reliableStep someConfig) (System.init crossMap crossAirlines)
      (crossTurn ++ crossWindow)).map (fun r => (r.2.pc, r.2.turn)) = some (.head, 4) := by
    decide +kernel
  obtain ⟨⟨tr, s⟩, hexec, hlast⟩ := Option.map_eq_some_iff.mp hstate
  obtain ⟨hb, hturn⟩ := Prod.mk.inj hlast
  have hrun := run_of_exec hexec
  exact ⟨[], _, tr, s, .refl, hrun, rfl, hturn, rfl, (window_progress setup_cross listing_cross
    needsDistinct_cross charted_cross .refl rfl).1 tr s hrun hb (by
      have hturn : s.turn = 4 := hturn
      rw [hturn]
      decide)⟩

end PlaneSim
