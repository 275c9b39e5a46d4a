import PlaneSim.Requests

/-!
# Progress reports

`getMapStatus` adds up the needs and counts the cities without any; `cityIsSatisfied` looks for an
amount that is not zero. The two agree because no amount is ever negative (`getMapStatus_eq`,
`total_eq_zero_iff`), and a report only gets better in a run (`status_run`).
-/

namespace PlaneSim

open Lts CInt

/-! ## The report -/

/-- `cityStockAmount` after the inner loop. -/
def cityStockAmount (city : City) : Int :=
  city.stock.foldl (fun amount stock => addInt amount stock.amount) 0

/-- `get_map_status`: the total, and `citiesSatisfied`. -/
def getMapStatus (map : Map) : Int × ℕ :=
  map.cities.foldl (fun (status : Int × ℕ) city =>
    (addInt status.1 (cityStockAmount city),
     if cityStockAmount city = 0 then status.2 + 1 else status.2)) (0, 0)

theorem getMapStatus_cities (cities : List City) (total : Int) (satisfied : ℕ) :
    cities.foldl (fun (status : Int × ℕ) city =>
        (addInt status.1 (cityStockAmount city),
         if cityStockAmount city = 0 then status.2 + 1 else status.2)) (total, satisfied) =
      (cities.foldl (fun total city => addInt total (cityStockAmount city)) total,
       satisfied + cities.countP fun city => cityStockAmount city = 0) := by
  induction cities generalizing total satisfied with
  | nil => rfl
  | cons city rest ih =>
    rw [List.foldl_cons, ih, List.foldl_cons, List.countP_cons]
    by_cases hz : cityStockAmount city = 0
    · simp only [hz, if_true, decide_true]
      rw [Nat.add_assoc, Nat.add_comm 1]
    · simp [hz]

/-! ## Satisfied -/

/-- Without negative amounts a total of zero means that nothing is needed. -/
theorem total_eq_zero_iff {stocks : List Stock} (h : Nonneg stocks) :
    total stocks = 0 ↔ hasNoStocks stocks = true := by
  induction stocks with
  | nil => simp [hasNoStocks]
  | cons s rest ih =>
    have hs := h s (by simp)
    have hrest : Nonneg rest := fun x hx => h x (by simp [hx])
    have ht := total_nonneg hrest
    have ih := ih hrest
    simp only [hasNoStocks, List.all_cons, Bool.and_eq_true, decide_eq_true_eq] at ih ⊢
    rw [total_cons, ← ih]
    omega

/-- The amounts of the cities are `int`s, and their sum too. -/
structure NeedFits (map : Map) : Prop where
  needs : ∀ city ∈ map.cities, Nonneg city.stock
  fits : map.totalNeed ≤ INT_MAX

theorem NeedFits.city_le {map : Map} (h : NeedFits map) {city : City} (hc : city ∈ map.cities) :
    total city.stock ≤ INT_MAX := by
  have hle : total city.stock ≤ map.totalNeed :=
    List.single_le_sum (by simpa using fun c hc => total_nonneg (h.needs c hc)) _
      (List.mem_map.mpr ⟨city, hc, rfl⟩)
  exact hle.trans h.fits

theorem NeedFits.cityStockAmount {map : Map} (h : NeedFits map) {city : City}
    (hc : city ∈ map.cities) : cityStockAmount city = total city.stock := by
  unfold PlaneSim.cityStockAmount
  rw [foldl_addInt _ _ _ le_rfl (h.needs city hc) (by
    rw [zero_add]
    exact h.city_le hc), zero_add]
  rfl

/-- **The report is the need.** The total is the sum of all needs, and the cities counted are the
satisfied ones. -/
theorem getMapStatus_eq {map : Map} (h : NeedFits map) :
    getMapStatus map = (map.totalNeed, map.cities.countP cityIsSatisfied) := by
  unfold getMapStatus
  rw [getMapStatus_cities]
  congr 1
  · have hamounts : map.cities.map cityStockAmount = map.cities.map fun city => total city.stock :=
      List.map_congr_left fun city hc => h.cityStockAmount hc
    rw [foldl_addInt _ _ _ le_rfl (fun city hc => ?_), hamounts, zero_add]
    · rfl
    · rw [hamounts, zero_add]
      exact h.fits
    · rw [h.cityStockAmount hc]
      exact total_nonneg (h.needs city hc)
  · rw [Nat.zero_add]
    apply List.countP_congr
    intro city hc
    rw [decide_eq_true_iff, h.cityStockAmount hc, total_eq_zero_iff (h.needs city hc)]
    rfl

/-! ## The stopping test -/

theorem continueSim_eq_false {map : Map} {turn : ℕ} (hturn : turn < 70000) :
    continueSim map turn = false ↔ ∀ city ∈ map.cities, cityIsSatisfied city = true := by
  simp [continueSim, hturn]

theorem countP_eq_length_iff_stop {map : Map} {turn : ℕ} (hturn : turn < 70000) :
    continueSim map turn = false ↔ map.cities.countP cityIsSatisfied = map.cities.length := by
  rw [continueSim_eq_false hturn, List.countP_eq_length]

theorem totalNeed_eq_zero_iff_stop {map : Map} (h : ∀ city ∈ map.cities, Nonneg city.stock)
    {turn : ℕ} (hturn : turn < 70000) :
    continueSim map turn = false ↔ map.totalNeed = 0 := by
  rw [continueSim_eq_false hturn]
  unfold Map.totalNeed
  constructor
  · intro hall
    apply List.sum_eq_zero
    intro x hx
    obtain ⟨city, hc, rfl⟩ := List.mem_map.mp hx
    exact (total_eq_zero_iff (h city hc)).mpr (hall city hc)
  · intro hzero city hc
    have hle : total city.stock ≤ (map.cities.map fun city => total city.stock).sum :=
      List.single_le_sum (by simpa using fun c hc => total_nonneg (h c hc)) _
        (List.mem_map.mpr ⟨city, hc, rfl⟩)
    have := total_nonneg (h city hc)
    exact (total_eq_zero_iff (h city hc)).mp (by omega)

/-! ## Over a run -/

/-- A satisfied city stays so. -/
theorem CityDrained.satisfied {c c' : City} (h : CityDrained c c')
    (hsat : cityIsSatisfied c = true) : cityIsSatisfied c' = true := by
  obtain ⟨-, -, hd⟩ := h
  unfold cityIsSatisfied hasNoStocks at hsat ⊢
  rw [List.all_eq_true] at hsat ⊢
  intro t ht
  obtain ⟨s, hs, -, hle⟩ := hd.exists_of_mem ht
  have h0 := hd.nonneg t ht
  have := hsat s hs
  rw [decide_eq_true_eq] at this ⊢
  omega

theorem Shrinks.countP_satisfied_le {T T' : Turn} (h : Shrinks T T') :
    T.map.cities.countP cityIsSatisfied ≤ T'.map.cities.countP cityIsSatisfied := by
  have hcities := h.cities
  generalize T.map.cities = old at hcities ⊢
  generalize T'.map.cities = new at hcities ⊢
  induction hcities with
  | nil => exact le_rfl
  | @cons c c' _ _ hc _ ih =>
    rw [List.countP_cons, List.countP_cons]
    by_cases hsat : cityIsSatisfied c = true
    · rw [if_pos hsat, if_pos (hc.satisfied hsat)]
      omega
    · rw [if_neg hsat]
      omega

/-- **Reports are monotone and agree with the stopping test.** In every state of every run each need
is between zero and its initial value; later reports show no larger total and no fewer satisfied
cities; the cities counted are those that `cityIsSatisfied` holds for; and the simulation is told to
stop exactly when all cities are counted, exactly when the total is zero. -/
theorem status_run {cfg : Config} {map : Map} {airlines : List Airline} (h : Setup map airlines)
    (hlist : Listing map) (hfit : map.totalNeed ≤ INT_MAX) {tr : List Event} {s : System}
    (hrun : Run (reliableStep cfg) (System.init map airlines) tr s) :
    List.Forall₂ CityDrained map.cities s.map.cities ∧
      (∀ tr' s', Run (reliableStep cfg) s tr' s' →
        (getMapStatus s'.map).1 ≤ (getMapStatus s.map).1 ∧
        (getMapStatus s.map).2 ≤ (getMapStatus s'.map).2) ∧
      (getMapStatus s.map).2 = s.map.cities.countP cityIsSatisfied ∧
      ∀ turn < 70000,
        (continueSim s.map turn = false ↔ (getMapStatus s.map).2 = s.map.cities.length) ∧
        (continueSim s.map turn = false ↔ (getMapStatus s.map).1 = 0) := by
  have hreach : ∀ {tr : List Event} {s : System},
      Run (reliableStep cfg) (System.init map airlines) tr s → ∃ T sts, Sim s T sts ∧
        Shrinks (Turn.init map airlines) T ∧ NeedFits s.map := by
    intro tr s hrun
    obtain ⟨T, sts, hturns, hsim⟩ := sim_run h hrun (not_crashed h hlist hrun)
    have hshrinks := (turnOk_run h.valid.ok hturns).2
    refine ⟨T, sts, hsim, hshrinks, ?_⟩
    rw [hsim.map]
    exact ⟨hsim.valid.ok.needs, (totalNeed_mono hshrinks).trans hfit⟩
  obtain ⟨T, sts, hsim, hshrinks, hneed⟩ := hreach hrun
  have hstatus := getMapStatus_eq hneed
  refine ⟨?_, fun tr' s' hrun' => ?_, by rw [hstatus], fun turn hturn => ?_⟩
  · rw [hsim.map]
    exact hshrinks.cities
  · have hall := hrun.trans hrun'
    obtain ⟨T', sts', hturns, hsim'⟩ := hsim.run hrun' (not_crashed h hlist hall)
    obtain ⟨-, -, -, -, hneed'⟩ := hreach hall
    have hlater := (turnOk_run hsim.valid.ok hturns).2
    rw [hstatus, getMapStatus_eq hneed', hsim.map, hsim'.map]
    exact ⟨totalNeed_mono hlater, hlater.countP_satisfied_le⟩
  · rw [hstatus]
    exact ⟨countP_eq_length_iff_stop hturn, totalNeed_eq_zero_iff_stop hneed.needs hturn⟩

theorem listing_trio : Listing trioMap := by
  unfold Listing
  decide

theorem status_run_trio :
    ∃ tr s, Run (reliableStep someConfig) (System.init trioMap trioAirlines) tr s ∧
      s.pc = .recv .two 0 ∧ (getMapStatus s.map).2 = s.map.cities.countP cityIsSatisfied ∧
      (continueSim s.map 1 = false ↔ (getMapStatus s.map).1 = 0) := by
  obtain ⟨tr, s, msg, hexec, hpc, -⟩ := exec_trio
  have hrun := run_of_exec hexec
  obtain ⟨-, -, hcount, hstop⟩ := status_run setup_trio listing_trio
    (by unfold Map.totalNeed INT_MAX; decide) hrun
  exact ⟨tr, s, hrun, hpc, hcount, (hstop 1 (by decide)).2⟩

end PlaneSim
