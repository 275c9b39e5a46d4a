import PlaneSim.Turn

/-!
# Retirement and progress

1. A plane retires with nothing that any city still needs, and that stays so (`useless_run`).
2. In `2 * D + 2` turns, `D` being the longest distance, a need is met or every plane retires
   (`window`): a plane reaches its city, is offered one that scores, and flies there; if nobody has
   met that need in between, the plane does.
3. After `(need + 1) * (2 * D + 2)` turns every plane is retired (`all_retired`).
-/

namespace PlaneSim

open Lts Update

variable {qsort : Qsort}

/-! ## Retirement -/

/-- Planes carry a product once, and every score is an `int`. -/
def ScoresFit (T : Turn) : Prop :=
  ∀ a p t, T.get a p = some t → Distinct t.plane.stocks ∧
    ∀ city ∈ T.map.cities, ScoreFits city.stock t.plane.stocks

theorem ScoresFit.mono {T T' : Turn} (h : ScoresFit T) (hs : Shrinks T T') : ScoresFit T' := by
  intro a p t' ht'
  obtain ⟨t, ht, hd⟩ := hs.cargo a p t' ht'
  obtain ⟨hdist, hfit⟩ := h a p t ht
  refine ⟨hdist.of_products hd.products, fun city' hc' => ?_⟩
  obtain ⟨city, hc, -, -, hdc⟩ := hs.exists_city hc'
  exact (hfit city hc).mono hdc hd

/-- No retired plane carries anything that a city needs. -/
def Useless (T : Turn) : Prop :=
  ∀ a p t, T.get a p = some t → t.done = true →
    ∀ city ∈ T.map.cities, NoShared city.stock t.plane.stocks

/-- Retired planes stay useless. -/
theorem Useless.mono {T T' : Turn} (h : Useless T) (hs : Shrinks T T') {a p : ℕ} {t : TurnPlane}
    (ht : T.get a p = some t) (hd : t.done = true) {city' : City} (hc : city' ∈ T'.map.cities) :
    NoShared city'.stock t.plane.stocks := by
  obtain ⟨city, hcm, -, -, hdc⟩ := hs.exists_city hc
  exact (h a p t ht hd city hcm).mono hdc

theorem useless_step {T T' : Turn} {act : TurnAction} {es : List (List Stock × List Stock)}
    (h : Useless T) (hok : TurnOk T) (hfit : ScoresFit T)
    (hstep : turnStep qsort T act = some (es, T')) : Useless T' := by
  have hs := (turnOk_step hok hstep).2
  rcases turnStep_cases hstep with
    ⟨a, p, t, c, city, needs, stocks, ht, -, htodo, -, -, hc, hun, -, rfl⟩ |
    ⟨a, p, t, ht, -, htodo, -, -, rfl⟩ | ⟨a, p, t, cityInfo, ht, -, htodo, -, hcand, -, rfl⟩ |
    ⟨a, p, t, ht, -, htodo, -, -, rfl⟩ | ⟨-, -, rfl⟩
  · intro b q x hx hd city' hc'
    rcases get2_set2_cases ht hx with ⟨-, -, rfl⟩ | ⟨-, hx⟩
    · -- retired by this unload: all its amounts are zero
      intro k _ s hsm _
      exact .inr (of_decide_eq_true hd s hsm)
    · exact h.mono hs hx hd hc'
  · intro b q x hx hd city' hc'
    rcases get2_set2_cases ht hx with ⟨-, -, rfl⟩ | ⟨-, hx⟩
    · exact absurd (show t.done = true from hd) (by rw [hok.active a p t ht htodo]; simp)
    · exact h.mono hs hx hd hc'
  · intro b q x hx hd city' hc'
    rcases get2_set2_cases ht hx with ⟨-, -, rfl⟩ | ⟨-, hx⟩
    · cases cityInfo with
      | nil =>
        -- retired because no city scores
        have hzero := (candidates_spec hcand).2.2.mp rfl city' hc'
        obtain ⟨hdist, hscores⟩ := hfit a p t ht
        exact noShared_of_score (hok.needs city' hc') (hok.cargo a p t ht) hdist
          (hscores city' hc') hzero
      | cons info rest =>
        exact absurd (show t.done = true from hd) (by rw [hok.active a p t ht htodo]; simp)
    · exact h.mono hs hx hd hc'
  · intro b q x hx hd city' hc'
    rcases get2_set2_cases ht hx with ⟨-, -, rfl⟩ | ⟨-, hx⟩
    · exact absurd (show t.done = true from hd) (by rw [hok.active a p t ht htodo]; simp)
    · exact h.mono hs hx hd hc'
  · intro b q x hx hd city' hc'
    rw [Turn.get, get2_map] at hx
    obtain ⟨t, ht, rfl⟩ := Option.map_eq_some_iff.mp hx
    exact h b q t ht hd city' hc'

/-- **Retirement.** Every plane that has retired in a run is of no use to any city. -/
theorem useless_run {T T' : Turn} {tr : List (List Stock × List Stock)} (h : Useless T)
    (hok : TurnOk T) (hfit : ScoresFit T) (hrun : Run (turnStep qsort) T tr T') : Useless T' := by
  induction hrun with
  | refl => exact h
  | step run last ih =>
    obtain ⟨hok1, hs1⟩ := turnOk_run hok run
    exact useless_step ih hok1 (hfit.mono hs1) last

/-! ## Totals -/

/-- The need for everything over all cities. -/
def Map.totalNeed (map : Map) : Int := (map.cities.map fun city => total city.stock).sum

theorem totalNeed_nonneg {T : Turn} (h : TurnOk T) : 0 ≤ T.map.totalNeed :=
  List.sum_nonneg (by simpa using fun city hc => total_nonneg (h.needs city hc))

theorem totalNeed_mono {T T' : Turn} (hs : Shrinks T T') : T'.map.totalNeed ≤ T.map.totalNeed := by
  have hcities := hs.cities
  unfold Map.totalNeed
  generalize T.map.cities = old at hcities ⊢
  generalize T'.map.cities = new at hcities ⊢
  induction hcities with
  | nil => exact le_rfl
  | cons hc _ ih =>
    rw [List.map_cons, List.map_cons, List.sum_cons, List.sum_cons]
    have := hc.2.2.total_le
    omega

/-- A visit that meets no need changes no city. -/
theorem setNeeds_eq {T : Turn} {c : ℕ} {city : City} {needs : List Stock}
    (hc : T.map.cities[c]? = some city) (hd : Drained city.stock needs)
    (htotal : T.map.totalNeed ≤ (T.map.setNeeds c city needs).totalNeed) :
    T.map.setNeeds c city needs = T.map := by
  have hsum : (T.map.setNeeds c city needs).totalNeed =
      T.map.totalNeed - total city.stock + total needs :=
    sum_map_set (fun city : City => total city.stock) hc _
  obtain rfl : needs = city.stock := hd.eq_of_total (by omega)
  unfold Map.setNeeds
  obtain ⟨hlt, rfl⟩ := List.getElem?_eq_some_iff.mp hc
  rw [List.set_getElem_self hlt]

/-! ## The window -/

/-- No plane is further than `D`, now or after its next choice. -/
structure Within (D : Int) (T : Turn) : Prop where
  plane : ∀ a p t, T.get a p = some t → 0 ≤ t.plane.distance ∧ t.plane.distance ≤ D
  matrix : ∀ i j d, getDistance T.map i j = some d → 0 ≤ d ∧ d ≤ D

theorem TurnPlane.choose_within {T : Turn} {D : Int} (h : Within D T) {a p : ℕ} {t : TurnPlane}
    (ht : T.get a p = some t) {cityInfo : List CityInfo}
    (hcand : candidates qsort T.map t.plane = some cityInfo) :
    0 ≤ (t.choose cityInfo).plane.distance ∧ (t.choose cityInfo).plane.distance ≤ D := by
  cases cityInfo with
  | nil => exact h.plane a p t ht
  | cons info rest =>
    obtain ⟨city, -, -, -, hdist⟩ := (candidates_spec hcand).1 info (by simp)
    exact h.matrix _ _ _ hdist

theorem within_step {D : Int} {T T' : Turn} {act : TurnAction}
    {es : List (List Stock × List Stock)} (h : Within D T)
    (hstep : turnStep qsort T act = some (es, T')) : Within D T' := by
  rcases turnStep_cases hstep with
    ⟨a, p, t, c, city, needs, stocks, ht, -, -, -, -, hc, hun, -, rfl⟩ |
    ⟨a, p, t, ht, -, -, -, -, rfl⟩ | ⟨a, p, t, cityInfo, ht, -, -, -, hcand, -, rfl⟩ |
    ⟨a, p, t, ht, -, -, hair, -, rfl⟩ | ⟨-, -, rfl⟩
  · refine ⟨fun b q x hx => ?_, h.matrix⟩
    rcases get2_set2_cases ht hx with ⟨-, -, rfl⟩ | ⟨-, hx⟩
    · exact h.plane a p t ht
    · exact h.plane b q x hx
  · refine ⟨fun b q x hx => ?_, h.matrix⟩
    rcases get2_set2_cases ht hx with ⟨-, -, rfl⟩ | ⟨-, hx⟩
    · exact h.plane a p t ht
    · exact h.plane b q x hx
  · refine ⟨fun b q x hx => ?_, h.matrix⟩
    rcases get2_set2_cases ht hx with ⟨-, -, rfl⟩ | ⟨-, hx⟩
    · exact TurnPlane.choose_within h ht hcand
    · exact h.plane b q x hx
  · refine ⟨fun b q x hx => ?_, h.matrix⟩
    rcases get2_set2_cases ht hx with ⟨-, -, rfl⟩ | ⟨-, hx⟩
    · have := h.plane a p t ht
      dsimp only
      omega
    · exact h.plane b q x hx
  · refine ⟨fun b q x hx => ?_, h.matrix⟩
    rw [Turn.get, get2_map] at hx
    obtain ⟨t, ht, rfl⟩ := Option.map_eq_some_iff.mp hx
    exact h.plane b q t ht

/-- The start of a turn: every plane that is not retired has its part ahead of it. -/
structure Fresh (T : Turn) : Prop where
  phase : T.phase = .one
  todo : ∀ a p t, T.get a p = some t → t.todo = !t.done

/-- The plane has not been in the city it is at or heading for. -/
def Unvisited (T : Turn) (t : TurnPlane) : Prop :=
  (T.phase = .one ∧ t.todo = true) ∨ (T.phase = .two ∧ t.todo = false)

/-- Turns since `start` in which the plane has had its move. -/
def moves (start : ℕ) (T : Turn) (t : TurnPlane) : Int :=
  T.turn - start + if T.phase = .two ∧ t.todo = false then 1 else 0

/-- Some product is needed in the plane's city and aboard. -/
def Wanted (T : Turn) (t : TurnPlane) : Prop :=
  ∃ c : ℕ, t.plane.cityId = c ∧ ∃ city, T.map.cities[c]? = some city ∧
    ∃ k ∈ city.stock, ∃ s ∈ t.plane.stocks, k.product.id = s.product.id ∧ 0 < k.amount ∧ 0 < s.amount

/-- How far a plane is, in a window in which no need is met: on the way to its first city, in it,
or on the way to one where it is wanted. -/
inductive Leg (D : Int) (start : ℕ) (T : Turn) (t : TurnPlane) : Prop where
  | first (near : t.plane.distance + moves start T t ≤ D)
      (ground : t.plane.distance = 0 → Unvisited T t)
  | visited (ground : t.plane.distance = 0) (near : moves start T t ≤ D) (visited : ¬Unvisited T t)
  | second (near : t.plane.distance + moves start T t ≤ 2 * D + 1) (wanted : Wanted T t)
      (ground : t.plane.distance = 0 → Unvisited T t)

/-- Every plane that is not retired is on one of its legs. -/
def Legs (D : Int) (start : ℕ) (T : Turn) : Prop :=
  ∀ a p t, T.get a p = some t → t.done = false → Leg D start T t

/-- The leg depends on the turn, the phase and the cities only. -/
theorem Leg.congr {D : Int} {start : ℕ} {T T' : Turn} {t : TurnPlane} (h : Leg D start T t)
    (hmap : T'.map = T.map) (hturn : T'.turn = T.turn) (hphase : T'.phase = T.phase) :
    Leg D start T' t := by
  have hu : Unvisited T' t ↔ Unvisited T t := by unfold Unvisited; rw [hphase]
  have hm : moves start T' t = moves start T t := by unfold moves; rw [hturn, hphase]
  have hw : Wanted T' t ↔ Wanted T t := by unfold Wanted; rw [hmap]
  cases h with
  | first near ground => exact .first (by rw [hm]; exact near) fun h => hu.mpr (ground h)
  | visited ground near visited =>
    exact .visited ground (by rw [hm]; exact near) fun h => visited (hu.mp h)
  | second near wanted ground =>
    exact .second (by rw [hm]; exact near) (hw.mpr wanted) fun h => hu.mpr (ground h)

/-- One plane changes, and no city does. -/
theorem Legs.set {D : Int} {start : ℕ} {T : Turn} (h : Legs D start T) {a p : ℕ} {t : TurnPlane}
    (ht : T.get a p = some t) (t' : TurnPlane) (hleg : t'.done = false → Leg D start T t') :
    Legs D start (T.set a p t') := by
  intro b q x hx hd
  rcases get2_set2_cases ht hx with ⟨-, -, rfl⟩ | ⟨-, hx⟩
  · exact (hleg hd).congr rfl rfl rfl
  · exact (h b q x hx hd).congr rfl rfl rfl

/-- A destination that was offered is wanted. -/
theorem wanted_choose {T : Turn} (hok : TurnOk T) {a p : ℕ} {t : TurnPlane}
    (ht : T.get a p = some t) {info : CityInfo} {rest : List CityInfo}
    (hcand : candidates qsort T.map t.plane = some (info :: rest)) :
    Wanted T (t.choose (info :: rest)) := by
  obtain ⟨city, hmem, hid, hscore, -⟩ := (candidates_spec hcand).1 info (by simp)
  obtain ⟨c, hc⟩ := List.mem_iff_getElem?.mp hmem
  obtain ⟨k, hk, s, hs, hks, hkpos, hspos⟩ :=
    exists_shared_of_score (hok.needs city hmem) (hok.cargo a p t ht) hscore
  have hcity : info.cityId = (c : ℕ) := hid.trans (hok.numbered c city hc)
  exact ⟨c, hcity, city, hc, k, hk, s, hs, hks, hkpos, hspos⟩

/-- A plane that unloads where it is wanted meets a need. -/
theorem setNeeds_lt {T : Turn} (hok : TurnOk T) (hneeds : NeedsDistinct T.map) {a p c : ℕ}
    {t : TurnPlane} (ht : T.get a p = some t) {city : City} {needs stocks : List Stock}
    (hcity : t.plane.cityId = (c : ℕ)) (hc : T.map.cities[c]? = some city)
    (hun : Unloads city.stock t.plane.stocks needs stocks) (hwanted : Wanted T t) :
    (T.map.setNeeds c city needs).totalNeed < T.map.totalNeed := by
  obtain ⟨c', hc', city', hget, k, hk, s, hs, hks, hkpos, hspos⟩ := hwanted
  obtain rfl : c = c' := by omega
  obtain rfl : city = city' := Option.some.inj (hc.symm.trans hget)
  have hmem := List.mem_of_getElem? hc
  have hlt := total_lt_of_shared hun (hok.needs city hmem) (hok.cargo a p t ht)
    (hneeds city hmem) hk hs hks hkpos hspos
  have hsum : (T.map.setNeeds c city needs).totalNeed =
      T.map.totalNeed - total city.stock + total needs :=
    sum_map_set (fun city : City => total city.stock) hc _
  omega

theorem legs_step {D : Int} {start : ℕ} {T T' : Turn} {act : TurnAction}
    {es : List (List Stock × List Stock)} (h : Legs D start T) (hok : TurnOk T)
    (hneeds : NeedsDistinct T.map) (hwithin : Within D T)
    (hstep : turnStep qsort T act = some (es, T'))
    (htotal : T.map.totalNeed ≤ T'.map.totalNeed) : Legs D start T' := by
  rcases turnStep_cases hstep with
    ⟨a, p, t, c, city, needs, stocks, ht, hphase, htodo, hground, hcity, hc, hun, -, rfl⟩ |
    ⟨a, p, t, ht, hphase, htodo, hair, -, rfl⟩ |
    ⟨a, p, t, cityInfo, ht, hphase, htodo, hground, hcand, -, rfl⟩ |
    ⟨a, p, t, ht, hphase, htodo, hair, -, rfl⟩ | ⟨hall, -, rfl⟩
  · have hmem := List.mem_of_getElem? hc
    obtain ⟨hdc, -⟩ := drained_unloads hun (hok.needs city hmem) (hok.cargo a p t ht)
    rw [setNeeds_eq hc hdc htotal]
    refine h.set ht _ fun _ => ?_
    cases h a p t ht (hok.active a p t ht htodo) with
    | first near _ =>
      refine .visited hground ?_ (by simp [Unvisited, hphase])
      simp [moves, hphase] at near ⊢
      omega
    | visited _ _ visited => exact absurd (.inl ⟨hphase, htodo⟩) visited
    | second _ wanted _ =>
      exact absurd (setNeeds_lt hok hneeds ht hcity hc hun wanted) (not_lt.mpr htotal)
  · refine h.set ht _ fun hd => ?_
    cases h a p t ht hd with
    | first near _ =>
      exact .first (by simpa [moves, hphase] using near) fun h => absurd h hair
    | visited ground _ _ => exact absurd ground hair
    | second near wanted _ =>
      exact .second (by simpa [moves, hphase] using near) wanted fun h => absurd h hair
  · refine h.set ht _ fun hd => ?_
    have hnot : ¬Unvisited T t := by simp [Unvisited, hphase, htodo]
    cases h a p t ht (hok.active a p t ht htodo) with
    | first _ ground => exact absurd (ground hground) hnot
    | second _ _ ground => exact absurd (ground hground) hnot
    | visited _ near _ =>
      cases cityInfo with
      | nil => cases hd
      | cons info rest =>
        obtain ⟨-, hdist⟩ := TurnPlane.choose_within hwithin ht hcand
        refine .second ?_ (wanted_choose hok ht hcand) fun _ => .inr ⟨hphase, rfl⟩
        simp [moves, hphase, htodo, TurnPlane.choose] at near hdist ⊢
        omega
  · refine h.set ht _ fun hd => ?_
    cases h a p t ht hd with
    | first near _ =>
      refine .first ?_ fun _ => .inr ⟨hphase, rfl⟩
      simp [moves, hphase, htodo] at near ⊢
      omega
    | visited ground _ _ => exact absurd ground hair
    | second near wanted _ =>
      refine .second ?_ wanted fun _ => .inr ⟨hphase, rfl⟩
      simp [moves, hphase, htodo] at near ⊢
      omega
  · intro b q x hx hd
    rw [Turn.get, get2_map] at hx
    obtain ⟨t, ht, rfl⟩ := Option.map_eq_some_iff.mp hx
    have hd : t.done = false := hd
    have htodo := hall b q t ht
    have hleg := h b q t ht hd
    cases hphase : T.phase with
    | one =>
      have hnot : ¬Unvisited T t := by simp [Unvisited, hphase, htodo]
      cases hleg with
      | first near ground =>
        exact .first (by simpa [moves, hphase, hd] using near) fun h => absurd (ground h) hnot
      | visited ground near _ =>
        exact .visited ground (by simpa [moves, hphase, hd] using near)
          (by simp [Unvisited, hd])
      | second near wanted ground =>
        exact .second (by simpa [moves, hphase, hd] using near) wanted
          fun h => absurd (ground h) hnot
    | two =>
      cases hleg with
      | first near ground =>
        refine .first ?_ fun _ => .inl ⟨rfl, by simp [hd]⟩
        simp [moves, hphase, htodo] at near ⊢
        omega
      | visited _ _ visited => exact absurd (.inr ⟨hphase, htodo⟩) visited
      | second near wanted ground =>
        refine .second ?_ wanted fun _ => .inl ⟨rfl, by simp [hd]⟩
        simp [moves, hphase, htodo] at near ⊢
        omega

/-- What the window rests on. -/
structure Ready (D : ℕ) (T : Turn) : Prop where
  ok : TurnOk T
  needs : NeedsDistinct T.map
  within : Within D T

theorem ready_step {D : ℕ} {T T' : Turn} {act : TurnAction}
    {es : List (List Stock × List Stock)} (h : Ready D T)
    (hstep : turnStep qsort T act = some (es, T')) : Ready D T' where
  ok := (turnOk_step h.ok hstep).1
  needs := h.needs.mono (turnOk_step h.ok hstep).2
  within := within_step h.within hstep

theorem ready_run {D : ℕ} {T T' : Turn} {tr : List (List Stock × List Stock)} (h : Ready D T)
    (hrun : Run (turnStep qsort) T tr T') : Ready D T' :=
  hrun.invariant h fun _ _ _ _ => ready_step

/-- While no need is met, every plane keeps to its legs. -/
theorem legs_run {D : ℕ} {T0 T : Turn} {tr : List (List Stock × List Stock)} (h0 : Ready D T0)
    (hfresh : Fresh T0) (hrun : Run (turnStep qsort) T0 tr T)
    (htotal : T0.map.totalNeed ≤ T.map.totalNeed) : Legs D T0.turn T := by
  induction hrun with
  | refl =>
    intro a p t ht hd
    refine .first ?_ fun _ => .inl ⟨hfresh.phase, by rw [hfresh.todo a p t ht, hd]; rfl⟩
    have := (h0.within.plane a p t ht).2
    simpa [moves, hfresh.phase] using this
  | step run last ih =>
    have h := ready_run h0 run
    have hlast := totalNeed_mono (turnOk_step h.ok last).2
    have hfirst := totalNeed_mono (turnOk_run h0.ok run).2
    exact legs_step (ih (by omega)) h.ok h.needs h.within last (by omega)

def Turn.AllDone (T : Turn) : Prop := ∀ a p t, T.get a p = some t → t.done = true

/-- **The window.** In `2 * D + 2` turns a need is met, or every plane has retired. -/
theorem window {D : ℕ} {T0 T : Turn} {tr : List (List Stock × List Stock)} (h0 : Ready D T0)
    (hfresh0 : Fresh T0) (hrun : Run (turnStep qsort) T0 tr T) (hfresh : Fresh T)
    (hturn : T0.turn + (2 * D + 2) ≤ T.turn) :
    T.map.totalNeed < T0.map.totalNeed ∨ T.AllDone := by
  by_cases htotal : T0.map.totalNeed ≤ T.map.totalNeed
  · right
    intro a p t ht
    by_contra hd
    have hd : t.done = false := by simpa using hd
    have hdist := (ready_run h0 hrun).within.plane a p t ht
    have hmoves : moves T0.turn T t = T.turn - T0.turn := by simp [moves, hfresh.phase]
    cases legs_run h0 hfresh0 hrun htotal a p t ht hd with
    | first near _ => omega
    | visited _ _ visited =>
      exact visited (.inl ⟨hfresh.phase, by rw [hfresh.todo a p t ht, hd]; rfl⟩)
    | second near _ _ => omega
  · left
    omega

/-! ## The whole run -/

/-- A step leaves the turn alone, or starts the next one. -/
theorem turn_step {T T' : Turn} {act : TurnAction} {es : List (List Stock × List Stock)}
    (hstep : turnStep qsort T act = some (es, T')) :
    T'.turn = T.turn ∨ T'.turn = T.turn + 1 ∧ Fresh T' := by
  rcases turnStep_cases hstep with ⟨_, _, _, _, _, _, _, _, _, _, _, _, _, _, _, rfl⟩ |
    ⟨_, _, _, _, _, _, _, _, rfl⟩ | ⟨_, _, _, _, _, _, _, _, _, _, rfl⟩ |
    ⟨_, _, _, _, _, _, _, _, rfl⟩ | ⟨-, -, rfl⟩
  · exact .inl rfl
  · exact .inl rfl
  · exact .inl rfl
  · exact .inl rfl
  · cases hphase : T.phase with
    | one => exact .inl (by simp)
    | two =>
      refine .inr ⟨by simp, rfl, fun b q x hx => ?_⟩
      rw [Turn.get, get2_map] at hx
      obtain ⟨t, -, rfl⟩ := Option.map_eq_some_iff.mp hx
      rfl

/-- A run goes through the start of every turn. -/
theorem exists_fresh {T0 T : Turn} {tr : List (List Stock × List Stock)} (hfresh : Fresh T0)
    (hrun : Run (turnStep qsort) T0 tr T) {k : ℕ} (hle : T0.turn ≤ k) (hk : k ≤ T.turn) :
    ∃ T1 tr1 tr2, Run (turnStep qsort) T0 tr1 T1 ∧ Fresh T1 ∧ T1.turn = k ∧
      Run (turnStep qsort) T1 tr2 T := by
  induction hrun with
  | refl => exact ⟨T0, [], [], .refl, hfresh, by omega, .refl⟩
  | @step tr es T T' act run last ih =>
    rcases turn_step last with hturn | ⟨hturn, hfresh'⟩
    · obtain ⟨T1, tr1, tr2, hrun1, hf1, hk1, hrun2⟩ := ih (by omega)
      exact ⟨T1, tr1, _, hrun1, hf1, hk1, hrun2.step last⟩
    · by_cases hlast : k = T'.turn
      · exact ⟨T', _, [], run.step last, hfresh', hlast.symm, .refl⟩
      · obtain ⟨T1, tr1, tr2, hrun1, hf1, hk1, hrun2⟩ := ih (by omega)
        exact ⟨T1, tr1, _, hrun1, hf1, hk1, hrun2.step last⟩

/-- Who has retired stays retired. -/
theorem Turn.AllDone.mono {T T' : Turn} (h : T.AllDone) (hs : Shrinks T T') : T'.AllDone := by
  intro a p t' ht'
  obtain ⟨t, ht, -⟩ := hs.cargo a p t' ht'
  obtain ⟨t'', ht'', hd, -⟩ := hs.done a p t ht (h a p t ht)
  rw [ht'] at ht''
  cases ht''
  exact hd

/-- **Progress.** After `(need + 1) * (2 * D + 2)` turns every plane has retired. -/
theorem all_retired {D : ℕ} (n : ℕ) :
    ∀ {T0 T : Turn} {tr : List (List Stock × List Stock)}, Ready D T0 → Fresh T0 →
      Run (turnStep qsort) T0 tr T → T0.map.totalNeed ≤ n →
      T0.turn + (n + 1) * (2 * D + 2) ≤ T.turn → T.AllDone := by
  induction n with
  | zero =>
    intro T0 T tr h0 hfresh hrun hneed hturn
    obtain ⟨T1, tr1, tr2, hrun1, hf1, hk1, hrun2⟩ :=
      exists_fresh hfresh hrun (k := T0.turn + (2 * D + 2)) (by omega) (by omega)
    have h1 := ready_run h0 hrun1
    rcases window h0 hfresh hrun1 hf1 (by omega) with hlt | hdone
    · have := totalNeed_nonneg h1.ok
      omega
    · exact hdone.mono (turnOk_run h1.ok hrun2).2
  | succ n ih =>
    intro T0 T tr h0 hfresh hrun hneed hturn
    have hsplit : (n + 1 + 1) * (2 * D + 2) = (n + 1) * (2 * D + 2) + (2 * D + 2) := by ring
    obtain ⟨T1, tr1, tr2, hrun1, hf1, hk1, hrun2⟩ :=
      exists_fresh hfresh hrun (k := T0.turn + (2 * D + 2)) (by omega) (by omega)
    have h1 := ready_run h0 hrun1
    rcases window h0 hfresh hrun1 hf1 (by omega) with hlt | hdone
    · exact ih h1 hf1 hrun2 (by omega) (by omega)
    · exact hdone.mono (turnOk_run h1.ok hrun2).2

end PlaneSim
