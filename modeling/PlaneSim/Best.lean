import PlaneSim.Service

/-!
# The ten best

1. What the candidate loop keeps of the cities it has seen (`Best`): at most ten of those that
   score, all of them while there is room, and afterwards none that scores less than one left out
   (`candidates_best`).
2. Sorted by distance and cut to five, the first one is where the plane goes (`serve_nearest`).
3. What `app_give_destinations` sends are the ten best, in order of distance
   (`appGiveDestinations_tenBest`).
-/

namespace PlaneSim

open CInt Routes

/-! ## The candidate loop -/

/-- `cityInfo` holds the best of the cities `seen`. -/
structure Best (plane : Plane) (seen : List City) (cityInfo : List CityInfo) : Prop where
  length_le : cityInfo.length ≤ MAX_DESTINATIONS
  nodup : (cityInfo.map (·.cityId)).Nodup
  scores : ∀ info ∈ cityInfo, ∃ city ∈ seen, info.cityId = city.id ∧
    info.score = getCityScore city.stock plane.stocks ∧ info.score ≠ 0
  kept : ∀ city ∈ seen, getCityScore city.stock plane.stocks ≠ 0 →
    (∃ info ∈ cityInfo, info.cityId = city.id) ∨ cityInfo.length = MAX_DESTINATIONS ∧
      ∀ info ∈ cityInfo, getCityScore city.stock plane.stocks ≤ info.score

theorem best_nil (plane : Plane) : Best plane [] [] where
  length_le := Nat.zero_le _
  nodup := List.nodup_nil
  scores := by simp
  kept := by simp

section Round

variable {plane : Plane} {seen : List City} {cityInfo : List CityInfo} {city : City}

theorem Best.mono (h : Best plane seen cityInfo) (city : City) {info : CityInfo}
    (hi : info ∈ cityInfo) : ∃ c ∈ seen ++ [city], info.cityId = c.id ∧
      info.score = getCityScore c.stock plane.stocks ∧ info.score ≠ 0 := by
  obtain ⟨c, hc, hinfo⟩ := h.scores info hi
  exact ⟨c, by simp [hc], hinfo⟩

theorem Best.fresh (h : Best plane seen cityInfo) (hids : ((seen ++ [city]).map (·.id)).Nodup)
    {info : CityInfo} (hi : info ∈ cityInfo) : info.cityId ≠ city.id := by
  obtain ⟨c, hc, hid, -⟩ := h.scores info hi
  rw [List.map_append, List.nodup_append] at hids
  rw [hid]
  exact hids.2.2 c.id (List.mem_map.mpr ⟨c, hc, rfl⟩) city.id (by simp)

/-- A city that does not score, or not enough. -/
theorem Best.pass (h : Best plane seen cityInfo)
    (hcity : getCityScore city.stock plane.stocks ≠ 0 → MAX_DESTINATIONS ≤ cityInfo.length ∧
      ∀ info ∈ cityInfo, getCityScore city.stock plane.stocks ≤ info.score) :
    Best plane (seen ++ [city]) cityInfo where
  length_le := h.length_le
  nodup := h.nodup
  scores _ := h.mono city
  kept c hc hnz := by
    rcases List.mem_append.mp hc with hc | hc
    · exact h.kept c hc hnz
    · obtain rfl := List.mem_singleton.mp hc
      obtain ⟨hfull, hle⟩ := hcity hnz
      exact .inr ⟨le_antisymm h.length_le hfull, hle⟩

/-- A city that there is room for. -/
theorem Best.append (h : Best plane seen cityInfo) (hids : ((seen ++ [city]).map (·.id)).Nodup)
    (hnz : getCityScore city.stock plane.stocks ≠ 0) (hlt : cityInfo.length < MAX_DESTINATIONS)
    (distance : Int) : Best plane (seen ++ [city])
      (cityInfo ++ [cityInfoOf city distance (getCityScore city.stock plane.stocks)]) where
  length_le := by
    rw [List.length_append, List.length_singleton]
    exact hlt
  nodup := by
    rw [List.map_append, List.map_singleton]
    refine List.nodup_append.mpr ⟨h.nodup, List.nodup_singleton _, fun x hx y hy => ?_⟩
    obtain ⟨info, hi, rfl⟩ := List.mem_map.mp hx
    rw [List.mem_singleton.mp hy]
    exact h.fresh hids hi
  scores info hi := by
    rcases List.mem_append.mp hi with hi | hi
    · exact h.mono city hi
    · rw [List.mem_singleton.mp hi]
      exact ⟨city, by simp, rfl, rfl, hnz⟩
  kept c hc hcnz := by
    rcases List.mem_append.mp hc with hc | hc
    · rcases h.kept c hc hcnz with ⟨info, hi, hid⟩ | ⟨hfull, -⟩
      · exact .inl ⟨info, by simp [hi], hid⟩
      · omega
    · rw [List.mem_singleton.mp hc]
      exact .inl ⟨_, List.mem_append_right _ (List.mem_singleton.mpr rfl), rfl⟩

/-- A city that takes the place of one that scores least. -/
theorem Best.replace (h : Best plane seen cityInfo) (hids : ((seen ++ [city]).map (·.id)).Nodup)
    (hnz : getCityScore city.stock plane.stocks ≠ 0) {k : ℕ} {least : CityInfo}
    (hat : cityInfo[k]? = some least) (hfull : MAX_DESTINATIONS ≤ cityInfo.length)
    (hbeats : least.score < getCityScore city.stock plane.stocks)
    (hleast : ∀ info ∈ cityInfo, least.score ≤ info.score) (distance : Int) :
    Best plane (seen ++ [city])
      (cityInfo.set k (cityInfoOf city distance (getCityScore city.stock plane.stocks))) := by
  have hk := (List.getElem?_eq_some_iff.mp hat).1
  have hten : cityInfo.length = MAX_DESTINATIONS := le_antisymm h.length_le hfull
  have hout : ∀ score ≤ least.score, ∀ info ∈ cityInfo.set k (cityInfoOf city distance
      (getCityScore city.stock plane.stocks)), score ≤ info.score := by
    intro score hscore info hi
    rcases List.mem_or_eq_of_mem_set hi with hi | rfl
    · exact hscore.trans (hleast info hi)
    · exact hscore.trans hbeats.le
  refine ⟨by rw [List.length_set]; exact h.length_le, ?_, fun info hi => ?_, fun c hc hcnz => ?_⟩
  · rw [List.map_set]
    refine h.nodup.set fun hmem => ?_
    obtain ⟨info, hi, hid⟩ := List.mem_map.mp hmem
    exact h.fresh hids hi hid
  · rcases List.mem_or_eq_of_mem_set hi with hi | rfl
    · exact h.mono city hi
    · exact ⟨city, by simp, rfl, rfl, hnz⟩
  · rw [List.length_set]
    rcases List.mem_append.mp hc with hc | hc
    swap
    · rw [List.mem_singleton.mp hc]
      exact .inl ⟨_, List.mem_set hk _, rfl⟩
    rcases h.kept c hc hcnz with ⟨info, hi, hid⟩ | ⟨-, hle⟩
    swap
    · exact .inr ⟨hten, hout _ (hle least (List.mem_of_getElem? hat))⟩
    obtain ⟨j, hj⟩ := List.mem_iff_getElem?.mp hi
    by_cases hjk : k = j
    · -- `c` is the city replaced
      subst hjk
      obtain rfl : least = info := Option.some.inj (hat.symm.trans hj)
      obtain ⟨c', hc', hid', hscore, -⟩ := h.scores least hi
      have hsame : c' = c := List.inj_on_of_nodup_map hids (by simp [hc']) (by simp [hc])
        (hid'.symm.trans hid)
      rw [hsame] at hscore
      exact .inr ⟨hten, hout _ hscore.ge⟩
    · exact .inl ⟨info, List.mem_of_getElem? (i := j) (by rw [List.getElem?_set_ne hjk]; exact hj),
        hid⟩

/-- One round, for a city not seen before. -/
theorem Best.offer {map : Map} {cityInfo' : List CityInfo} (h : Best plane seen cityInfo)
    (hids : ((seen ++ [city]).map (·.id)).Nodup)
    (hoffer : offerCity map plane cityInfo city = some cityInfo') :
    Best plane (seen ++ [city]) cityInfo' := by
  rcases offerCity_cases hoffer with ⟨hz, rfl⟩ | ⟨hnz, ⟨hfull, rfl, hle⟩ | ⟨distance, -, hput⟩⟩
  · exact h.pass fun hnz => absurd hz hnz
  · exact h.pass fun _ => ⟨hfull, hle⟩
  · rcases hput with ⟨hlt, rfl⟩ | ⟨k, least, hat, hfull, hbeats, hleast, rfl⟩
    · exact h.append hids hnz hlt distance
    · exact h.replace hids hnz hat hfull hbeats hleast distance

end Round

/-- The loop, from any cities seen. -/
theorem Best.foldlM {map : Map} {plane : Plane} {cities : List City} :
    ∀ {seen : List City} {cityInfo cityInfo' : List CityInfo}, Best plane seen cityInfo →
      ((seen ++ cities).map (·.id)).Nodup →
      cities.foldlM (offerCity map plane) cityInfo = some cityInfo' →
        Best plane (seen ++ cities) cityInfo' := by
  induction cities with
  | nil =>
    intro seen cityInfo cityInfo' h _ hfold
    cases hfold
    rw [List.append_nil]
    exact h
  | cons city rest ih =>
    intro seen cityInfo cityInfo' h hids hfold
    rw [List.foldlM_cons] at hfold
    obtain ⟨cityInfo1, hoffer, hrest⟩ := Option.bind_eq_some_iff.mp hfold
    have happ : seen ++ city :: rest = (seen ++ [city]) ++ rest := by simp
    rw [happ] at hids ⊢
    have hids1 : ((seen ++ [city]).map (·.id)).Nodup := by
      rw [List.map_append] at hids
      exact hids.of_append_left
    exact ih (h.offer hids1 hoffer) hids hrest

theorem Numbered.nodup {cities : List City} (h : Numbered cities) :
    (cities.map (·.id)).Nodup := by
  have heq : cities.map (·.id) = (List.range cities.length).map fun i : ℕ => (i : Int) := by
    apply List.ext_getElem (by simp)
    intro i h1 h2
    rw [List.length_map] at h1
    rw [List.getElem_map, List.getElem_map, List.getElem_range]
    exact h i cities[i] (List.getElem?_eq_getElem h1)
  rw [heq]
  exact List.nodup_range.map fun i j hij => by exact_mod_cast hij

theorem Best.perm {plane : Plane} {seen : List City} {cityInfo cityInfo' : List CityInfo}
    (h : Best plane seen cityInfo) (hperm : cityInfo'.Perm cityInfo) :
    Best plane seen cityInfo' where
  length_le := by rw [hperm.length_eq]; exact h.length_le
  nodup := (hperm.map _).nodup_iff.mpr h.nodup
  scores info hi := h.scores info (hperm.mem_iff.mp hi)
  kept city hc hnz := by
    rcases h.kept city hc hnz with ⟨info, hi, hid⟩ | ⟨hten, hle⟩
    · exact .inl ⟨info, hperm.mem_iff.mpr hi, hid⟩
    · exact .inr ⟨hperm.length_eq.trans hten, fun info hi => hle info (hperm.mem_iff.mp hi)⟩

/-- **The selection.** The candidates are the best of all cities. -/
theorem candidates_best {qsort : Qsort} {map : Map} {plane : Plane} {cityInfo : List CityInfo}
    (hids : (map.cities.map (·.id)).Nodup) (h : candidates qsort map plane = some cityInfo) :
    Best plane map.cities cityInfo := by
  unfold candidates at h
  obtain ⟨unsorted, hfold, rfl⟩ := Option.map_eq_some_iff.mp h
  have hbest := (best_nil plane).foldlM (by rw [List.nil_append]; exact hids) hfold
  exact hbest.perm (qsort.perm unsorted)

/-- The cities that score. -/
def scoring (plane : Plane) (cities : List City) : List City :=
  cities.filter fun city => getCityScore city.stock plane.stocks ≠ 0

theorem mem_scoring {plane : Plane} {cities : List City} {city : City} :
    city ∈ scoring plane cities ↔ city ∈ cities ∧ getCityScore city.stock plane.stocks ≠ 0 := by
  simp [scoring]

/-- Only cities that score are kept. -/
theorem Best.subset_scoring {plane : Plane} {cities : List City} {cityInfo : List CityInfo}
    (h : Best plane cities cityInfo) :
    cityInfo.map (·.cityId) ⊆ (scoring plane cities).map (·.id) := by
  intro x hx
  obtain ⟨info, hi, rfl⟩ := List.mem_map.mp hx
  obtain ⟨city, hc, hid, hscore, hnz⟩ := h.scores info hi
  rw [hscore] at hnz
  exact List.mem_map.mpr ⟨city, mem_scoring.mpr ⟨hc, hnz⟩, hid.symm⟩

/-- No more cities are kept than score. -/
theorem Best.length_le_scoring {plane : Plane} {cities : List City} {cityInfo : List CityInfo}
    (h : Best plane cities cityInfo) : cityInfo.length ≤ (scoring plane cities).length := by
  have hle := (h.nodup.subperm h.subset_scoring).length_le
  rwa [List.length_map, List.length_map] at hle

/-- With no more than ten cities that score, all of them are kept. -/
theorem Best.all_kept {plane : Plane} {cities : List City} {cityInfo : List CityInfo}
    (h : Best plane cities cityInfo) (hten : (scoring plane cities).length ≤ MAX_DESTINATIONS)
    {city : City} (hc : city ∈ cities) (hnz : getCityScore city.stock plane.stocks ≠ 0) :
    ∃ info ∈ cityInfo, info.cityId = city.id := by
  rcases h.kept city hc hnz with hkept | ⟨hfull, -⟩
  · exact hkept
  by_contra hno
  -- the ten that are kept and this one are eleven
  have hnodup : (city.id :: cityInfo.map (·.cityId)).Nodup := by
    refine List.nodup_cons.mpr ⟨fun hmem => hno ?_, h.nodup⟩
    obtain ⟨info, hi, hid⟩ := List.mem_map.mp hmem
    exact ⟨info, hi, hid⟩
  have hsub : city.id :: cityInfo.map (·.cityId) ⊆ (scoring plane cities).map (·.id) :=
    List.cons_subset.mpr
      ⟨List.mem_map.mpr ⟨city, mem_scoring.mpr ⟨hc, hnz⟩, rfl⟩, h.subset_scoring⟩
  have := (hnodup.subperm hsub).length_le
  rw [List.length_cons, List.length_map, List.length_map] at this
  omega

/-! ## The answer -/

/-- A plane asks, and goes on with the answer: `listed` are the destinations it is sent. -/
def Answered (qsort : Qsort) (map : Map) (airline : ℕ) (plane : Plane) (listed : List CityInfo)
    (plane' : Plane) (done : Bool) : Prop :=
  ∃ msg d m, request airline plane .two = some (.checkDestinations msg) ∧
    serveDestinations qsort map msg = some (map, (airline : Int), .destinations d) ∧
    loadPrefix d.destinations d.count = some (listed.map (·.cityId)) ∧
    loadPrefix d.distance d.count = some (listed.map (·.distance)) ∧
    redirect (.destinations d) = some (plane.id, m) ∧
    takeReply plane .two m = some (plane', some done)

theorem storeArray_loadPrefix {cap : ℕ} {vals : List Int} {array : List (Option Int)}
    (h : storeArray cap vals = some array) : loadPrefix array vals.length = some vals := by
  unfold storeArray at h
  split at h
  · cases h
    have := loadPrefix_store vals le_rfl (List.replicate (cap - vals.length) none)
    rwa [List.take_length] at this
  · cases h

/-- The candidates reach the plane, which heads for the first. -/
theorem answered {qsort : Qsort} {map : Map} (hw : WellFormed map.product) {plane : Plane}
    (hpack : Packable map.product plane.stocks) (hground : plane.distance = 0)
    {listed : List CityInfo} (h : candidates qsort map plane = some listed) (airline : ℕ) :
    let t : TurnPlane := { plane := plane, done := false, todo := true }
    Answered qsort map airline plane listed (t.choose listed).plane (t.choose listed).done := by
  intro t
  obtain ⟨d, hd, hid, htake⟩ := takeReply_destinations (t := t) rfl (candidates_spec h).2.1
  have hserve := serveDestinations_eq hw hpack hground h hd airline 5
  unfold marshallGiveDestinations at hd
  obtain ⟨destinations, hcities, hd⟩ := Option.bind_eq_some_iff.mp hd
  obtain ⟨distance, hdistances, hd⟩ := Option.bind_eq_some_iff.mp hd
  cases hd
  have hlen : (listed.map (·.distance)).length = (listed.map (·.cityId)).length := by simp
  refine ⟨_, _, .destinations _ _ _, ?_, hserve, storeArray_loadPrefix hcities, ?_, rfl, htake⟩
  · rw [request, marshallCheckDestinations_eq hpack.length_le, Option.map_some]
  · have := storeArray_loadPrefix hdistances
    rwa [hlen] at this

/-- The candidates are sent in order of distance. -/
theorem candidates_sorted {qsort : Qsort} {map : Map} {plane : Plane} {listed : List CityInfo}
    (h : candidates qsort map plane = some listed) (hnn : ∀ info ∈ listed, 0 ≤ info.distance) :
    listed.Pairwise fun a b => a.distance ≤ b.distance := by
  unfold candidates at h
  obtain ⟨unsorted, -, rfl⟩ := Option.map_eq_some_iff.mp h
  have hperm := qsort.perm unsorted
  refine (qsort.sorted unsorted fun info hi => hnn info (hperm.mem_iff.mpr hi)).imp fun hab => ?_
  unfold cityInfoComparator at hab
  omega

/-! ## Distances -/

theorem getDistance_eq_entry {map : Map} {n : ℕ} (h : Square n map.matrix) {i j : ℕ} (hi : i < n)
    (hj : j < n) : getDistance map i j = some (entry map.matrix i j) := by
  have hi' : i < map.matrix.length := by rw [h.1]; exact hi
  have hj' : j < map.matrix[i].length := by rw [h.2 _ (List.getElem_mem hi')]; exact hj
  unfold getDistance entry
  simp [hi', hj']

/-- The distances of a map whose roads are not too long are those of the shortest routes. -/
structure Charted (roads : List (List Int)) (map : Map) : Prop where
  valid : Roads map.cities.length roads
  fits : RoadsFit map.cities.length roads
  matrix : map.matrix = floydMatrix roads map.cities.length

theorem Charted.distances {roads : List (List Int)} {map : Map} (h : Charted roads map) :
    Distances map.cities.length map.cities.length roads map.matrix := by
  rw [h.matrix]
  exact floydMatrix_distances h.valid h.fits

theorem Charted.getDistance_nonneg {roads : List (List Int)} {map : Map} (h : Charted roads map)
    {i j : ℕ} (hi : i < map.cities.length) (hj : j < map.cities.length) {d : Int}
    (hd : getDistance map i j = some d) : 0 ≤ d := by
  rw [getDistance_eq_entry h.distances.square hi hj] at hd
  obtain rfl := Option.some.inj hd
  exact (h.distances.two_mul_le h.valid h.fits i j).1

/-! ## The nearest -/

/-- **Where a plane flies.** It flies to a city that scores. One that scores and is nearer has been
left out of the list: it holds ten cities then, none of which scores less. -/
theorem serve_nearest (qsort : Qsort) {map : Map} (hw : WellFormed map.product)
    (hnum : Numbered map.cities) {roads : List (List Int)} (hchart : Charted roads map)
    (hneeds : ∀ city ∈ map.cities, Nonneg city.stock) {plane : Plane}
    (hpack : Packable map.product plane.stocks) (hcargo : Nonneg plane.stocks) {c : ℕ}
    (hcity : plane.cityId = c) (hlt : c < map.cities.length) (hground : plane.distance = 0)
    (hfits : ∀ city ∈ map.cities, ScoreFits city.stock plane.stocks)
    (hsome : ∃ city ∈ map.cities, 0 < getCityScore city.stock plane.stocks) (airline : ℕ) :
    ∃ listed plane' target, Answered qsort map airline plane listed plane' false ∧
      target ∈ map.cities ∧ plane'.cityId = target.id ∧
      0 < getCityScore target.stock plane.stocks ∧
      getDistance map target.id plane.cityId = some plane'.distance ∧
      ∀ other ∈ map.cities, 0 < getCityScore other.stock plane.stocks →
        ∀ d, getDistance map other.id plane.cityId = some d → d < plane'.distance →
          MAX_DESTINATIONS < (scoring plane map.cities).length ∧
          listed.length = MAX_DESTINATIONS ∧
          ∀ info ∈ listed, ∃ city ∈ map.cities, info.cityId = city.id ∧ city.id ≠ other.id ∧
            getCityScore other.stock plane.stocks ≤ getCityScore city.stock plane.stocks := by
  have hscore : ∀ city ∈ map.cities, 0 ≤ getCityScore city.stock plane.stocks := by
    intro city hc
    rw [getCityScore_eq (hneeds city hc) hcargo (hfits city hc)]
    exact scoreSum_nonneg (hneeds city hc) hcargo
  have hindex : ∀ city ∈ map.cities, ∃ i : ℕ, i < map.cities.length ∧ city.id = i := by
    intro city hc
    obtain ⟨i, hi⟩ := List.mem_iff_getElem?.mp hc
    exact ⟨i, (List.getElem?_eq_some_iff.mp hi).1, hnum i city hi⟩
  have hdist : ∀ city ∈ map.cities, ∀ d, getDistance map city.id plane.cityId = some d → 0 ≤ d := by
    intro city hc d hd
    obtain ⟨i, hi, hid⟩ := hindex city hc
    rw [hid, hcity] at hd
    exact hchart.getDistance_nonneg hi hlt hd
  obtain ⟨listed, hlisted⟩ : ∃ listed, candidates qsort map plane = some listed := by
    refine exists_candidates fun city hc => ?_
    obtain ⟨i, hi, hid⟩ := hindex city hc
    rw [hid, hcity]
    exact ⟨_, getDistance_eq_entry hchart.distances.square hi hlt⟩
  obtain ⟨hoffered, -, hnil⟩ := candidates_spec hlisted
  have hbest := candidates_best hnum.nodup hlisted
  have hsorted := candidates_sorted hlisted fun info hi => by
    obtain ⟨city, hc, -, -, hd⟩ := hoffered info hi
    exact hdist city hc _ hd
  have hanswer := answered hw hpack hground hlisted airline
  cases listed with
  | nil =>
    obtain ⟨city, hc, hpos⟩ := hsome
    have := hnil.mp rfl city hc
    omega
  | cons first rest =>
    obtain ⟨target, htarget, hid, hnz, hd⟩ := hoffered first (by simp)
    have hpos := hscore target htarget
    refine ⟨_, _, target, hanswer, htarget, hid, by omega, hd,
      fun other hother hopos d hod hlt => ?_⟩
    have hlt : d < first.distance := hlt
    have hout : ¬∃ info ∈ first :: rest, info.cityId = other.id := by
      rintro ⟨info, hi, hinfo⟩
      obtain ⟨c', hc', hid', -, hd'⟩ := hoffered info hi
      rw [← hid', hinfo, hod] at hd'
      obtain rfl := Option.some.inj hd'
      rcases List.mem_cons.mp hi with rfl | hi
      · exact absurd hlt (lt_irrefl _)
      · have := (List.pairwise_cons.mp hsorted).1 info hi
        omega
    refine ⟨?_, ?_⟩
    · by_contra hten
      exact hout (hbest.all_kept (not_lt.mp hten) hother hopos.ne')
    · rcases hbest.kept other hother hopos.ne' with hin | ⟨hfull, hle⟩
      · exact absurd hin hout
      · refine ⟨hfull, fun info hi => ?_⟩
        obtain ⟨city, hc, hid', hscore', -⟩ := hbest.scores info hi
        refine ⟨city, hc, hid', fun he => hout ⟨info, hi, hid'.trans he⟩, ?_⟩
        rw [← hscore']
        exact hle info hi

/-! ## More than ten -/

/-- The road from city 0 to city `i`; city 1 is nearest. -/
def starRoad (i : ℕ) : Int := if i = 0 then 0 else if i = 1 then 1 else 2

def starRoads : List (List Int) :=
  (List.range 12).map fun i => (List.range 12).map fun j =>
    if i = 0 then starRoad j else if j = 0 then starRoad i else 0

/-- All other ways lead through city 0. -/
def starDistances : List (List Int) :=
  (List.range 12).map fun i => (List.range 12).map fun j =>
    if i = j then 0 else starRoad i + starRoad j

/-- City 1 needs one `para`, those further away need two. -/
def starCity (i : ℕ) : City where
  name := [Char.ofNat (97 + i)]
  id := i
  stock := [{ amount := if i = 0 then 0 else if i = 1 then 1 else 2, product := para }]

def starMap : Map where
  cities := (List.range 12).map starCity
  product := [aspi, para]
  matrix := starDistances

def starPlane : Plane where
  id := 0
  stocks := [{ amount := 5, product := para }]
  cityId := 0
  distance := 0

theorem length_starMap : starMap.cities.length = 12 := by
  rw [starMap, List.length_map, List.length_range]

/-- The first round finds them, and the others change nothing. -/
theorem floydMatrix_starRoads : floydMatrix starRoads 12 = starDistances := by
  have hfirst : round starRoads 12 0 = starDistances := by decide +kernel
  have hrest : ∀ k ∈ (List.range 12).tail, round starDistances 12 k = starDistances := by
    decide +kernel
  rw [floydMatrix_eq_round, show List.range 12 = 0 :: (List.range 12).tail from rfl,
    List.foldl_cons, hfirst]
  generalize (List.range 12).tail = ks at hrest
  induction ks with
  | nil => rfl
  | cons k ks ih =>
    rw [List.foldl_cons, hrest k (by simp)]
    exact ih fun k hk => hrest k (by simp [hk])

theorem charted_starMap : Charted starRoads starMap := by
  refine ⟨?_, ?_, ?_⟩ <;> rw [length_starMap]
  · exact roads_of_lt (by unfold Square; decide +kernel) (by decide +kernel) (by decide +kernel)
  · unfold RoadsFit
    decide +kernel
  · rw [floydMatrix_starRoads, starMap]

theorem numbered_starMap : Numbered starMap.cities := by
  intro i city h
  obtain ⟨hi, rfl⟩ := List.getElem?_eq_some_iff.mp h
  simp [starMap, starCity]

theorem wellFormed_starMap : WellFormed starMap.product := by
  have htable : productTable [['A', 's', 'p', 'i'], ['P', 'a', 'r', 'a']] =
    some starMap.product := by decide
  exact wellFormed_productTable htable

theorem needs_starMap : ∀ city ∈ starMap.cities, Nonneg city.stock := by
  intro city hc s hs
  obtain ⟨i, -, rfl⟩ := List.mem_map.mp hc
  rw [List.mem_singleton.mp hs]
  dsimp only
  split_ifs <;> decide

theorem packable_starPlane : Packable starMap.product starPlane.stocks :=
  ⟨by decide, by simp [starPlane, starMap], by simp [starPlane, para, CITY_NAME_MAX_LENGTH]⟩

theorem scoreFits_starMap : ∀ city ∈ starMap.cities, ScoreFits city.stock starPlane.stocks := by
  unfold ScoreFits
  decide +kernel

theorem serve_nearest_starPlane :
    ∃ listed plane' target, Answered Qsort.insertion starMap 3 starPlane listed plane' false ∧
      target ∈ starMap.cities ∧ plane'.cityId = target.id ∧
      0 < getCityScore target.stock starPlane.stocks ∧
      getDistance starMap target.id starPlane.cityId = some plane'.distance := by
  obtain ⟨listed, plane', target, hanswer, htarget, hid, hpos, hd, -⟩ :=
    @serve_nearest Qsort.insertion starMap wellFormed_starMap numbered_starMap starRoads
      charted_starMap needs_starMap starPlane packable_starPlane (by unfold Nonneg; decide) 0 rfl
      (by decide +kernel) rfl scoreFits_starMap
      ⟨starCity 1, List.mem_map.mpr ⟨1, by decide, rfl⟩, by decide +kernel⟩ 3
  exact ⟨listed, plane', target, hanswer, htarget, hid, hpos, hd⟩

/-- Ten cities at distance two crowd out the one at distance one. -/
theorem starPlane_flies_past :
    Charted starRoads starMap ∧ (∀ i < 12, i ≠ 0 → Routes.Joined (entry starRoads) 0 [] i) ∧
      (∀ city ∈ starMap.cities, Nonneg city.stock ∧ ScoreFits city.stock starPlane.stocks) ∧
      ∃ listed plane', Answered Qsort.insertion starMap 3 starPlane listed plane' false ∧
        ∃ near ∈ starMap.cities, 0 < getCityScore near.stock starPlane.stocks ∧
          ∃ d, getDistance starMap near.id starPlane.cityId = some d ∧ d < plane'.distance := by
  refine ⟨charted_starMap, by unfold Routes.Joined; decide +kernel,
    fun city hc => ⟨needs_starMap city hc, scoreFits_starMap city hc⟩, ?_⟩
  have hlisted : (candidates Qsort.insertion starMap starPlane).map (List.map (·.distance)) =
      some (List.replicate 10 2) := by decide +kernel
  obtain ⟨listed, hcand, hdist⟩ := Option.map_eq_some_iff.mp hlisted
  have hanswer := answered wellFormed_starMap packable_starPlane rfl hcand 3
  cases listed with
  | nil => cases hdist
  | cons first rest =>
    have hfirst : first.distance = 2 := (List.cons_eq_cons.mp hdist).1
    refine ⟨_, _, hanswer, starCity 1, List.mem_map.mpr ⟨1, by decide, rfl⟩, by decide +kernel, 1,
      by decide +kernel, ?_⟩
    show (1 : Int) < first.distance
    rw [hfirst]
    decide

/-! ## The list that is sent -/

/-- With fewer than ten entries nothing that scores is left out. -/
theorem Best.length_eq {plane : Plane} {cities : List City} {cityInfo : List CityInfo}
    (h : Best plane cities cityInfo) (hids : (cities.map (·.id)).Nodup) :
    cityInfo.length = min (scoring plane cities).length MAX_DESTINATIONS := by
  have hle := h.length_le_scoring
  have hten := h.length_le
  by_cases hfull : cityInfo.length = MAX_DESTINATIONS
  · omega
  have hsub : (scoring plane cities).map (·.id) ⊆ cityInfo.map (·.cityId) := by
    intro x hx
    obtain ⟨city, hc, rfl⟩ := List.mem_map.mp hx
    obtain ⟨hcity, hnz⟩ := mem_scoring.mp hc
    rcases h.kept city hcity hnz with ⟨info, hi, hid⟩ | ⟨hlen, -⟩
    · exact List.mem_map.mpr ⟨info, hi, hid⟩
    · exact absurd hlen hfull
  have hnodup : ((scoring plane cities).map (·.id)).Nodup :=
    hids.sublist (List.filter_sublist.map _)
  have hge := (hnodup.subperm hsub).length_le
  rw [List.length_map, List.length_map] at hge
  omega

/-- The city behind an entry of the array, with its score and its distance. -/
theorem Best.exists_city {map : Map} {plane : Plane} {cityInfo : List CityInfo}
    (h : Best plane map.cities cityInfo) (hids : (map.cities.map (·.id)).Nodup)
    (hoff : ∀ info ∈ cityInfo, Offered map plane info) {info : CityInfo} (hi : info ∈ cityInfo) :
    ∃ city ∈ map.cities, info.cityId = city.id ∧
      info.score = getCityScore city.stock plane.stocks ∧ info.score ≠ 0 ∧
      getDistance map city.id plane.cityId = some info.distance := by
  obtain ⟨city, hc, hid, hscore, hnz⟩ := h.scores info hi
  obtain ⟨city', hc', hid', -, hd⟩ := hoff info hi
  obtain rfl : city' = city := List.inj_on_of_nodup_map hids hc' hc (hid'.symm.trans hid)
  exact ⟨city', hc, hid, hscore, hnz, hd⟩

/-- `sent` are the ten best of the map's cities, or all that score if they are fewer, each with its
distance from the plane's city; the nearest comes first. -/
structure TenBest (map : Map) (plane : Plane) (sent : List (City × Int)) : Prop where
  length_eq : sent.length =
    min (map.cities.countP fun city => 0 < getCityScore city.stock plane.stocks) MAX_DESTINATIONS
  distinct : (sent.map (·.1.id)).Nodup
  scores : ∀ entry ∈ sent, entry.1 ∈ map.cities ∧ 0 < getCityScore entry.1.stock plane.stocks
  left_out : ∀ city ∈ map.cities, 0 < getCityScore city.stock plane.stocks →
    city ∉ sent.map (·.1) → ∀ entry ∈ sent,
      getCityScore city.stock plane.stocks ≤ getCityScore entry.1.stock plane.stocks
  distances : ∀ entry ∈ sent, getDistance map entry.1.id plane.cityId = some entry.2
  sorted : sent.Pairwise fun a b => a.2 ≤ b.2

/-- The candidates, with the cities behind them. -/
theorem Best.tenBest {map : Map} {plane : Plane} {cityInfo : List CityInfo}
    (h : Best plane map.cities cityInfo) (hids : (map.cities.map (·.id)).Nodup)
    (hoff : ∀ info ∈ cityInfo, Offered map plane info)
    (hscore : ∀ city ∈ map.cities, 0 ≤ getCityScore city.stock plane.stocks)
    (hsorted : cityInfo.Pairwise fun a b => a.distance ≤ b.distance) :
    ∃ sent : List (City × Int), TenBest map plane sent ∧
      sent.map (·.1.id) = cityInfo.map (·.cityId) ∧
      sent.map (·.2) = cityInfo.map (·.distance) := by
  have : Nonempty City := ⟨{ name := [], id := 0, stock := [] }⟩
  have hcity := fun info hi => @Best.exists_city _ _ _ h hids hoff info hi
  choose! cityOf hmem hid hscored hnz hd using hcity
  have hidmap : (cityInfo.map fun info => (cityOf info, info.distance)).map (·.1.id) =
      cityInfo.map (·.cityId) := by
    rw [List.map_map]
    exact List.map_congr_left fun info hi => (hid info hi).symm
  refine ⟨cityInfo.map fun info => (cityOf info, info.distance),
    ⟨?_, ?_, fun entry he => ?_, fun city hc hpos hout entry he => ?_, fun entry he => ?_, ?_⟩,
    hidmap, by rw [List.map_map]; rfl⟩
  · rw [List.length_map, h.length_eq hids, scoring, ← List.countP_eq_length_filter]
    congr 1
    refine List.countP_congr fun city hc => ?_
    have := hscore city hc
    simp only [decide_eq_true_eq]
    omega
  · rw [hidmap]
    exact h.nodup
  · obtain ⟨info, hi, rfl⟩ := List.mem_map.mp he
    have hnn := hscore _ (hmem info hi)
    have hz := hnz info hi
    rw [hscored info hi] at hz
    exact ⟨hmem info hi, by dsimp only; omega⟩
  · obtain ⟨info, hi, rfl⟩ := List.mem_map.mp he
    rcases h.kept city hc hpos.ne' with ⟨x, hx, hxid⟩ | ⟨-, hle⟩
    · refine absurd (List.mem_map.mpr ⟨_, List.mem_map.mpr ⟨x, hx, rfl⟩, ?_⟩) hout
      exact List.inj_on_of_nodup_map hids (hmem x hx) hc ((hid x hx).symm.trans hxid)
    · have hbound := hle info hi
      rwa [hscored info hi] at hbound
  · obtain ⟨info, hi, rfl⟩ := List.mem_map.mp he
    exact hd info hi
  · exact List.pairwise_map.mpr hsorted

/-- **The destinations sent** are the ten best, in order of distance. -/
theorem appGiveDestinations_tenBest (qsort : Qsort) {map : Map} {plane : Plane}
    (hids : (map.cities.map (·.id)).Nodup)
    (hdist : ∀ city ∈ map.cities, ∃ d, getDistance map city.id plane.cityId = some d ∧ 0 ≤ d)
    (hneeds : ∀ city ∈ map.cities, Nonneg city.stock) (hcargo : Nonneg plane.stocks)
    (hfits : ∀ city ∈ map.cities, ScoreFits city.stock plane.stocks) :
    ∃ msg sent, appGiveDestinations qsort map plane = some msg ∧ msg.planeId = plane.id ∧
      msg.count = sent.length ∧
      loadPrefix msg.destinations msg.count = some (sent.map (·.1.id)) ∧
      loadPrefix msg.distance msg.count = some (sent.map (·.2)) ∧ TenBest map plane sent := by
  have hscore : ∀ city ∈ map.cities, 0 ≤ getCityScore city.stock plane.stocks := by
    intro city hc
    rw [getCityScore_eq (hneeds city hc) hcargo (hfits city hc)]
    exact scoreSum_nonneg (hneeds city hc) hcargo
  obtain ⟨cityInfo, hcand⟩ : ∃ cityInfo, candidates qsort map plane = some cityInfo := by
    refine exists_candidates fun city hc => ?_
    obtain ⟨d, hd, -⟩ := hdist city hc
    exact ⟨d, hd⟩
  obtain ⟨hoff, hten, -⟩ := candidates_spec hcand
  have hsorted := candidates_sorted hcand fun info hi => by
    obtain ⟨city, hc, -, -, hd⟩ := hoff info hi
    obtain ⟨d, hd', hnn⟩ := hdist city hc
    obtain rfl := Option.some.inj (hd'.symm.trans hd)
    exact hnn
  obtain ⟨sent, hbest, hidmap, hdmap⟩ :=
    (candidates_best hids hcand).tenBest hids hoff hscore hsorted
  have hlen : sent.length = cityInfo.length := by
    rw [← List.length_map, hdmap, List.length_map]
  obtain ⟨destinations, hcities⟩ : ∃ destinations,
      storeArray MAX_DESTINATIONS (cityInfo.map (·.cityId)) = some destinations :=
    ⟨_, storeArray_of_le (by rw [List.length_map]; exact hten)⟩
  obtain ⟨distance, hdistances⟩ : ∃ distance,
      storeArray MAX_DESTINATIONS (cityInfo.map (·.distance)) = some distance :=
    ⟨_, storeArray_of_le (by rw [List.length_map]; exact hten)⟩
  have hmsg : appGiveDestinations qsort map plane = some
      { planeId := plane.id, count := cityInfo.length, destinations := destinations,
        distance := distance } := by
    rw [appGiveDestinations, hcand, Option.bind_eq_bind, Option.bind_some,
      marshallGiveDestinations, hcities, hdistances, List.length_map]
    rfl
  have hload := storeArray_loadPrefix hcities
  have hload' := storeArray_loadPrefix hdistances
  rw [List.length_map] at hload hload'
  exact ⟨_, sent, hmsg, rfl, hlen.symm, by rw [hidmap]; exact hload, by rw [hdmap]; exact hload',
    hbest⟩

/-- City 0 needs nothing; ten of the eleven others are sent. -/
theorem appGiveDestinations_tenBest_starPlane :
    ∃ msg sent, appGiveDestinations Qsort.insertion starMap starPlane = some msg ∧
      msg.planeId = starPlane.id ∧ msg.count = sent.length ∧
      loadPrefix msg.destinations msg.count = some (sent.map (·.1.id)) ∧
      loadPrefix msg.distance msg.count = some (sent.map (·.2)) ∧ TenBest starMap starPlane sent :=
  appGiveDestinations_tenBest Qsort.insertion numbered_starMap.nodup
    (by
      intro city hc
      obtain ⟨i, hi, rfl⟩ := List.mem_map.mp hc
      have hat : (i : Int) < 12 := by exact_mod_cast List.mem_range.mp hi
      have hall : ∀ i < 12, (getDistance starMap (starCity i).id starPlane.cityId).any (0 ≤ ·) := by
        decide +kernel
      obtain ⟨d, hd, hnn⟩ := (Option.any_eq_true _ _).mp (hall i (List.mem_range.mp hi))
      exact ⟨d, hd, of_decide_eq_true hnn⟩)
    needs_starMap (by unfold Nonneg; decide) scoreFits_starMap

end PlaneSim
