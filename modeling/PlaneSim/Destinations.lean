import PlaneSim.Unload
import PlaneSim.Lib.CInt
import Mathlib.Data.List.Sort

/-!
# Scores and destinations

`getCityScore` adds up what a plane could leave in a city, `insertScore` keeps the ten best scores,
`appGiveDestinations` pairs the cities kept with their distances and sorts them. The sum is an
`int`; under `ScoreFits` it is the sum of the minima (`getCityScore_eq`).

`qsort` is any function with the documented contract (`Qsort`): it permutes the array, and orders
it when the comparator is consistent.
-/

namespace PlaneSim

open CInt

/-! ## Scores -/

/-- What the inner loop of `getCityScore` adds for one city entry. -/
def scoreTerm (planeStocks : List Stock) (cityStock : Stock) : Int :=
  match planeStocks.find? (fun planeStock => cityStock.product.id = planeStock.product.id) with
  | some planeStock =>
    if cityStock.amount > planeStock.amount then planeStock.amount else cityStock.amount
  | none => 0

def getCityScore (cityStocks planeStocks : List Stock) : Int :=
  cityStocks.foldl (fun score cityStock => addInt score (scoreTerm planeStocks cityStock)) 0

/-- The score as an integer. -/
def scoreSum (cityStocks planeStocks : List Stock) : Int :=
  (cityStocks.map (scoreTerm planeStocks)).sum

/-- The score is a value an `int` can hold. -/
def ScoreFits (cityStocks planeStocks : List Stock) : Prop :=
  scoreSum cityStocks planeStocks ≤ INT_MAX

theorem scoreTerm_nonneg {planeStocks : List Stock} (hp : Nonneg planeStocks) {cityStock : Stock}
    (hc : 0 ≤ cityStock.amount) : 0 ≤ scoreTerm planeStocks cityStock := by
  unfold scoreTerm
  split
  · rename_i planeStock hf
    have := hp planeStock (List.mem_of_find?_eq_some hf)
    split <;> omega
  · exact le_rfl

theorem getCityScore_eq {cityStocks planeStocks : List Stock} (hc : Nonneg cityStocks)
    (hp : Nonneg planeStocks) (hfit : ScoreFits cityStocks planeStocks) :
    getCityScore cityStocks planeStocks = scoreSum cityStocks planeStocks := by
  unfold getCityScore
  rw [foldl_addInt _ _ _ le_rfl (fun s hs => scoreTerm_nonneg hp (hc s hs))
    (by rw [zero_add]; exact hfit)]
  exact zero_add _

theorem scoreSum_nonneg {cityStocks planeStocks : List Stock} (hc : Nonneg cityStocks)
    (hp : Nonneg planeStocks) : 0 ≤ scoreSum cityStocks planeStocks :=
  List.sum_nonneg (by simpa using fun s hs => scoreTerm_nonneg hp (hc s hs))

/-- No product is both wanted in the city and aboard. -/
def NoShared (cityStocks planeStocks : List Stock) : Prop :=
  ∀ c ∈ cityStocks, ∀ p ∈ planeStocks, c.product.id = p.product.id → c.amount = 0 ∨ p.amount = 0

theorem scoreTerm_of_noShared {cityStocks planeStocks : List Stock} (hc : Nonneg cityStocks)
    (hp : Nonneg planeStocks) (h : NoShared cityStocks planeStocks) {c : Stock}
    (hcm : c ∈ cityStocks) : scoreTerm planeStocks c = 0 := by
  unfold scoreTerm
  split
  · rename_i p hf
    have hpm := List.mem_of_find?_eq_some hf
    have hid : c.product.id = p.product.id := by simpa using List.find?_some hf
    have h1 := hc c hcm
    have h2 := hp p hpm
    rcases h c hcm p hpm hid with hz | hz <;> split <;> omega
  · rfl

theorem scoreSum_of_noShared {cityStocks planeStocks : List Stock} (hc : Nonneg cityStocks)
    (hp : Nonneg planeStocks) (h : NoShared cityStocks planeStocks) :
    scoreSum cityStocks planeStocks = 0 := by
  apply List.sum_eq_zero
  intro x hx
  obtain ⟨c, hcm, rfl⟩ := List.mem_map.mp hx
  exact scoreTerm_of_noShared hc hp h hcm

/-- **After a visit the city scores nothing.** -/
theorem getCityScore_of_noShared {cityStocks planeStocks : List Stock} (hc : Nonneg cityStocks)
    (hp : Nonneg planeStocks) (h : NoShared cityStocks planeStocks) :
    getCityScore cityStocks planeStocks = 0 := by
  have hz := scoreSum_of_noShared hc hp h
  rw [getCityScore_eq hc hp (by unfold ScoreFits; rw [hz]; decide), hz]

/-- A score that is not zero has a product behind it. -/
theorem exists_shared_of_score {cityStocks planeStocks : List Stock} (hc : Nonneg cityStocks)
    (hp : Nonneg planeStocks) (h : getCityScore cityStocks planeStocks ≠ 0) :
    ∃ c ∈ cityStocks, ∃ p ∈ planeStocks,
      c.product.id = p.product.id ∧ 0 < c.amount ∧ 0 < p.amount := by
  by_contra hno
  refine h (getCityScore_of_noShared hc hp fun c hcm p hpm hid => ?_)
  have h1 := hc c hcm
  have h2 := hp p hpm
  by_contra hnz
  exact hno ⟨c, hcm, p, hpm, hid, by omega, by omega⟩

/-- Conversely a score of zero leaves nothing to share, when the plane's products are distinct. -/
theorem noShared_of_score {cityStocks planeStocks : List Stock} (hc : Nonneg cityStocks)
    (hp : Nonneg planeStocks) (hd : Distinct planeStocks)
    (hfit : ScoreFits cityStocks planeStocks) (h : getCityScore cityStocks planeStocks = 0) :
    NoShared cityStocks planeStocks := by
  rw [getCityScore_eq hc hp hfit] at h
  have hzero : ∀ c ∈ cityStocks, scoreTerm planeStocks c = 0 := by
    intro c hcm
    have hle : scoreTerm planeStocks c ≤ scoreSum cityStocks planeStocks :=
      List.single_le_sum (by simpa using fun s hs => scoreTerm_nonneg hp (hc s hs)) _
        (List.mem_map.mpr ⟨c, hcm, rfl⟩)
    have := scoreTerm_nonneg hp (hc c hcm)
    omega
  intro c hcm p hpm hid
  have hterm := hzero c hcm
  unfold scoreTerm at hterm
  split at hterm
  · rename_i q hf
    have hqid : c.product.id = q.product.id := by simpa using List.find?_some hf
    obtain rfl : q = p := hd.eq_of_id (List.mem_of_find?_eq_some hf) hpm (hqid.symm.trans hid)
    have h1 := hc c hcm
    split at hterm <;> omega
  · rename_i hf
    exact absurd (List.find?_eq_none.mp hf p hpm) (by simpa using hid)

/-- The entry the inner loop finds, after amounts fell. -/
theorem Drained.find? {old new : List Stock} (h : Drained old new) (id : Int) :
    (old.find? (fun s => id = s.product.id) = none ∧
        new.find? (fun s => id = s.product.id) = none) ∨
      ∃ s t, old.find? (fun s => id = s.product.id) = some s ∧
        new.find? (fun s => id = s.product.id) = some t ∧ 0 ≤ t.amount ∧ t.amount ≤ s.amount := by
  induction h with
  | nil => exact .inl ⟨rfl, rfl⟩
  | @cons s t _ _ hst _ ih =>
    by_cases hid : id = s.product.id
    · refine .inr ⟨s, t, ?_, ?_, hst.2⟩
      · rw [List.find?_cons_of_pos (by simpa using hid)]
      · rw [List.find?_cons_of_pos (by simpa [hst.1] using hid)]
    · rw [List.find?_cons_of_neg (by simpa using hid),
        List.find?_cons_of_neg (by simpa [hst.1] using hid)]
      exact ih

/-- Scores fall with the needs and with the stock. -/
theorem scoreSum_mono {cityStocks cityStocks' planeStocks planeStocks' : List Stock}
    (hc : Drained cityStocks cityStocks') (hp : Drained planeStocks planeStocks') :
    scoreSum cityStocks' planeStocks' ≤ scoreSum cityStocks planeStocks := by
  induction hc with
  | nil => exact le_rfl
  | @cons s t _ _ hst _ ih =>
    have hterm : scoreTerm planeStocks' t ≤ scoreTerm planeStocks s := by
      unfold scoreTerm
      rw [hst.1]
      rcases hp.find? s.product.id with ⟨h1, h2⟩ | ⟨x, y, h1, h2, hy⟩
      · rw [h1, h2]
      · rw [h1, h2]
        dsimp only
        split_ifs <;> omega
    unfold scoreSum at ih ⊢
    rw [List.map_cons, List.map_cons, List.sum_cons, List.sum_cons]
    omega

theorem ScoreFits.mono {cityStocks cityStocks' planeStocks planeStocks' : List Stock}
    (h : ScoreFits cityStocks planeStocks) (hc : Drained cityStocks cityStocks')
    (hp : Drained planeStocks planeStocks') : ScoreFits cityStocks' planeStocks' :=
  (scoreSum_mono hc hp).trans h

theorem NoShared.mono {cityStocks cityStocks' planeStocks : List Stock}
    (h : NoShared cityStocks planeStocks) (hc : Drained cityStocks cityStocks') :
    NoShared cityStocks' planeStocks := by
  intro c hcm p hpm hid
  obtain ⟨s, hsm, hprod, hle⟩ := hc.exists_of_mem hcm
  have h0 := hc.nonneg c hcm
  rcases h s hsm p hpm (by rw [← hprod]; exact hid) with hz | hz
  · left; omega
  · exact .inr hz

/-! ## The ten best -/

structure CityInfo where
  cityId : Int
  distance : Int
  score : Int
deriving DecidableEq, Repr

/-- The search for the first smallest score: `i` is the next index. -/
def searchMin : List CityInfo → ℕ → Int → ℕ → ℕ
  | [], _, _, minIndex => minIndex
  | info :: rest, i, min, minIndex =>
    if info.score < min then searchMin rest (i + 1) info.score i
    else searchMin rest (i + 1) min minIndex

/-- `insertScore` on the `elems` entries in use: the array with the score written, and the index;
`none` is `-1`. The other two fields are the caller's to write. -/
def insertScore (cityInfo : List CityInfo) (size : ℕ) (score : Int) :
    Option (List CityInfo × ℕ) :=
  if cityInfo.length < size then
    some (cityInfo ++ [{ cityId := 0, distance := 0, score := score }], cityInfo.length)
  else
    match cityInfo with
    | [] => none
    | info :: rest =>
      let minIndex := searchMin (info :: rest) 0 info.score 0
      if score > ((info :: rest)[minIndex]?.getD info).score then
        some ((info :: rest).modify minIndex ({ · with score := score }), minIndex)
      else none

/-- One round of the candidate loop. -/
def offerCity (map : Map) (plane : Plane) (cityInfo : List CityInfo) (city : City) :
    Option (List CityInfo) :=
  let score := getCityScore city.stock plane.stocks
  if score ≠ 0 then
    match insertScore cityInfo MAX_DESTINATIONS score with
    | some (cityInfo', index) => do
      let distance ← getDistance map city.id plane.cityId
      pure (cityInfo'.modify index ({ · with cityId := city.id, distance := distance }))
    | none => some cityInfo
  else some cityInfo

def cityInfoComparator (a b : CityInfo) : Int := a.distance - b.distance

/-- `qsort` of a `CityInfo` array with `cityInfoComparator`, which is consistent on distances that
are not negative. -/
structure Qsort where
  sort : List CityInfo → List CityInfo
  perm : ∀ cityInfo, (sort cityInfo).Perm cityInfo
  sorted : ∀ cityInfo, (∀ info ∈ cityInfo, 0 ≤ info.distance) →
    (sort cityInfo).Pairwise fun a b => cityInfoComparator a b ≤ 0

/-- One such function. -/
def Qsort.insertion : Qsort where
  sort := List.insertionSort fun a b => a.distance ≤ b.distance
  perm := List.perm_insertionSort _
  sorted cityInfo _ := by
    have : Std.Total (fun a b : CityInfo => a.distance ≤ b.distance) :=
      ⟨fun a b => Int.le_total a.distance b.distance⟩
    have : IsTrans CityInfo (fun a b => a.distance ≤ b.distance) := ⟨fun _ _ _ => Int.le_trans⟩
    refine (List.pairwise_insertionSort (fun a b : CityInfo => a.distance ≤ b.distance)
      cityInfo).imp fun hab => ?_
    unfold cityInfoComparator
    omega

/-- The candidates of `app_give_destinations`, sorted. -/
def candidates (qsort : Qsort) (map : Map) (plane : Plane) : Option (List CityInfo) :=
  (map.cities.foldlM (offerCity map plane) []).map qsort.sort

/-- `app_give_destinations`: the message it sends. -/
def appGiveDestinations (qsort : Qsort) (map : Map) (plane : Plane) : Option DestinationsMessage := do
  let cityInfo ← candidates qsort map plane
  marshallGiveDestinations plane.id (cityInfo.map (·.cityId)) (cityInfo.map (·.distance))

/-! ## What is offered -/

/-- The search ends on an entry whose score is smallest; `pre` has been searched. -/
theorem searchMin_spec (l : List CityInfo) :
    ∀ (pre : List CityInfo) (min : CityInfo) (minIndex : ℕ), pre[minIndex]? = some min →
      (∀ info ∈ pre, min.score ≤ info.score) →
        ∃ least, (pre ++ l)[searchMin l pre.length min.score minIndex]? = some least ∧
          ∀ info ∈ pre ++ l, least.score ≤ info.score := by
  induction l with
  | nil =>
    intro pre min minIndex hmin hle
    rw [List.append_nil]
    exact ⟨min, hmin, hle⟩
  | cons info rest ih =>
    intro pre min minIndex hmin hle
    have hlen : pre.length + 1 = (pre ++ [info]).length := by simp
    have happ : pre ++ info :: rest = (pre ++ [info]) ++ rest := by simp
    rw [searchMin, happ, hlen]
    split
    · refine ih (pre ++ [info]) info pre.length (by simp) fun x hx => ?_
      rcases List.mem_append.mp hx with hx | hx
      · have := hle x hx
        omega
      · rw [List.mem_singleton.mp hx]
    · refine ih (pre ++ [info]) min minIndex ?_ fun x hx => ?_
      · rw [List.getElem?_append_left (List.getElem?_eq_some_iff.mp hmin).1]
        exact hmin
      · rcases List.mem_append.mp hx with hx | hx
        · exact hle x hx
        · rw [List.mem_singleton.mp hx]
          omega

/-- The search from the start of the array. -/
theorem searchMin_least (info : CityInfo) (rest : List CityInfo) :
    ∃ least, (info :: rest)[searchMin (info :: rest) 0 info.score 0]? = some least ∧
      ∀ x ∈ info :: rest, least.score ≤ x.score := by
  rw [searchMin, if_neg (lt_irrefl _)]
  exact searchMin_spec rest [info] info 0 rfl (by simp)

/-- `insertScore` appends while there is room, and afterwards replaces an entry of smallest score,
which the new one has to beat. -/
theorem insertScore_cases {cityInfo cityInfo' : List CityInfo} {size index : ℕ} {score : Int}
    (h : insertScore cityInfo size score = some (cityInfo', index)) :
    (cityInfo.length < size ∧ index = cityInfo.length ∧
        cityInfo' = cityInfo ++ [{ cityId := 0, distance := 0, score := score }]) ∨
      (size ≤ cityInfo.length ∧ (∃ least, cityInfo[index]? = some least ∧ least.score < score ∧
          ∀ info ∈ cityInfo, least.score ≤ info.score) ∧
        cityInfo' = cityInfo.modify index ({ · with score := score })) := by
  unfold insertScore at h
  split at h
  · rename_i hlt
    cases h
    exact .inl ⟨hlt, rfl, rfl⟩
  · rename_i hge
    cases cityInfo with
    | nil => cases h
    | cons info rest =>
      obtain ⟨least, hleast, hle⟩ := searchMin_least info rest
      dsimp only at h
      rw [hleast, Option.getD_some] at h
      split at h
      · rename_i hgt
        cases h
        exact .inr ⟨by omega, ⟨least, hleast, hgt, hle⟩, rfl⟩
      · cases h

/-- What `insertScore` turns down scores no more than any entry. -/
theorem insertScore_none {cityInfo : List CityInfo} {size : ℕ} {score : Int}
    (h : insertScore cityInfo size score = none) :
    size ≤ cityInfo.length ∧ ∀ info ∈ cityInfo, score ≤ info.score := by
  unfold insertScore at h
  split at h
  · cases h
  · rename_i hge
    refine ⟨by omega, ?_⟩
    cases cityInfo with
    | nil => simp
    | cons info rest =>
      obtain ⟨least, hleast, hle⟩ := searchMin_least info rest
      dsimp only at h
      rw [hleast, Option.getD_some] at h
      split at h
      · cases h
      · rename_i hgt
        intro x hx
        have := hle x hx
        omega

/-- The entry a city that is taken gets. -/
def cityInfoOf (city : City) (distance score : Int) : CityInfo :=
  { cityId := city.id, distance := distance, score := score }

/-- One round leaves the array alone, appends the city, or puts it in the place of one that scores
less. -/
theorem offerCity_cases {map : Map} {plane : Plane} {cityInfo cityInfo' : List CityInfo}
    {city : City} (h : offerCity map plane cityInfo city = some cityInfo') :
    (getCityScore city.stock plane.stocks = 0 ∧ cityInfo' = cityInfo) ∨
      (getCityScore city.stock plane.stocks ≠ 0 ∧
        ((MAX_DESTINATIONS ≤ cityInfo.length ∧ cityInfo' = cityInfo ∧
            ∀ info ∈ cityInfo, getCityScore city.stock plane.stocks ≤ info.score) ∨
          ∃ distance, getDistance map city.id plane.cityId = some distance ∧
            ((cityInfo.length < MAX_DESTINATIONS ∧ cityInfo' = cityInfo ++
                [cityInfoOf city distance (getCityScore city.stock plane.stocks)]) ∨
              ∃ k least, cityInfo[k]? = some least ∧ MAX_DESTINATIONS ≤ cityInfo.length ∧
                least.score < getCityScore city.stock plane.stocks ∧
                (∀ info ∈ cityInfo, least.score ≤ info.score) ∧ cityInfo' = cityInfo.set k
                  (cityInfoOf city distance (getCityScore city.stock plane.stocks))))) := by
  unfold offerCity at h
  dsimp only at h
  by_cases hz : getCityScore city.stock plane.stocks = 0
  · rw [if_neg (by simpa using hz)] at h
    cases h
    exact .inl ⟨hz, rfl⟩
  · rw [if_pos hz] at h
    refine .inr ⟨hz, ?_⟩
    cases hins : insertScore cityInfo MAX_DESTINATIONS (getCityScore city.stock plane.stocks) with
    | none =>
      rw [hins] at h
      cases h
      obtain ⟨hge, hle⟩ := insertScore_none hins
      exact .inl ⟨hge, rfl, hle⟩
    | some res =>
      obtain ⟨cityInfo1, index⟩ := res
      rw [hins] at h
      simp only [Option.bind_eq_bind, Option.bind_eq_some_iff] at h
      obtain ⟨distance, hdist, h⟩ := h
      cases h
      refine .inr ⟨distance, hdist, ?_⟩
      rcases insertScore_cases hins with ⟨hlt, rfl, rfl⟩ | ⟨hge, ⟨least, hat, hlt, hle⟩, rfl⟩
      · refine .inl ⟨hlt, List.ext_getElem? fun i => ?_⟩
        grind [cityInfoOf]
      · refine .inr ⟨index, least, hat, hge, hlt, hle, List.ext_getElem? fun i => ?_⟩
        grind [cityInfoOf]

/-- `info` describes a city of the map with a score that is not zero. -/
def Offered (map : Map) (plane : Plane) (info : CityInfo) : Prop :=
  ∃ city ∈ map.cities, info.cityId = city.id ∧ getCityScore city.stock plane.stocks ≠ 0 ∧
    getDistance map city.id plane.cityId = some info.distance

theorem offerCity_spec {map : Map} {plane : Plane} {cityInfo cityInfo' : List CityInfo}
    {city : City} (h : offerCity map plane cityInfo city = some cityInfo')
    (hcity : city ∈ map.cities) (hoff : ∀ info ∈ cityInfo, Offered map plane info)
    (hlen : cityInfo.length ≤ MAX_DESTINATIONS) :
    (∀ info ∈ cityInfo', Offered map plane info) ∧ cityInfo'.length ≤ MAX_DESTINATIONS ∧
      (cityInfo' = [] ↔ cityInfo = [] ∧ getCityScore city.stock plane.stocks = 0) := by
  have hfull : MAX_DESTINATIONS ≤ cityInfo.length → cityInfo ≠ [] := by
    rintro hle rfl
    exact absurd hle (by decide)
  rcases offerCity_cases h with ⟨hz, rfl⟩ | ⟨hnz, ⟨hge, rfl, -⟩ | ⟨distance, hdist, hput⟩⟩
  · exact ⟨hoff, hlen, by simp [hz]⟩
  · exact ⟨hoff, hlen, by simp [hnz, hfull hge]⟩
  · have hnew : Offered map plane
        (cityInfoOf city distance (getCityScore city.stock plane.stocks)) :=
      ⟨city, hcity, rfl, hnz, hdist⟩
    rcases hput with ⟨hlt, rfl⟩ | ⟨k, least, -, hge, -, -, rfl⟩
    · refine ⟨fun info hi => ?_, by simp; omega, by simp [hnz]⟩
      rcases List.mem_append.mp hi with hi | hi
      · exact hoff info hi
      · rw [List.mem_singleton.mp hi]; exact hnew
    · refine ⟨fun info hi => ?_, by simpa using hlen, by simp [hnz, hfull hge]⟩
      rcases List.mem_or_eq_of_mem_set hi with hi | rfl
      · exact hoff info hi
      · exact hnew

/-- The candidate loop, from any array of offered cities. -/
theorem foldlM_offerCity {map : Map} {plane : Plane} :
    ∀ {cities : List City} {cityInfo cityInfo' : List CityInfo},
      cities.foldlM (offerCity map plane) cityInfo = some cityInfo' →
      (∀ city ∈ cities, city ∈ map.cities) → (∀ info ∈ cityInfo, Offered map plane info) →
      cityInfo.length ≤ MAX_DESTINATIONS →
        (∀ info ∈ cityInfo', Offered map plane info) ∧ cityInfo'.length ≤ MAX_DESTINATIONS ∧
          (cityInfo' = [] ↔
            cityInfo = [] ∧ ∀ city ∈ cities, getCityScore city.stock plane.stocks = 0) := by
  intro cities
  induction cities with
  | nil =>
    intro cityInfo cityInfo' h _ hoff hlen
    cases h
    exact ⟨hoff, hlen, by simp⟩
  | cons city rest ih =>
    intro cityInfo cityInfo' h hcities hoff hlen
    rw [List.foldlM_cons] at h
    obtain ⟨cityInfo1, hstep, hrest⟩ := Option.bind_eq_some_iff.mp h
    obtain ⟨hoff1, hlen1, hnil1⟩ := offerCity_spec hstep (hcities city (by simp)) hoff hlen
    obtain ⟨hoff', hlen', hnil'⟩ := ih hrest (fun c hc => hcities c (by simp [hc])) hoff1 hlen1
    refine ⟨hoff', hlen', ?_⟩
    rw [hnil', hnil1, and_assoc, List.forall_mem_cons]

/-- **The offer.** At most ten cities, each with a score and its distance; none exactly when no
city scores. -/
theorem candidates_spec {qsort : Qsort} {map : Map} {plane : Plane} {cityInfo : List CityInfo}
    (h : candidates qsort map plane = some cityInfo) :
    (∀ info ∈ cityInfo, Offered map plane info) ∧ cityInfo.length ≤ MAX_DESTINATIONS ∧
      (cityInfo = [] ↔ ∀ city ∈ map.cities, getCityScore city.stock plane.stocks = 0) := by
  unfold candidates at h
  obtain ⟨unsorted, hfold, rfl⟩ := Option.map_eq_some_iff.mp h
  obtain ⟨hoff, hlen, hnil⟩ := foldlM_offerCity hfold (fun _ hc => hc) (by simp) (by simp)
  have hperm := qsort.perm unsorted
  refine ⟨fun info hi => hoff info (hperm.mem_iff.mp hi), by rw [hperm.length_eq]; exact hlen, ?_⟩
  rw [← List.length_eq_zero_iff, hperm.length_eq, List.length_eq_zero_iff, hnil]
  simp

theorem exists_foldlM_offerCity {map : Map} {plane : Plane} (cities : List City)
    (hdist : ∀ city ∈ cities, ∃ d, getDistance map city.id plane.cityId = some d) :
    ∀ cityInfo, ∃ cityInfo', cities.foldlM (offerCity map plane) cityInfo = some cityInfo' := by
  induction cities with
  | nil => exact fun cityInfo => ⟨cityInfo, rfl⟩
  | cons city rest ih =>
    intro cityInfo
    obtain ⟨d, hd⟩ := hdist city (by simp)
    obtain ⟨cityInfo1, h1⟩ : ∃ cityInfo1, offerCity map plane cityInfo city = some cityInfo1 := by
      unfold offerCity
      dsimp only
      split
      · split
        · exact ⟨_, by rw [hd]; rfl⟩
        · exact ⟨_, rfl⟩
      · exact ⟨_, rfl⟩
    obtain ⟨cityInfo', h'⟩ := ih (fun c hc => hdist c (by simp [hc])) cityInfo1
    exact ⟨cityInfo', by rw [List.foldlM_cons, h1]; exact h'⟩

theorem exists_candidates {qsort : Qsort} {map : Map} {plane : Plane}
    (hdist : ∀ city ∈ map.cities, ∃ d, getDistance map city.id plane.cityId = some d) :
    ∃ cityInfo, candidates qsort map plane = some cityInfo := by
  obtain ⟨cityInfo, h⟩ := exists_foldlM_offerCity map.cities hdist []
  exact ⟨_, by rw [candidates, h]; rfl⟩

end PlaneSim
