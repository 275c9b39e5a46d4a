import PlaneSim.Receive
import PlaneSim.Termination
import Mathlib.Algebra.BigOperators.Fin

/-!
# How many messages are under way

Every plane has one message under way at the most, and an airline that reports has no other. So the
inboxes are bounded by the number of planes (`inFlight_le`), and a transport that holds that many
messages never makes a sender wait: the runs are those of inboxes without a limit
(`run_capacity_iff`).
-/

namespace PlaneSim

open Lts Update

/-! ## Counting -/

/-- Two lists whose entries belong to different ones of `n` owners. -/
theorem length_add_length_le {α β : Type*} {n : ℕ} {f : α → ℕ} {g : β → ℕ} {l : List α}
    {m : List β} (hl : ∀ x ∈ l, f x < n) (hm : ∀ y ∈ m, g y < n)
    (h : ∀ i < n, l.countP (f · = i) + m.countP (g · = i) ≤ 1) : l.length + m.length ≤ n := by
  have h1 := sum_countP_fiber f (fun _ => true) hl
  have h2 := sum_countP_fiber g (fun _ => true) hm
  simp only [Bool.and_true, List.countP_true] at h1 h2
  rw [← h1, ← h2, ← Finset.sum_add_distrib]
  refine (Finset.sum_le_sum fun i hi => h i (Finset.mem_range.mp hi)).trans ?_
  simp

/-- The entries of a list by their owner. -/
theorem length_eq_sum {α : Type*} {n : ℕ} {l : List (ℕ × α)} (h : ∀ x ∈ l, x.1 < n) :
    l.length = ∑ a ∈ Finset.range n,
      (l.filterMap fun x => if x.1 = a then some x.2 else none).length := by
  have hsum := sum_countP_fiber (fun x : ℕ × α => x.1) (fun _ => true) h
  simp only [Bool.and_true, List.countP_true] at hsum
  rw [← hsum]
  refine Finset.sum_congr rfl fun a _ => ?_
  rw [List.length_filterMap_eq_countP]
  refine List.countP_congr fun x _ => ?_
  by_cases hx : x.1 = a <;> simp [hx]

/-! ## One airline -/

section Airline

variable {a : ℕ} {ph : Phase} {st : Status} {A : AirlineState} {ts : List TurnPlane}
  {out : List PlaneMessage} {pend : List MapMessage}

/-- A plane has a request or a reply under way, not both and not two. -/
theorem PlaneOk.underway_le {ending : Bool} {P : PlaneThread} {t : TurnPlane}
    {rq : List PlaneMessage} {rp : List Message} (h : PlaneOk a ph ending P t rq rp) :
    rq.length + rp.length ≤ 1 := by
  by_cases hasked : ∃ w, P.pc.station = .asked w
  · obtain ⟨w, hw⟩ := hasked
    have hs := h.station
    rw [hw] at hs
    cases hs.2.2 with
    | request msg _ _ _ _ _ hrq hrp =>
      rw [hrq, (List.append_eq_nil_iff.mp hrp).1]
      exact le_rfl
    | reply msg _ _ hrq hrp =>
      have hlen := congrArg List.length hrp
      rw [List.length_append, List.length_singleton] at hlen
      rw [hrq, List.length_nil]
      omega
  · obtain ⟨hrq, hrp, -⟩ := h.idle fun w hw => hasked ⟨w, hw⟩
    rw [hrq, hrp]
    exact Nat.zero_le 1

theorem length_requestsOf {out : List PlaneMessage}
    (hown : ∀ msg ∈ out, ∃ p < A.planes.length, msg.owner = some ((p : ℕ) : Int)) (p : ℕ) :
    out.countP (fun msg => (msg.owner.getD 0).toNat = p) = (requestsOf p out).length := by
  unfold requestsOf
  rw [← List.countP_eq_length_filter]
  refine List.countP_congr fun msg hmsg => ?_
  obtain ⟨q, -, hq⟩ := hown msg hmsg
  simp [hq]

theorem length_repliesTo {carried : List (Int × Message)}
    (hown : ∀ x ∈ carried, ∃ p < A.planes.length, x.1 = ((p : ℕ) : Int)) (p : ℕ) :
    carried.countP (fun x => x.1.toNat = p) = (repliesTo p carried).length := by
  unfold repliesTo
  rw [List.length_filterMap_eq_countP]
  refine List.countP_congr fun x hx => ?_
  obtain ⟨q, -, hq⟩ := hown x hx
  by_cases hqp : q = p <;> simp [hq, hqp]

/-- The messages that an airline has under way, in both directions. -/
theorem AirlineOk.underway_le (h : AirlineOk a ph st A ts out pend) :
    out.length + A.inbox.length + pend.length ≤ max 1 A.planes.length := by
  rcases h.listener_cases with ⟨-, -, hown, -⟩ | ⟨-, -, hinbox, hout, hpend, -⟩ | ⟨-, -, hquiet⟩
  · have hsum : out.length + (A.carried pend).length ≤ A.planes.length := by
      refine length_add_length_le (f := fun msg => (msg.owner.getD 0).toNat)
        (g := fun x => x.1.toNat) (fun msg hmsg => ?_) (fun x hx => ?_) fun p hp => ?_
      · obtain ⟨p, hp, howner⟩ := hown.out msg hmsg
        simpa [howner] using hp
      · obtain ⟨p, hp, hid⟩ := hown.carried x hx
        simpa [hid] using hp
      · have hP := List.getElem?_eq_getElem hp
        obtain ⟨t, ht⟩ := h.exists_abstract hP
        rw [length_requestsOf hown.out, length_repliesTo hown.carried]
        exact (h.planeOk hP ht).underway_le
    have hredirect : ((A.inbox ++ pend).filterMap redirect).length = (A.inbox ++ pend).length := by
      rw [List.length_filterMap_eq_countP, List.countP_eq_length]
      intro msg hmsg
      obtain ⟨x, hx⟩ := hown.reply msg hmsg
      rw [hx]
      rfl
    rw [AirlineState.carried, List.length_append, hredirect, List.length_append] at hsum
    omega
  · rw [hout, hinbox, hpend]
    exact Nat.zero_le _
  · have hpend := hquiet.pend
    have hinbox := hquiet.inbox
    have hout := hquiet.out
    rw [hpend, hinbox]
    split at hout
    · rename_i hst
      obtain ⟨msg, hmsg, -⟩ := hout
      rw [hmsg, hst]
      exact Nat.le_max_left _ _
    · rw [hout]
      cases st <;> simp [Status.inbox]

end Airline

/-! ## The system -/

/-- One message for each plane, or one for the airline. -/
def inboxBound (airlines : List Airline) : ℕ :=
  (airlines.map fun airline => max 1 airline.planes.length).sum

section System

variable {cfg : Config} {map : Map} {airlines : List Airline} {s s' : System} {tr es : List Event}
  {T : Turn} {sts : List Status} {a p : ℕ} {A : AirlineState}

theorem Sim.underway_le (h : Sim s T sts) (hA : s.airlines[a]? = some A) :
    (s.out a).length + A.inbox.length + (s.pc.pend a).length ≤ max 1 A.planes.length := by
  obtain ⟨ts, st, hat⟩ := h.exists_at_of_system hA
  exact (h.airline a A ts st hat).underway_le

theorem Sim.inbox_le (h : Sim s T sts) : s.inbox.length ≤ (s.sizes.map (max 1)).sum := by
  have hlen : s.sizes.length = s.airlines.length := List.length_map _
  rw [length_eq_sum h.inbox, ← hlen, Finset.sum_range, ← Fin.sum_univ_fun_getElem]
  refine Finset.sum_le_sum fun i _ => ?_
  have hi : i.1 < s.airlines.length := by
    rw [← hlen]
    exact i.2
  have hle := h.underway_le (List.getElem?_eq_getElem hi)
  have hsize : s.sizes[i.1] = s.airlines[i.1].planes.length := List.getElem_map _
  rw [hsize]
  exact (Nat.le_add_right _ _).trans ((Nat.le_add_right _ _).trans hle)

theorem inboxBound_eq (map : Map) (airlines : List Airline) :
    ((System.init map airlines).sizes.map (max 1)).sum = inboxBound airlines := by
  rw [sizes_init, inboxBound, List.map_map]
  rfl

/-- **Bounded inboxes.** In every state the inbox of the map holds no more messages than there are
planes, an airline without planes counting for one; and an airline has no more under way, to the
map and back, than it has planes. -/
theorem inFlight_le (h : Setup map airlines) (hlist : Listing map)
    (hrun : Run (reliableStep cfg) (System.init map airlines) tr s) :
    s.inbox.length ≤ inboxBound airlines ∧
      ∀ a A, s.airlines[a]? = some A →
        (s.out a).length + A.inbox.length + (s.pc.pend a).length ≤ max 1 A.planes.length := by
  obtain ⟨T, sts, -, hsim⟩ := sim_run h hrun (not_crashed h hlist hrun)
  refine ⟨?_, fun a A hA => hsim.underway_le hA⟩
  rw [← inboxBound_eq map airlines, ← sizes_run hrun]
  exact hsim.inbox_le

theorem inFlight_le_trio :
    ∃ tr s, Run (reliableStep someConfig) (System.init trioMap trioAirlines) tr s ∧
      s.inbox.length = 1 ∧ s.inbox.length ≤ inboxBound trioAirlines := by
  obtain ⟨tr, s, hexec, hinbox⟩ : ∃ tr s,
      exec (reliableStep someConfig) (System.init trioMap trioAirlines) toUnload = some (tr, s) ∧
        s.inbox.length = 1 :=
    ⟨_, _, rfl, rfl⟩
  have hrun := run_of_exec hexec
  exact ⟨tr, s, hrun, hinbox, (inFlight_le setup_trio listing_trio hrun).1⟩

/-! ## Room enough -/

/-- Another room makes no difference to a step that sends nothing or finds it. -/
theorem reportStep_room {room room' : Bool} {thread : Thread} {pc : ReportPc} {r : ReportStep}
    (h : reportStep a room A thread pc = some r) (hroom : r.sent ≠ none → room' = true) :
    reportStep a room' A thread pc = some r := by
  cases pc with
  | send msg =>
    simp only [reportStep] at h ⊢
    split at h <;> cases h
    rw [hroom (by simp), if_pos rfl]
  | stage | count _ _ | lockConn _ | unlockConn => exact h

theorem planeStep_room {room room' : Bool} {r : AirlineStep} (h : planeStep a room A p = some r)
    (hroom : r.2.2 ≠ none → room' = true) : planeStep a room' A p = some r := by
  unfold planeStep at h ⊢
  obtain ⟨P, hP, h⟩ := Option.bind_eq_some_iff.mp h
  refine Option.bind_eq_some_iff.mpr ⟨P, hP, ?_⟩
  cases hpc : P.pc with
  | send phase =>
    simp only [hpc] at h ⊢
    split at h
    · exact h
    · split at h <;> cases h
      rw [hroom (by simp), if_pos rfl]
  | report phase pc =>
    simp only [hpc] at h ⊢
    obtain ⟨r, hreport, rfl⟩ := Option.map_eq_some_iff.mp h
    rw [reportStep_room hreport hroom]
    rfl
  | top | safe _ | lockConn _ | unlockConn _ | reply _ | cont | lockLeft _ | dec _ | unlockLeft _
  | exited =>
    simp only [hpc] at h ⊢
    exact h

theorem listenStep_room {room room' : Bool} {r : AirlineStep} (h : listenStep a room A = some r)
    (hroom : r.2.2 ≠ none → room' = true) : listenStep a room' A = some r := by
  unfold listenStep at h ⊢
  cases hpc : A.pc with
  | report pc =>
    simp only [hpc] at h ⊢
    obtain ⟨r, hreport, rfl⟩ := Option.map_eq_some_iff.mp h
    rw [reportStep_room hreport hroom]
    rfl
  | recv | lockLeft _ | scan _ _ | bcast _ _ | unlockLeft | push _ _ | finish _ | join _
  | stopped =>
    simp only [hpc] at h ⊢
    exact h

/-- Every message that the step adds to an inbox has room there under `cfg`. -/
structure WithinCapacity (cfg : Config) (s s' : System) : Prop where
  map : s'.inbox.length = s.inbox.length + 1 → cfg.room s.inbox.length = true
  airline : ∀ (a : ℕ) (A A' : AirlineState), s.airlines[a]? = some A → s'.airlines[a]? = some A' →
    A'.inbox.length = A.inbox.length + 1 → cfg.room A.inbox.length = true

variable {cfg' : Config}

theorem deliver_room {msg : MapMessage} (h : s.deliver cfg a msg = some s')
    (hfits : WithinCapacity cfg' s s') :
    s.deliver cfg' a msg = some s' := by
  obtain ⟨A, hA, h⟩ := Option.bind_eq_some_iff.mp h
  refine Option.bind_eq_some_iff.mpr ⟨A, hA, ?_⟩
  split at h <;> cases h
  have hlt := (List.getElem?_eq_some_iff.mp hA).1
  rw [hfits.airline a A { A with inbox := A.inbox ++ [msg] } hA (List.getElem?_set_self hlt)
    (by simp), if_pos rfl]

theorem act_room (hqsort : cfg'.qsort = cfg.qsort) (phase : Phase) (i : ℕ) (msg : PlaneMessage) :
    act cfg' s phase i msg = act cfg s phase i msg := by
  unfold act
  rw [hqsort]

theorem WithinCapacity.pc {pc : MapPc} (h : WithinCapacity cfg s { s' with pc := pc }) :
    WithinCapacity cfg s s' :=
  ⟨h.map, h.airline⟩

theorem mapStep_room (hqsort : cfg'.qsort = cfg.qsort) (h : mapStep cfg s = some (es, s'))
    (hfits : WithinCapacity cfg' s s') : mapStep cfg' s = some (es, s') := by
  unfold mapStep at h ⊢
  cases hpc : s.pc with
  | send phase i | finish i =>
    simp only [hpc] at h ⊢
    split at h
    · rename_i hi
      rw [if_pos hi]
      obtain ⟨s1, hs1, h⟩ := Option.map_eq_some_iff.mp h
      cases h
      rw [deliver_room hs1 hfits.pc]
      rfl
    · rename_i hi
      rw [if_neg hi]
      exact h
  | recv phase i =>
    simp only [hpc, act_room hqsort] at h ⊢
    exact h
  | reply phase i airline msg =>
    simp only [hpc] at h ⊢
    split at h
    · obtain ⟨s1, hs1, h⟩ := Option.map_eq_some_iff.mp h
      cases h
      rw [deliver_room hs1 hfits.pc]
      rfl
    · exact h
  | head | halted | crashed =>
    simp only [hpc] at h ⊢
    exact h

/-- A step stays one where the messages fit. -/
theorem reliableStep_room {action : Action} (h : reliableStep cfg s action = some (es, s'))
    (hfits : WithinCapacity cfg' s s') (hqsort : cfg'.qsort = cfg.qsort) :
    reliableStep cfg' s action = some (es, s') := by
  obtain ⟨hstep, -⟩ := step_of_reliable h
  have hsent : ∀ {a : ℕ} {r : AirlineStep}, s.update a r = (es, s') → r.2.2 ≠ none →
      cfg'.room s.inbox.length = true := by
    intro a r hr hne
    obtain ⟨msg, hmsg⟩ := Option.ne_none_iff_exists'.mp hne
    refine hfits.map ?_
    rw [← (Prod.mk.inj hr).2]
    simp [hmsg]
  unfold reliableStep at h ⊢
  split at h
  swap
  · cases h
  rename_i hreliable
  rw [if_pos hreliable]
  cases action with
  | map => exact mapStep_room hqsort hstep hfits
  | listener a =>
    obtain ⟨A, hA, hstep⟩ := Option.bind_eq_some_iff.mp hstep
    obtain ⟨r, hr, hs⟩ := Option.map_eq_some_iff.mp hstep
    refine Option.bind_eq_some_iff.mpr ⟨A, hA, ?_⟩
    exact Option.map_eq_some_iff.mpr ⟨r, listenStep_room hr (hsent hs), hs⟩
  | plane a p =>
    obtain ⟨A, hA, hstep⟩ := Option.bind_eq_some_iff.mp hstep
    obtain ⟨r, hr, hs⟩ := Option.map_eq_some_iff.mp hstep
    refine Option.bind_eq_some_iff.mpr ⟨A, hA, ?_⟩
    exact Option.map_eq_some_iff.mpr ⟨r, planeStep_room hr (hsent hs), hs⟩
  | exit => exact hstep
  | mapFail | listenerFail _ => cases hreliable

/-- Without a limit everything fits. -/
theorem withinCapacity_unlimited : WithinCapacity { cfg with capacity := none } s s' :=
  ⟨fun _ => rfl, fun _ _ _ _ _ _ => rfl⟩

theorem Config.room_of_lt {n bound : ℕ} (hcap : ∀ capacity, cfg.capacity = some capacity →
    bound ≤ capacity) (hn : n + 1 ≤ bound) : cfg.room n = true := by
  unfold Config.room
  cases h : cfg.capacity with
  | none => rfl
  | some capacity =>
    have := hcap capacity h
    exact decide_eq_true (by omega)

theorem max_le_inboxBound (hsizes : s.sizes = (System.init map airlines).sizes)
    (hA : s.airlines[a]? = some A) : max 1 A.planes.length ≤ inboxBound airlines := by
  rw [← inboxBound_eq map airlines, ← hsizes]
  have hmem : A.planes.length ∈ s.sizes :=
    List.mem_map_of_mem (f := fun A : AirlineState => A.planes.length) (List.mem_of_getElem? hA)
  exact List.single_le_sum (fun _ _ => Nat.zero_le _) _ (List.mem_map_of_mem hmem)

/-- **Nobody waits for room.** A transport that holds `inboxBound` messages in each direction has
the same runs as one without a limit. -/
theorem run_capacity_iff (h : Setup map airlines) (hlist : Listing map)
    (hcap : ∀ capacity, cfg.capacity = some capacity → inboxBound airlines ≤ capacity) :
    Run (reliableStep cfg) (System.init map airlines) tr s ↔
      Run (reliableStep { cfg with capacity := none }) (System.init map airlines) tr s := by
  constructor
  · intro hrun
    induction hrun with
    | refl => exact .refl
    | step _ last ih => exact ih.step (reliableStep_room last withinCapacity_unlimited rfl)
  · intro hrun
    induction hrun with
    | refl => exact .refl
    | @step tr es s1 s2 action run last ih =>
      refine ih.step (reliableStep_room last ?_ rfl)
      obtain ⟨T, sts, -, hsim⟩ := sim_run h (run.step last) (not_crashed h hlist (run.step last))
      have hsizes := sizes_run (run.step last)
      refine ⟨fun hlen => ?_, fun a A A' hA hA' hlen => ?_⟩
      · refine Config.room_of_lt hcap ?_
        rw [← hlen, ← inboxBound_eq map airlines, ← hsizes]
        exact hsim.inbox_le
      · refine Config.room_of_lt hcap ?_
        have hle := hsim.underway_le hA'
        have hmax := max_le_inboxBound hsizes hA'
        omega

theorem run_capacity_iff_trio :
    ∃ tr s, Run (reliableStep someConfig) (System.init trioMap trioAirlines) tr s ∧
      s.inbox.length = 1 ∧ Run (reliableStep tightConfig) (System.init trioMap trioAirlines) tr s := by
  obtain ⟨tr, s, hexec, hinbox⟩ : ∃ tr s,
      exec (reliableStep someConfig) (System.init trioMap trioAirlines) toUnload = some (tr, s) ∧
        s.inbox.length = 1 :=
    ⟨_, _, rfl, rfl⟩
  have hrun := run_of_exec hexec
  exact ⟨tr, s, hrun, hinbox, (run_capacity_iff setup_trio listing_trio
    (by rintro capacity ⟨⟩; decide)).mpr hrun⟩

end System

end PlaneSim
