import PlaneSim.Reporting
import PlaneSim.Termination

/-!
# The reports reach the map

1. The statuses that `runMap` has received, and those still in its inbox, are those the airlines
   have reported, in order (`flow_run`).
2. At the end of a turn it has received one from each airline for every turn (`takes_of_counted`).
-/

namespace PlaneSim

open Lts

def PlaneMessage.status? : PlaneMessage → Option AirlineStatus
  | .airlineStatus status => some status
  | _ => none

/-- The statuses that airline `a` has reported. -/
def statuses (a : ℕ) (tr : List Event) : List AirlineStatus :=
  tr.filterMap fun
    | .sent b msg _ => if b = a then msg.status? else none
    | _ => none

/-- The statuses that `runMap` has received. -/
def takes (tr : List Event) : List AirlineStatus :=
  tr.filterMap fun
    | .receive _ (some msg) _ => msg.status?
    | _ => none

section Flow

variable {cfg : Config} {map : Map} {airlines : List Airline} {s s' : System} {tr es : List Event}
  {a : ℕ}

theorem statuses_append (a : ℕ) (tr es : List Event) :
    statuses a (tr ++ es) = statuses a tr ++ statuses a es := List.filterMap_append

theorem takes_append (tr es : List Event) : takes (tr ++ es) = takes tr ++ takes es :=
  List.filterMap_append

theorem mem_statuses {status : AirlineStatus} (h : status ∈ statuses a tr) :
    ∃ flags, .sent a (.airlineStatus status) flags ∈ tr := by
  obtain ⟨e, he, hst⟩ := List.mem_filterMap.mp h
  split at hst
  · rename_i b msg flags
    split_ifs at hst with hb
    cases msg <;> cases hst
    exact ⟨flags, hb ▸ he⟩
  · cases hst

/-- A report tells the airline it is from. -/
theorem Reported.id {status : AirlineStatus} (h : Reported tr) (hst : status ∈ statuses a tr) :
    status.id = a := by
  obtain ⟨flags, hsent⟩ := mem_statuses hst
  obtain ⟨before, after, htr⟩ := List.append_of_mem hsent
  obtain ⟨hmsg, -⟩ := h before _ after htr a _ flags .two rfl rfl
  cases hmsg
  rfl

/-- The statuses in the inbox of the map are the reports it has not received. -/
def Flow (tr : List Event) (s : System) : Prop :=
  ∀ a : ℕ, statuses a tr =
    ((takes tr).filter fun status => status.id = (a : Int)) ++ (s.out a).filterMap PlaneMessage.status?

theorem statuses_eq_nil (h : ∀ e ∈ es, e.isOf a = false) : statuses a es = [] := by
  refine List.filterMap_eq_nil_iff.mpr fun e he => ?_
  split
  · rename_i b msg flags
    have hof := h _ he
    simp only [Event.isOf, decide_eq_false_iff_not] at hof
    rw [if_neg hof]
  · rfl

theorem statuses_sent (a b : ℕ) (msg : PlaneMessage) (flags : List Bool) :
    statuses a [.sent b msg flags] = if b = a then msg.status?.toList else [] := by
  by_cases hb : b = a
  · subst hb
    cases hmsg : msg.status? <;> simp [statuses, hmsg]
  · simp [statuses, hb]

theorem takes_eq_nil (h : ∀ e ∈ es, ∀ ph got acted, e ≠ .receive ph got acted) : takes es = [] := by
  refine List.filterMap_eq_nil_iff.mpr fun e he => ?_
  split
  · exact absurd rfl (h _ he _ _ _)
  · rfl

theorem takes_act {phase : Phase} {i : ℕ} {msg : PlaneMessage} :
    takes (act cfg s phase i msg).1 = [] := by
  refine takes_eq_nil fun e he ph got acted heq => ?_
  rcases events_act rfl he with rfl | ⟨_, _, _, _, rfl⟩ <;> cases heq

theorem takes_receive {phase : Phase} {i : ℕ} (msg : PlaneMessage) :
    takes (.receive phase (some msg) (some msg) :: (act cfg s phase i msg).1) =
      msg.status?.toList := by
  rw [← List.singleton_append, takes_append, takes_act, List.append_nil]
  cases hx : msg.status? <;> simp [takes, hx]

theorem Emission.takes {A : AirlineState} {b : ℕ} {r : AirlineStep} (h : Emission b A r) :
    PlaneSim.takes r.1 = [] := by
  cases h with
  | silent _ | sent _ _ => rfl
  | other A' e _ hreceive =>
    refine takes_eq_nil fun f hf => ?_
    obtain rfl := List.mem_singleton.mp hf
    exact hreceive

/-- A message from airline `b` enters the inbox of the map. -/
theorem Flow.update {A : AirlineState} {b : ℕ} {r : AirlineStep} (h : Flow tr s)
    (hr : Emission b A r) : Flow (tr ++ (s.update b r).1) (s.update b r).2 := by
  intro a
  have htakes := hr.takes
  rw [statuses_append, takes_append, h a]
  cases hr with
  | silent _ => simp [System.update, System.out, statuses, takes]
  | sent A' msg =>
    have htake : takes [.sent b msg A.done] = [] := rfl
    show _ ++ statuses a [.sent b msg A.done] = (takes tr ++ takes [.sent b msg A.done]).filter _ ++
      (List.filterMap _ (s.inbox ++ [(b, msg)])).filterMap _
    rw [statuses_sent, htake, List.append_nil, List.filterMap_append, List.filterMap_append,
      List.append_assoc]
    by_cases hb : b = a
    · cases hmsg : msg.status? <;> simp [System.out, hb, hmsg]
    · simp [System.out, hb]
  | other A' e hsent hreceive =>
    have hst : statuses a [e] = [] := by
      refine List.filterMap_eq_nil_iff.mpr fun f hf => ?_
      obtain rfl := List.mem_singleton.mp hf
      split
      · exact absurd rfl (hsent _ _ _)
      · rfl
    simp [System.update, System.out, hst, htakes]

/-- The map takes the first message of its inbox. -/
theorem Flow.receive {phase : Phase} {i : ℕ} {x : ℕ × PlaneMessage} {inbox : List (ℕ × PlaneMessage)}
    (h : Flow tr s) (hinbox : s.inbox = x :: inbox)
    (hid : ∀ status, x.2.status? = some status → status.id = (x.1 : Int)) :
    Flow (tr ++ .receive phase (some x.2) (some x.2) ::
        (act cfg { s with inbox := inbox, msg := some x.2 } phase i x.2).1)
      (act cfg { s with inbox := inbox, msg := some x.2 } phase i x.2).2 := by
  intro a
  obtain ⟨-, hrest, -⟩ := act_frame cfg { s with inbox := inbox, msg := some x.2 } phase i x.2
  have hsent : statuses a (.receive phase (some x.2) (some x.2) ::
      (act cfg { s with inbox := inbox, msg := some x.2 } phase i x.2).1) = [] := by
    refine statuses_eq_nil fun e he => ?_
    rcases List.mem_cons.mp he with rfl | he
    · rfl
    · exact isOf_act rfl he
  have hout : s.out a = (if x.1 = a then [x.2] else []) ++
      (act cfg { s with inbox := inbox, msg := some x.2 } phase i x.2).2.out a := by
    unfold System.out
    rw [hrest, hinbox, List.filterMap_cons]
    by_cases ha : x.1 = a <;> simp [ha]
  rw [statuses_append, hsent, List.append_nil, takes_append, takes_receive, h a, hout,
    List.filter_append, List.filterMap_append, List.append_assoc]
  congr 2
  cases hx : x.2.status? with
  | none => by_cases ha : x.1 = a <;> simp [ha, hx]
  | some status =>
    have := hid status hx
    by_cases ha : x.1 = a
    · simp [ha, hx, this]
    · simp [ha, this]

/-- A status at the head of the inbox was reported by its sender. -/
theorem Flow.mem {x : ℕ × PlaneMessage} {inbox : List (ℕ × PlaneMessage)} {status : AirlineStatus}
    (h : Flow tr s) (hinbox : s.inbox = x :: inbox) (hst : x.2.status? = some status) :
    status ∈ statuses x.1 tr := by
  rw [h x.1]
  refine List.mem_append_right _ (List.mem_filterMap.mpr ⟨x.2, ?_, hst⟩)
  exact List.mem_filterMap.mpr ⟨x, by rw [hinbox]; exact List.mem_cons_self, if_pos rfl⟩

theorem Flow.quiet (h : Flow tr s) (hst : ∀ a, statuses a es = []) (htake : takes es = [])
    (hinbox : s'.inbox = s.inbox) : Flow (tr ++ es) s' := by
  intro a
  rw [statuses_append, hst, List.append_nil, takes_append, htake, List.append_nil, System.out,
    hinbox]
  exact h a

theorem flow_step {action : Action} (h : Flow tr s) (hreported : Reported tr)
    (hstep : reliableStep cfg s action = some (es, s')) : Flow (tr ++ es) s' := by
  unfold reliableStep at hstep
  split at hstep
  swap
  · cases hstep
  cases action with
  | map =>
    cases mapMove_of_mapStep hstep with
    | receive hpc hinbox =>
      rename_i phase i x inbox
      exact h.receive hinbox fun status hst => hreported.id (h.mem hinbox hst)
    | lost hpc => exact h.quiet (fun _ => rfl) rfl rfl
    | turn _ | leave _ | start _ _ | listen _ _ | next _ | reply _ _ | finish _ _ | halt _ =>
      exact h.quiet (fun _ => rfl) rfl rfl
  | listener b =>
    obtain ⟨A, -, hstep⟩ := Option.bind_eq_some_iff.mp hstep
    obtain ⟨r, hr, hnew⟩ := Option.map_eq_some_iff.mp hstep
    have := h.update (emission_listenStep hr)
    rwa [hnew] at this
  | plane b p =>
    obtain ⟨A, -, hstep⟩ := Option.bind_eq_some_iff.mp hstep
    obtain ⟨r, hr, hnew⟩ := Option.map_eq_some_iff.mp hstep
    have := h.update (emission_planeStep hr)
    rwa [hnew] at this
  | exit =>
    cases hstep
    exact h.quiet (fun _ => rfl) rfl rfl
  | mapFail | listenerFail b =>
    rename_i hrel
    cases hrel

/-- **No report is lost, repeated or overtaken.** -/
theorem flow_run (h : Setup map airlines) (hlist : Listing map)
    (hrun : Run (reliableStep cfg) (System.init map airlines) tr s) : Flow tr s := by
  induction hrun with
  | refl => exact fun a => rfl
  | step run last ih =>
    obtain ⟨T, sts, -, -, hchronicle, -⟩ := chronicle_run h hlist run
    exact flow_step ih hchronicle.reported last

/-- Only the map receives, and the status comes from an airline of the system. -/
theorem takes_step {action : Action} {T : Turn} {sts : List Status} (h : Flow tr s)
    (hreported : Reported tr) (hsim : Sim s T sts)
    (hstep : reliableStep cfg s action = some (es, s')) :
    ∀ status ∈ takes es, action = .map ∧ ∃ a < s.airlines.length, status.id = (a : Int) := by
  have hnone : takes es = [] →
      ∀ status ∈ takes es, action = .map ∧ ∃ a < s.airlines.length, status.id = (a : Int) := by
    rintro hnil status hst
    rw [hnil] at hst
    cases hst
  unfold reliableStep at hstep
  split at hstep
  swap
  · cases hstep
  cases action with
  | map =>
    cases mapMove_of_mapStep hstep with
    | receive hpc hinbox =>
      rename_i phase i x inbox
      intro status hst
      rw [takes_receive, Option.mem_toList] at hst
      exact ⟨rfl, x.1, hsim.inbox x (by rw [hinbox]; exact List.mem_cons_self),
        hreported.id (h.mem hinbox hst)⟩
    | lost _ | turn _ | leave _ | start _ _ | listen _ _ | next _ | reply _ _ | finish _ _
    | halt _ => exact hnone rfl
  | listener b =>
    obtain ⟨A, -, hstep⟩ := Option.bind_eq_some_iff.mp hstep
    obtain ⟨r, hr, hnew⟩ := Option.map_eq_some_iff.mp hstep
    cases hnew
    exact hnone (emission_listenStep hr).takes
  | plane b p =>
    obtain ⟨A, -, hstep⟩ := Option.bind_eq_some_iff.mp hstep
    obtain ⟨r, hr, hnew⟩ := Option.map_eq_some_iff.mp hstep
    cases hnew
    exact hnone (emission_planeStep hr).takes
  | exit =>
    cases hstep
    exact hnone rfl
  | mapFail | listenerFail b =>
    rename_i hrel
    cases hrel

theorem takes_known (h : Setup map airlines) (hlist : Listing map)
    (hrun : Run (reliableStep cfg) (System.init map airlines) tr s) :
    ∀ status ∈ takes tr, ∃ a < airlines.length, status.id = (a : Int) := by
  induction hrun with
  | refl => exact fun _ hst => by cases hst
  | step run last ih =>
    intro status hst
    rw [takes_append] at hst
    rcases List.mem_append.mp hst with hst | hst
    · exact ih status hst
    · obtain ⟨T, sts, -, hsim, hchronicle, -⟩ := chronicle_run h hlist run
      obtain ⟨-, a, ha, hid⟩ :=
        takes_step (flow_run h hlist run) hchronicle.reported hsim last status hst
      exact ⟨a, (within_run run).2 ▸ ha, hid⟩

/-- The reports of the second phase among the signals. -/
theorem length_statuses (a : ℕ) (tr : List Event) :
    (statuses a tr).length = (tr.filterMap (Event.signal a)).count (.two, true) := by
  induction tr with
  | nil => rfl
  | cons e tr ih =>
    rw [← List.singleton_append, statuses_append, List.filterMap_append, List.length_append,
      List.count_append, ih]
    congr 1
    cases e with
    | sent b msg flags =>
      rw [statuses_sent]
      by_cases hb : b = a
      · cases msg <;> simp [Event.signal, hb, PlaneMessage.status?, PlaneMessage.reports]
      · simp [Event.signal, hb]
    | got b msg planes =>
      cases msg with
      | start ph => by_cases hb : b = a <;> simp [statuses, Event.signal, hb]
      | _ => rfl
    | _ => rfl

/-- When all airlines are counted, each has reported in this turn too, and `runMap` has received all
of it. -/
theorem takes_of_counted (h : Setup map airlines) (hlist : Listing map)
    (hrun : Run (reliableStep cfg) (System.init map airlines) tr s)
    (hpc : s.pc = .recv .two s.airlines.length) (ha : a < s.airlines.length) :
    ((takes tr).filter fun status => status.id = (a : Int)) = statuses a tr ∧
      (statuses a tr).length = s.turn := by
  obtain ⟨T, sts, -, hsim, hchronicle, -⟩ := chronicle_run h hlist hrun
  have hmap := hsim.pc
  rw [hpc] at hmap
  obtain ⟨hphase, -, hcount⟩ := hmap
  obtain ⟨A, ts, st, hat⟩ := hsim.exists_at ha
  obtain rfl : st = .counted := by
    have hall := List.count_eq_length.mp (hcount.trans hsim.statuses.symm)
    exact (hall st (List.mem_of_getElem? hat.status)).symm
  have hquiet : Quiet T.phase .counted A ts (s.out a) (s.pc.pend a) :=
    (hsim.airline a A ts .counted hat).status
  have hout : s.out a = [] := by simpa using hquiet.out
  have hflow := flow_run h hlist hrun a
  rw [hout, List.filterMap_nil, List.append_nil] at hflow
  refine ⟨hflow.symm, ?_⟩
  rw [length_statuses, (hchronicle.told a A ts .counted hat).signals, hsim.turn, hpc,
    Turn.pastSignals, ← hphase]
  simp [Status.signals, MapPc.turns, turnSignals, List.count_flatten]

end Flow

end PlaneSim
