import PlaneSim.ListenSteps

/-!
# The steps of the map

What the map thread does to an airline keeps the airline in order: it tells it to start or to end
(`AirlineOk.tell`), writes a reply to it (`AirlineOk.deliver`), counts its report
(`AirlineOk.count_report`), serves a request of one of its planes (`AirlineOk.serve`), and goes on
to the next phase (`AirlineOk.next`).
-/

namespace PlaneSim

open Lts Update Lock

section Steps

variable {a : ℕ} {ph : Phase} {st : Status} {A A' : AirlineState} {ts : List TurnPlane}
  {out : List PlaneMessage} {pend : List MapMessage} {p : ℕ} {P : PlaneThread} {t t' : TurnPlane}
  {es : List Event}

/-! ## Events of other threads -/

theorem Event.signal_of_isOf {e : Event} (h : e.isOf a = false) : e.signal a = none := by
  cases e with
  | sent b msg flags =>
    have hb : b ≠ a := by simpa [Event.isOf] using h
    simp [Event.signal, hb]
  | got b msg planes =>
    have hb : b ≠ a := by simpa [Event.isOf] using h
    cases msg with
    | start ph => simp [Event.signal, hb]
    | finish | stock _ | destinations _ => rfl
  | receive _ _ _ | applied _ _ _ _ | stored _ _ | ready _ _ _ | ended _ _ | error => rfl

theorem signals_of_isOf (h : ∀ e ∈ es, e.isOf a = false) : es.filterMap (Event.signal a) = [] :=
  List.filterMap_eq_nil_iff.mpr fun e he => Event.signal_of_isOf (h e he)

theorem isOf_of_ne {e : Event} {b : ℕ} (h : e.isOf b = true) (hne : a ≠ b) : e.isOf a = false := by
  cases e with
  | sent c _ _ | got c _ _ | stored c _ | ready c _ _ | ended c _ =>
    have hc : c = b := by simpa [Event.isOf] using h
    have : c ≠ a := fun he => hne (he.symm.trans hc)
    simpa [Event.isOf] using this
  | receive _ _ _ | applied _ _ _ _ | error => rfl

/-- An airline none of whose threads takes the step. -/
theorem Follows.of_silent {st' : Status} (h : ∀ e ∈ es, e.isOf a = false)
    (hplanes : A'.planes = A.planes) (hsignals : st'.signals ph = st.signals ph) :
    Follows a ph es st A ts st' A' ts := by
  refine Follows.of_planes hplanes ?_ (fun msg flags he => ?_) (fun msg planes he => ?_)
  · rw [signals_of_isOf h, List.append_nil, hsignals]
  · have := h _ he
    simp [Event.isOf] at this
  · have := h _ he
    simp [Event.isOf] at this

/-! ## Telling an airline -/

/-- The map writes a start message, or End. -/
theorem AirlineOk.tell (h : AirlineOk a ph .waiting A ts out pend) {st' : Status}
    (hst : st' = .told ∨ st' = .toldEnd ∧ ph = .one) :
    A.inbox = [] ∧
      AirlineOk a ph st' { A with inbox := A.inbox ++ st'.inbox ph } ts out pend ∧
        Follows a ph [] .waiting A ts st' { A with inbox := A.inbox ++ st'.inbox ph } ts := by
  have hquiet : Quiet ph .waiting A ts out pend := h.status
  have hinbox : A.inbox = [] := hquiet.inbox
  have hout : out = [] := hquiet.out
  have hcarried : ({ A with inbox := A.inbox ++ st'.inbox ph } : AirlineState).carried pend =
      A.carried pend := by
    unfold AirlineState.carried
    rw [hinbox, hquiet.pend]
    rcases hst with rfl | ⟨rfl, -⟩ <;> rfl
  have hnew : Quiet ph st' { A with inbox := A.inbox ++ st'.inbox ph } ts out pend := by
    refine ⟨hquiet.listener, by simp [hinbox], hquiet.pend, ?_, ?_, ?_⟩
    · rcases hst with rfl | ⟨rfl, -⟩ <;> exact hquiet.calm
    · rcases hst with rfl | ⟨rfl, -⟩ <;> exact hout
    · rintro rfl
      rcases hst with hst | ⟨-, hph⟩
      · cases hst
      · exact hph
  refine ⟨hinbox, ⟨h.length, ?_, h.left, h.conn, ?_⟩, Follows.of_silent (by simp) rfl ?_⟩
  · rw [hcarried, show st'.isEnding = false by rcases hst with rfl | ⟨rfl, -⟩ <;> rfl]
    exact h.planes
  · rcases hst with rfl | ⟨rfl, -⟩ <;> exact hnew
  · rcases hst with rfl | ⟨rfl, -⟩ <;> rfl

/-- Its inbox says nothing about where a busy airline is. -/
theorem Busy.congr (h : Busy a ph A ts A.pc) (hpc : A'.pc = A.pc) (hplanes : A'.planes = A.planes)
    (hleft : A'.planesLeft = A.planesLeft) : Busy a ph A' ts A'.pc := by
  have hflags : A'.done = A.done := by
    unfold AirlineState.done
    rw [hplanes]
  have hcalm : (Planes A ts fun _ => Calm true) → Planes A' ts fun _ => Calm true := by
    intro h p P t hP ht
    rw [hplanes] at hP
    exact h p P t hP ht
  rw [hpc]
  cases hcase : A.pc with
  | recv | unlockLeft | push _ _ =>
    rw [hcase] at h
    exact Flying.congr h hplanes hleft
  | lockLeft w =>
    rw [hcase] at h
    exact ⟨h.1, hcalm h.2⟩
  | scan w i =>
    rw [hcase] at h
    exact ⟨h.1, by rw [hplanes]; exact h.2.1, hcalm h.2.2.1, by rw [hleft, hflags]; exact h.2.2.2⟩
  | report pc =>
    rw [hcase] at h
    exact ⟨hcalm h.1, by rw [hplanes]; exact h.2.1, by rw [hflags]; exact h.2.2⟩
  | bcast w i =>
    rw [hcase] at h
    obtain ⟨h1, h2, h3, h4, h5, h6⟩ := h
    refine ⟨h1, by rw [hplanes]; exact h2, by rw [hleft]; exact h3,
      by rw [hleft, hplanes]; exact h4, fun p P t hP => ?_, fun p P t hP => ?_⟩
    · rw [hplanes] at hP
      exact h5 p P t hP
    · rw [hplanes] at hP
      exact h6 p P t hP
  | finish _ | join _ | stopped =>
    rw [hcase] at h
    exact h.elim

/-- The map writes a reply. -/
theorem AirlineOk.deliver {msg : MapMessage} (h : AirlineOk a ph st A ts out [msg]) :
    AirlineOk a ph st { A with inbox := A.inbox ++ [msg] } ts out [] ∧
      Follows a ph [] st A ts st { A with inbox := A.inbox ++ [msg] } ts := by
  have hcarried : ({ A with inbox := A.inbox ++ [msg] } : AirlineState).carried [] =
      A.carried [msg] := by
    unfold AirlineState.carried
    rw [List.append_nil]
  refine ⟨⟨h.length, ?_, h.left, h.conn, ?_⟩, Follows.of_silent (by simp) rfl rfl⟩
  · rw [hcarried]
    exact h.planes
  · rcases h.listener_cases with ⟨rfl, hstage, hown, hbusy⟩ | ⟨-, -, -, -, hpend, -⟩ |
      ⟨-, -, hquiet⟩
    · refine ⟨hstage, ⟨hown.out, ?_, ?_⟩, hbusy.congr rfl rfl rfl⟩
      · rw [List.append_nil]
        exact hown.reply
      · rw [hcarried]
        exact hown.carried
    · cases hpend
    · cases hquiet.pend

/-! ## Counting a report -/

theorem PlaneMessage.owner_of_reports {msg : PlaneMessage} {w : Phase} (h : msg.reports = some w) :
    msg.owner = none := by
  cases msg with
  | airlineDone | airlineStatus _ => rfl
  | unloadStock _ | checkDestinations _ => cases h

/-- A report comes from an airline that has reported, for this phase. -/
theorem AirlineOk.count_report {msg : PlaneMessage} {w : Phase}
    (h : AirlineOk a ph st A ts (msg :: out) pend) (hmsg : msg.reports = some w) :
    st = .reported ∧ w = ph ∧ out = [] ∧ AirlineOk a ph .counted A ts [] pend := by
  rcases h.listener_cases with ⟨-, -, hown, -⟩ | ⟨-, -, -, hout, -⟩ | ⟨hbusy, hending, hquiet⟩
  · obtain ⟨p, -, howner⟩ := hown.out msg (by simp)
    rw [PlaneMessage.owner_of_reports hmsg] at howner
    cases howner
  · cases hout
  · have hout := hquiet.out
    by_cases hst : st = .reported
    · subst hst
      obtain ⟨msg', hout, hreports⟩ : ∃ m, msg :: out = [m] ∧ m.reports = some ph := hout
      cases hout
      rw [hmsg] at hreports
      cases hreports
      refine ⟨rfl, rfl, rfl, h.length, fun p P t hP ht => ?_, h.left, h.conn,
        ⟨hquiet.listener, hquiet.inbox, hquiet.pend, hquiet.calm, rfl, fun h => by cases h⟩⟩
      have hok := h.planeOk hP ht
      rwa [show requestsOf p [msg] = requestsOf p [] by
        simp [requestsOf, PlaneMessage.owner_of_reports hmsg]] at hok
    · rw [if_neg hst] at hout
      cases hout

/-! ## Serving a request -/

theorem requestsOf_cons (q : ℕ) (msg : PlaneMessage) (out : List PlaneMessage) :
    requestsOf q (msg :: out) =
      if msg.owner = some (q : Int) then msg :: requestsOf q out else requestsOf q out := by
  unfold requestsOf
  rw [List.filter_cons]
  simp

/-- The replies on their way when one more is about to be written. -/
theorem carried_reply {reply : MapMessage} {x : Int × Message} (hx : redirect reply = some x) :
    A.carried [reply] = A.carried [] ++ [x] := by
  unfold AirlineState.carried
  rw [List.append_nil, List.filterMap_append, List.append_assoc, List.filterMap_cons_some hx,
    List.filterMap_nil]

theorem repliesTo_append (q : ℕ) (l m : List (Int × Message)) :
    repliesTo q (l ++ m) = repliesTo q l ++ repliesTo q m := List.filterMap_append

/-- A request comes from a plane on the ground that has its part ahead of it; whatever the map
makes of it, the abstract plane is what the thread becomes with the reply. -/
theorem AirlineOk.serve {msg : PlaneMessage} {id : Int}
    (h : AirlineOk a ph st A ts (msg :: out) []) (hmsg : msg.owner = some id) :
    ∃ p t, id = (p : ℕ) ∧ ts[p]? = some t ∧ (∃ P, A.planes[p]? = some P ∧ t.plane = P.plane) ∧
      t.plane.distance = 0 ∧ t.todo = true ∧ t.done = false ∧ request a t.plane ph = some msg ∧
      st = .busy ∧
      ∀ t' reply m, t'.todo = false → redirect reply = some ((p : Int), m) →
        takeReply t.plane ph m = some (t'.plane, some t'.done) →
          AirlineOk a ph .busy A (ts.set p t') out [reply] ∧
            ∀ es : List Event, (∀ e ∈ es, e.isOf a = false) →
              (ph = .one → ∃ city stocks, .applied a p city stocks ∈ es) →
                Follows a ph es .busy A ts .busy A (ts.set p t') := by
  obtain ⟨rfl, hstage, hown, hbusy⟩ :
      st = .busy ∧ A.stage = ph ∧ Owned A (msg :: out) [] ∧ Busy a ph A ts A.pc := by
    rcases h.listener_cases with hbusy | ⟨-, -, -, hout, -⟩ | ⟨-, -, hquiet⟩
    · exact hbusy
    · cases hout
    · -- the only message of a quiet airline is its report
      have hout := hquiet.out
      split at hout
      · obtain ⟨msg', hout, hreports⟩ := hout
        cases hout
        rw [PlaneMessage.owner_of_reports hreports] at hmsg
        cases hmsg
      · cases hout
  obtain ⟨p, hp, howner⟩ := hown.out msg (by simp)
  obtain rfl : id = p := Option.some.inj (hmsg.symm.trans howner)
  have hP := List.getElem?_eq_getElem hp
  generalize A.planes[p] = P at hP
  obtain ⟨t, ht⟩ := h.exists_abstract hP
  have hok := h.planeOk hP ht
  have hs := hok.station
  rw [requestsOf_cons, if_pos howner] at hs
  obtain ⟨w, hstation⟩ : ∃ w, P.pc.station = .asked w := by
    cases hst : P.pc.station with
    | asked w => exact ⟨w, rfl⟩
    | rest w | work w | finished w | reporting w | gone =>
      rw [hst] at hs
      cases hs.1
  rw [hstation] at hs
  obtain ⟨rfl, hdone, hasked⟩ := hs
  cases hasked with
  | reply _ _ _ hrq _ => cases hrq
  | request msg' hplane htdone htodo hground hsent hrq hrp =>
    obtain ⟨rfl, hnone⟩ := List.cons.inj hrq
    obtain ⟨hrp, hqueue⟩ := List.append_eq_nil_iff.mp hrp
    have hactive : P.active = true := by simp [PlaneThread.active, hstation]
    refine ⟨p, t, rfl, ht, ⟨P, hP, hplane⟩, by rw [hplane]; exact hground, htodo, htdone,
      by rw [hplane]; exact hsent, rfl, fun t' reply m htodo' hreply htake => ⟨?_, ?_⟩⟩
    · have hk : Keeps a ph A A p P P t t' := by
        refine ⟨(set_self hP).symm, rfl, rfl, rfl, rfl, rfl, fun _ => rfl, rfl, ?_, ?_, fun _ => rfl,
          ?_⟩
        · intro ph' pc hpc hne
          have := reporting_of_report hpc hne
          simp [PlaneThread.reporting, hstation] at this
        · intro h
          rw [hactive] at h
          cases h
        · intro hexit
          rw [hexit] at hstation
          cases hstation
      have hcarried := carried_reply (A := A) hreply
      refine ⟨by rw [List.length_set, h.length], ?_, h.left, h.conn, hstage, ⟨?_, ?_, ?_⟩,
        Busy.keep hbusy hP ht hk⟩
      · rw [hcarried]
        refine h.planes.set hP ht hk.planes ⟨?_, hok.awake⟩ fun q X x hq hXok => ?_
        · show StationOk _ _ _ _ _ _ _ P.pc.station
          rw [hstation]
          refine ⟨rfl, hdone, .reply m htodo' (by rw [← hplane]; exact htake) hnone ?_⟩
          rw [repliesTo_append, hrp, hqueue, repliesTo_cons, if_pos rfl]
          rfl
        · have hq' : (p : Int) ≠ q := by omega
          rw [requestsOf_cons, if_neg (by rw [howner]; simpa using hq')] at hXok
          rw [repliesTo_append, repliesTo_cons, if_neg hq', show repliesTo q [] = [] from rfl,
            List.append_nil]
          exact hXok
      · exact fun msg hmsg => hown.out msg (by simp [hmsg])
      · intro x hx
        rcases List.mem_append.mp hx with hx | hx
        · exact hown.reply x (by simp [hx])
        · rw [List.mem_singleton.mp hx]
          exact ⟨_, hreply⟩
      · rw [hcarried]
        intro x hx
        rcases List.mem_append.mp hx with hx | hx
        · exact hown.carried x hx
        · rw [List.mem_singleton.mp hx]
          exact ⟨p, hp, rfl⟩
    · intro es hes happlied
      refine Follows.of_set hP ht (set_self hP).symm ?_ (fun grounded hg => ⟨?_, ?_⟩) (.inl rfl)
        (fun hempty hfinish => ?_) (fun msg flags he => ?_) (fun msg planes he => ?_)
      · rw [signals_of_isOf hes, List.append_nil]
      · intro h
        rw [htodo'] at h
        cases h
      · -- the reply has not been stored yet
        have hnew : doneSoFar ph grounded P t' =
            if grounded && decide (ph = .one) then [.applied] else [] := by
          unfold doneSoFar
          rw [htodo', hactive, hstation]
          cases grounded <;> cases ph <;> rfl
        rw [hnew, doneSoFar_todo htodo, List.nil_append]
        split
        · rename_i hboth
          obtain ⟨city, stocks, hmem⟩ := happlied (by simp at hboth; exact hboth.2)
          exact List.singleton_sublist.mpr
            (List.mem_filterMap.mpr ⟨_, hmem, by simp [Event.tag]⟩)
        · exact List.nil_sublist _
      · rw [hempty] at hfinish
        cases hfinish
      · have := hes _ he
        simp [Event.isOf] at this
      · have := hes _ he
        simp [Event.isOf] at this

/-! ## The next phase -/

/-- The planes that are not done have the phase ahead of them. -/
def renew (ts : List TurnPlane) : List TurnPlane := ts.map fun t => { t with todo := !t.done }

/-- A plane that is out of one phase has the next one ahead of it. -/
theorem PlaneOk.next {rq : List PlaneMessage} {rp : List Message}
    (h : PlaneOk a ph false P t rq rp) (hcalm : Calm false P t) :
    PlaneOk a ph.next false P { t with todo := !t.done } rq rp ∧
      Calm true P { t with todo := !t.done } := by
  have hs := h.station
  have hactive := hcalm.active
  have hreporting := hcalm.reporting
  unfold PlaneThread.active at hactive
  unfold PlaneThread.reporting at hreporting
  have htodo : t.todo = false := hcalm.todo
  cases hst : P.pc.station with
  | rest w =>
    rw [hst] at hs hactive
    obtain ⟨h1, h2, h3, h4, hrest⟩ := hs
    refine ⟨⟨?_, h.awake⟩, hcalm.active, hcalm.reporting, by simp [h4]⟩
    rw [hst]
    refine ⟨h1, h2, h3, h4, ?_⟩
    cases hrest with
    | retired done queue _ => exact .retired done queue (by simp [h4, done])
    | waiting done queue todo =>
      refine .waiting done queue ?_
      rw [htodo] at todo
      have hne : ph ≠ w := by simpa using todo
      cases ph <;> cases w <;> first | exact absurd rfl hne | simp [h4, done, Phase.next]
    | started _ queue _ _ => simp [queue] at hactive
    | leaving _ _ _ _ _ ending => cases ending
  | gone =>
    rw [hst] at hs
    obtain ⟨h1, h2, h3, h4, h5, h6⟩ := hs
    obtain ⟨hdone, -⟩ | hending := h6
    · refine ⟨⟨?_, h.awake⟩, hcalm.active, hcalm.reporting, by simp [hdone, h5]⟩
      rw [hst]
      exact ⟨h1, h2, h3, h4, h5, .inl ⟨hdone, by simp [hdone]⟩⟩
    · cases hending
  | work w | asked w | finished w => simp [hst] at hactive
  | reporting w => simp [hst] at hreporting

/-- When every airline has been counted the next phase begins. -/
theorem AirlineOk.next (h : AirlineOk a ph .counted A ts out pend) :
    AirlineOk a ph.next .waiting A (renew ts) out pend := by
  have hquiet : Quiet ph .counted A ts out pend := h.status
  have hnew : ∀ p P x, A.planes[p]? = some P → (renew ts)[p]? = some x →
      PlaneOk a ph.next false P x (requestsOf p out) (repliesTo p (A.carried pend)) ∧
        Calm true P x := by
    intro p P x hP hx
    rw [renew, List.getElem?_map] at hx
    obtain ⟨t, ht, rfl⟩ := Option.map_eq_some_iff.mp hx
    exact (h.planeOk hP ht).next (hquiet.calm p P t hP ht)
  refine ⟨by rw [renew, List.length_map, h.length], fun p P x hP hx => (hnew p P x hP hx).1,
    h.left, h.conn, ⟨hquiet.listener, hquiet.inbox, hquiet.pend, fun p P x hP hx =>
      (hnew p P x hP hx).2, hquiet.out, fun h => by cases h⟩⟩

end Steps

end PlaneSim
