import PlaneSim.Outcome

/-!
# Every airline reports once in every phase

What the events of a run say, whatever the order of the threads.

1. An airline takes a start message and sends its report in turn, phase after phase
   (`Told.signals`).
2. Between the two, each plane that was not retired does what the phase asks of it, and is counted
   (`Told.since`); the report says how many are not retired when it is sent (`Reported`).
3. No process takes a message that it does not expect (`expected_step`).
-/

namespace PlaneSim

open Lts Update

/-! ## One event at a time -/

/-- What a step of a thread emits: nothing, the message it sends, or some other event. -/
inductive Emission (a : ℕ) (A : AirlineState) : AirlineStep → Prop where
  | silent (A' : AirlineState) : Emission a A ([], A', none)
  | sent (A' : AirlineState) (msg : PlaneMessage) : Emission a A ([.sent a msg A.done], A', some msg)
  | other (A' : AirlineState) (e : Event) (not_sent : ∀ b msg flags, e ≠ .sent b msg flags)
      (not_receive : ∀ ph got acted, e ≠ .receive ph got acted) : Emission a A ([e], A', none)

theorem emission_sentEvents (a : ℕ) (A A' : AirlineState) (sent : Option PlaneMessage) :
    Emission a A (sentEvents a A sent, A', sent) := by
  cases sent with
  | none => exact .silent A'
  | some msg => exact .sent A' msg

theorem Emission.length_le {a : ℕ} {A : AirlineState} {r : AirlineStep} (h : Emission a A r) :
    r.1.length ≤ 1 := by
  cases h with
  | silent A' => exact Nat.zero_le 1
  | sent A' msg | other A' e _ _ => exact le_rfl

theorem emission_listenStep {a : ℕ} {room : Bool} {A : AirlineState} {r : AirlineStep}
    (h : listenStep a room A = some r) : Emission a A r := by
  unfold listenStep at h
  cases hpc : A.pc with
  | recv =>
    simp only [hpc] at h
    cases hinbox : A.inbox with
    | nil =>
      rw [hinbox] at h
      cases h
    | cons msg inbox =>
      rw [hinbox] at h
      cases msg <;> cases h <;> exact .other _ _ (by simp) (by simp)
  | report pc =>
    simp only [hpc] at h
    obtain ⟨r, -, rfl⟩ := Option.map_eq_some_iff.mp h
    exact emission_sentEvents a A _ r.sent
  | push id msg =>
    simp only [hpc] at h
    split at h
    · obtain ⟨P, -, rfl⟩ := Option.map_eq_some_iff.mp h
      exact .silent _
    · cases h
      exact .other _ _ (by simp) (by simp)
  | bcast phase i =>
    simp only [hpc] at h
    split at h
    · split at h
      · cases h
        exact .silent _
      · obtain ⟨P, -, rfl⟩ := Option.map_eq_some_iff.mp h
        exact .silent _
    · cases h
      exact .silent _
  | finish i =>
    simp only [hpc] at h
    split at h
    · split at h
      · cases h
        exact .silent _
      · obtain ⟨P, -, rfl⟩ := Option.map_eq_some_iff.mp h
        exact .other _ _ (by simp) (by simp)
    · cases h
      exact .silent _
  | scan phase i =>
    simp only [hpc] at h
    split at h <;> cases h <;> exact .silent _
  | join i =>
    simp only [hpc] at h
    split at h
    · split at h <;> cases h
      exact .silent _
    · cases h
      exact .silent _
  | lockLeft phase =>
    simp only [hpc] at h
    split at h <;> cases h
    exact .silent _
  | unlockLeft =>
    simp only [hpc] at h
    cases h
    exact .silent _
  | stopped =>
    simp only [hpc] at h
    cases h

theorem emission_planeStep {a : ℕ} {room : Bool} {A : AirlineState} {p : ℕ} {r : AirlineStep}
    (h : planeStep a room A p = some r) : Emission a A r := by
  unfold planeStep at h
  obtain ⟨P, -, h⟩ := Option.bind_eq_some_iff.mp h
  cases hpc : P.pc with
  | report phase pc =>
    simp only [hpc] at h
    obtain ⟨r, -, rfl⟩ := Option.map_eq_some_iff.mp h
    exact emission_sentEvents a A _ r.sent
  | send phase =>
    simp only [hpc] at h
    split at h
    · cases h
      exact .other _ _ (by simp) (by simp)
    · split at h <;> cases h
      exact .sent _ _
  | top =>
    simp only [hpc] at h
    split at h
    · cases h
      exact .silent _
    · split at h <;> cases h
      · exact .silent _
      · exact .silent _
      · exact .other _ _ (by simp) (by simp)
  | reply phase =>
    simp only [hpc] at h
    split at h
    · cases h
    · split at h <;> cases h <;> exact .other _ _ (by simp) (by simp)
  | cont =>
    simp only [hpc] at h
    split at h
    · cases h
    · split at h <;> cases h <;> exact .silent _
    · cases h
      exact .other _ _ (by simp) (by simp)
  | safe action =>
    simp only [hpc] at h
    split at h <;> cases h <;> exact .silent _
  | lockConn phase | lockLeft phase =>
    simp only [hpc] at h
    split at h <;> cases h
    exact .silent _
  | unlockConn phase | unlockLeft phase =>
    simp only [hpc] at h
    cases h
    exact .silent _
  | dec phase =>
    simp only [hpc] at h
    cases h
    exact .other _ _ (by simp) (by simp)
  | exited =>
    simp only [hpc] at h
    cases h

section Events

variable {cfg : Config} {s s' : System} {es : List Event} {e : Event} {a : ℕ}

/-- Serving a message, the map prints errors and unloads planes. -/
theorem events_act {phase : Phase} {i : ℕ} {msg : PlaneMessage}
    (h : act cfg s phase i msg = (es, s')) (he : e ∈ es) :
    e = .error ∨ ∃ airline plane city stocks, e = .applied airline plane city stocks := by
  have hinit : ∀ stocks header map, ∀ e ∈ initPlaneEvents stocks header map, e = .error := by
    intro stocks header map e he
    unfold initPlaneEvents at he
    split at he
    · split at he
      · exact List.mem_singleton.mp he
      · cases he
    · cases he
  have happlied : ∀ map header stocks, ∀ e ∈ appliedEvents map header stocks,
      ∃ airline plane city stocks, e = .applied airline plane city stocks := by
    intro map header stocks e he
    unfold appliedEvents at he
    split at he
    · split at he
      · exact ⟨_, _, _, _, List.mem_singleton.mp he⟩
      · cases he
    · cases he
  unfold act at h
  split at h
  · cases h
    cases he
  · split at h
    · cases h
      rcases List.mem_append.mp he with he | he
      · exact .inl (hinit _ _ _ e he)
      · exact .inr (happlied _ _ _ e he)
    · cases h
      exact .inl (List.mem_singleton.mp he)
  · cases h
    cases he
  · split at h
    · cases h
      exact .inl (hinit _ _ _ e he)
    · cases h
      exact .inl (List.mem_singleton.mp he)
  · cases h
    exact .inl (List.mem_singleton.mp he)

/-- It leaves the turn, the inboxes and the airlines alone. -/
theorem act_frame (cfg : Config) (s : System) (phase : Phase) (i : ℕ) (msg : PlaneMessage) :
    (act cfg s phase i msg).2.turn = s.turn ∧ (act cfg s phase i msg).2.inbox = s.inbox ∧
      (act cfg s phase i msg).2.airlines = s.airlines := by
  unfold act
  split
  · exact ⟨rfl, rfl, rfl⟩
  · split <;> exact ⟨rfl, rfl, rfl⟩
  · exact ⟨rfl, rfl, rfl⟩
  · split <;> exact ⟨rfl, rfl, rfl⟩
  · exact ⟨rfl, rfl, rfl⟩

theorem isOf_act {phase : Phase} {i : ℕ} {msg : PlaneMessage}
    (h : act cfg s phase i msg = (es, s')) (he : e ∈ es) : e.isOf a = false := by
  rcases events_act h he with rfl | ⟨_, _, _, _, rfl⟩ <;> rfl

/-- What the map can do. -/
inductive MapMove (cfg : Config) (s : System) : List Event → System → Prop where
  | turn (h : s.pc = .head) : MapMove cfg s [] { s with turn := s.turn + 1, pc := .send .one 0 }
  | leave (h : s.pc = .head) : MapMove cfg s [] { s with pc := .finish 0 }
  | start {phase : Phase} {i : ℕ} {A : AirlineState} (h : s.pc = .send phase i)
      (hA : s.airlines[i]? = some A) :
      MapMove cfg s [] { s with
        pc := .send phase (i + 1)
        airlines := s.airlines.set i { A with inbox := A.inbox ++ [.start phase] } }
  | listen {phase : Phase} {i : ℕ} (h : s.pc = .send phase i) (hall : s.airlines.length ≤ i) :
      MapMove cfg s [] { s with pc := .recv phase 0 }
  | next {phase : Phase} (h : s.pc = .recv phase s.airlines.length) :
      MapMove cfg s [] { s with pc := phase.after }
  | receive {phase : Phase} {i : ℕ} {x : ℕ × PlaneMessage} {inbox : List (ℕ × PlaneMessage)}
      (h : s.pc = .recv phase i) (hinbox : s.inbox = x :: inbox) :
      MapMove cfg s (.receive phase (some x.2) (some x.2) ::
          (act cfg { s with inbox := inbox, msg := some x.2 } phase i x.2).1)
        (act cfg { s with inbox := inbox, msg := some x.2 } phase i x.2).2
  | reply {phase : Phase} {i : ℕ} {airline : Int} {msg : MapMessage} {A : AirlineState}
      (h : s.pc = .reply phase i airline msg) (hA : s.airlines[airline.toNat]? = some A) :
      MapMove cfg s [] { s with
        pc := .recv phase i
        airlines := s.airlines.set airline.toNat { A with inbox := A.inbox ++ [msg] } }
  | lost {phase : Phase} {i : ℕ} {airline : Int} {msg : MapMessage}
      (h : s.pc = .reply phase i airline msg) : MapMove cfg s [.error] { s with pc := .crashed }
  | finish {i : ℕ} {A : AirlineState} (h : s.pc = .finish i) (hA : s.airlines[i]? = some A) :
      MapMove cfg s [] { s with
        pc := .finish (i + 1)
        airlines := s.airlines.set i { A with inbox := A.inbox ++ [.finish] } }
  | halt {i : ℕ} (h : s.pc = .finish i) : MapMove cfg s [] { s with pc := .halted }

theorem mapMove_of_mapStep (h : mapStep cfg s = some (es, s')) : MapMove cfg s es s' := by
  unfold mapStep at h
  cases hpc : s.pc with
  | head =>
    simp only [hpc] at h
    split at h <;> cases h
    · exact .turn hpc
    · exact .leave hpc
  | send phase i =>
    simp only [hpc] at h
    split at h
    · obtain ⟨s1, hs1, hnew⟩ := Option.map_eq_some_iff.mp h
      obtain ⟨A, hA, rfl⟩ := deliver_eq_some hs1
      cases hnew
      exact .start hpc hA
    · rename_i hi
      cases h
      exact .listen hpc (Nat.le_of_not_lt hi)
  | recv phase i =>
    simp only [hpc] at h
    split at h
    · rename_i hi
      cases h
      exact .next (hi ▸ hpc)
    · cases hinbox : s.inbox with
      | nil =>
        rw [hinbox] at h
        cases h
      | cons x inbox =>
        rw [hinbox, ← hpc] at h
        obtain ⟨rfl, rfl⟩ := Prod.mk.inj (Option.some.inj h)
        exact .receive hpc hinbox
  | reply phase i airline msg =>
    simp only [hpc] at h
    split at h
    · obtain ⟨s1, hs1, hnew⟩ := Option.map_eq_some_iff.mp h
      obtain ⟨A, hA, rfl⟩ := deliver_eq_some hs1
      cases hnew
      exact .reply hpc hA
    · cases h
      exact .lost hpc
  | finish i =>
    simp only [hpc] at h
    split at h
    · obtain ⟨s1, hs1, hnew⟩ := Option.map_eq_some_iff.mp h
      obtain ⟨A, hA, rfl⟩ := deliver_eq_some hs1
      cases hnew
      exact .finish hpc hA
    · cases h
      exact .halt hpc
  | halted | crashed =>
    simp only [hpc] at h
    cases h

theorem isOf_mapStep (h : mapStep cfg s = some (es, s')) (he : e ∈ es) : e.isOf a = false := by
  cases mapMove_of_mapStep h with
  | receive hpc hinbox =>
    rcases List.mem_cons.mp he with rfl | he
    · rfl
    · exact isOf_act rfl he
  | lost hpc =>
    rw [List.mem_singleton.mp he]
    rfl
  | turn _ | leave _ | start _ _ | listen _ _ | next _ | reply _ _ | finish _ _ | halt _ => cases he

/-- An event of an airline is the only one of its step. -/
theorem eq_singleton_of_isOf {action : Action} (h : reliableStep cfg s action = some (es, s'))
    (he : e ∈ es) (hof : e.isOf a = true) : es = [e] := by
  have hone : ∀ {A : AirlineState} {b : ℕ} {r : Option AirlineStep},
      (∀ x, r = some x → Emission b A x) → r.map (s.update b) = some (es, s') → es = [e] := by
    intro A b r hemits hr
    obtain ⟨x, hx, hnew⟩ := Option.map_eq_some_iff.mp hr
    have hle := (hemits x hx).length_le
    obtain ⟨events, A', sent⟩ := x
    cases hnew
    cases es with
    | nil => cases he
    | cons f rest =>
      obtain rfl : rest = [] := List.eq_nil_of_length_eq_zero (by simpa using hle)
      rw [List.mem_singleton.mp he]
  unfold reliableStep at h
  split at h
  swap
  · cases h
  cases action with
  | map =>
    rw [isOf_mapStep h he] at hof
    cases hof
  | listener b =>
    obtain ⟨A, -, h⟩ := Option.bind_eq_some_iff.mp h
    exact hone (A := A) (fun _ => emission_listenStep) h
  | plane b p =>
    obtain ⟨A, -, h⟩ := Option.bind_eq_some_iff.mp h
    exact hone (A := A) (fun _ => emission_planeStep) h
  | exit =>
    cases h
    cases he
  | mapFail | listenerFail b =>
    rename_i hrel
    cases hrel

end Events

/-! ## The phases so far -/

/-- The start messages an airline takes in a turn, and the reports it sends. -/
def turnSignals : List (Phase × Bool) := [(.one, false), (.one, true), (.two, false), (.two, true)]

/-- The signals of the phases that are over. -/
def Turn.pastSignals (T : Turn) : List (Phase × Bool) :=
  (List.replicate T.turn turnSignals).flatten ++
    match T.phase with
    | .one => []
    | .two => [(.one, false), (.one, true)]

/-- What the phase asks of a plane that is not retired. -/
def duty (ph : Phase) (grounded : Bool) : List Tag :=
  (if grounded then (if ph = .one then [.applied] else []) ++ [.stored] else []) ++ [.ready]

/-- Airline `a` has taken the start message of the phase, with its planes as in `planes`, and since
then each of them has done what the trace tells. -/
def Since (a : ℕ) (ph : Phase) (tr : List Event) (A : AirlineState) (ts : List TurnPlane) : Prop :=
  ∃ before planes during, tr = before ++ .got a (.start ph) planes :: during ∧
    during.filterMap (Event.signal a) = [] ∧ planes.length = A.planes.length ∧
    ∀ p P t distance, A.planes[p]? = some P → ts[p]? = some t →
      planes[p]? = some (false, distance) → Grounded (decide (distance = 0)) t ∧
        (doneSoFar ph (decide (distance = 0)) P t).Sublist (during.filterMap (Event.tag a p))

/-- The report `msg` follows the start of its phase; in between every plane that was not retired has
done its duty. It tells how many planes are not retired. -/
def Justified (before : List Event) (a : ℕ) (msg : PlaneMessage) (flags : List Bool) (ph : Phase) :
    Prop :=
  msg = reportMessage a flags ph ∧
    ∃ earlier planes during, before = earlier ++ .got a (.start ph) planes :: during ∧
      during.filterMap (Event.signal a) = [] ∧
      ∀ p distance, planes[p]? = some (false, distance) →
        (duty ph (decide (distance = 0))).Sublist (during.filterMap (Event.tag a p))

/-- Every report is justified. -/
def Reported (tr : List Event) : Prop :=
  ∀ before e after, tr = before ++ e :: after → ∀ a msg flags ph, e = .sent a msg flags →
    msg.reports = some ph → Justified before a msg flags ph

/-- What the trace tells about airline `a`. -/
structure Told (a : ℕ) (tr : List Event) (T : Turn) (A : AirlineState) (ts : List TurnPlane)
    (st : Status) : Prop where
  signals : tr.filterMap (Event.signal a) = T.pastSignals ++ st.signals T.phase
  since : st = .busy → Since a T.phase tr A ts

section Step

variable {cfg : Config} {s s' : System} {T T' : Turn} {sts sts' : List Status} {tr es : List Event}
  {a : ℕ} {A A' : AirlineState} {ts ts' : List TurnPlane} {st st' : Status} {ph ph' : Phase}
  {out : List PlaneMessage} {pend : List MapMessage}

/-- An airline becomes busy by taking the start message. -/
theorem Status.signals_busy {l : List (Phase × Bool)}
    (h : Status.busy.signals ph = st.signals ph ++ l) : st = .busy ∧ l = [] ∨ l = [(ph, false)] := by
  cases st with
  | busy => exact .inl ⟨rfl, by simpa [Status.signals] using h⟩
  | waiting | told | toldEnd | ending => exact .inr h.symm
  | reported | counted => simp [Status.signals] at h

/-- It reports when it is busy. -/
theorem Status.signals_report (h : st'.signals ph = st.signals ph ++ [(ph', true)]) :
    ph' = ph ∧ st = .busy ∧ (st' = .reported ∨ st' = .counted) := by
  cases st <;> cases st' <;> simp [Status.signals] at h ⊢ <;> exact h.symm

theorem Event.isOf_of_signal {e : Event} {x : Phase × Bool} (h : e.signal a = some x) :
    e.isOf a = true := by
  unfold Event.signal at h
  split at h
  · split_ifs at h with hb
    simp [Event.isOf, hb]
  · split_ifs at h with hb
    simp [Event.isOf, hb]
  · cases h

theorem Event.signal_start {e : Event} (h : e.signal a = some (ph, false)) :
    ∃ planes, e = .got a (.start ph) planes := by
  unfold Event.signal at h
  split at h
  · split_ifs at h with hb
    cases h
    exact ⟨_, by rw [hb]⟩
  · split_ifs at h
    obtain ⟨w, -, hw⟩ := Option.map_eq_some_iff.mp h
    cases hw
  · cases h

/-- At the start message the planes that are not retired have everything ahead of them. -/
theorem AirlineOk.since_start (h : AirlineOk a ph .told A ts out pend)
    (hlen : A'.planes.length = A.planes.length)
    (hf : Follows a ph [.got a (.start ph) A.snapshot] .told A ts st' A' ts')
    (tr : List Event) : Since a ph (tr ++ [.got a (.start ph) A.snapshot]) A' ts' := by
  refine ⟨tr, A.snapshot, [], rfl, rfl, by rw [hlen, AirlineState.snapshot, List.length_map],
    fun p P' t' distance hP' ht' hp => ?_⟩
  obtain ⟨P, hP, hsnap⟩ := by
    rw [AirlineState.snapshot, List.getElem?_map] at hp
    exact Option.map_eq_some_iff.mp hp
  obtain ⟨hdone, hdist⟩ := Prod.mk.inj hsnap
  obtain ⟨t, ht⟩ := h.exists_abstract hP
  have hcalm : Planes A ts fun _ => Calm true := Quiet.calm h.status
  obtain rfl := (h.planeOk hP ht).eq_of_calm (hcalm p P t hP ht)
  have hgrounded : Grounded (decide (distance = 0))
      { plane := P.plane, done := P.done, todo := !P.done } := fun _ => by rw [← hdist]
  obtain ⟨hg, hsub⟩ := hf.progress p P _ P' t' hP ht hP' ht' _ hgrounded
  have hnone : doneSoFar ph (decide (distance = 0)) P
      { plane := P.plane, done := P.done, todo := !P.done } = [] := by
    simp [doneSoFar, hdone]
  rw [hnone] at hsub
  exact ⟨hg, hsub⟩

/-- What was done since the start goes on. -/
theorem Since.append (h : Since a ph tr A ts) (hts : ts'.length = ts.length)
    (hok : ts.length = A.planes.length) (hlen : A'.planes.length = A.planes.length)
    (hf : Follows a ph es st A ts st' A' ts') (hsignal : es.filterMap (Event.signal a) = []) :
    Since a ph (tr ++ es) A' ts' := by
  obtain ⟨before, planes, during, rfl, hduring, hcount, hplanes⟩ := h
  refine ⟨before, planes, during ++ es, by simp, by rw [List.filterMap_append, hduring, hsignal]; rfl,
    hcount.trans hlen.symm, fun p P' t' distance hP' ht' hp => ?_⟩
  have hlt : p < ts.length := by
    rw [← hts]
    exact (List.getElem?_eq_some_iff.mp ht').1
  have ht := List.getElem?_eq_getElem hlt
  have hP := List.getElem?_eq_getElem (l := A.planes) (i := p) (by rw [← hok]; exact hlt)
  obtain ⟨hg, hsub⟩ := hplanes p _ _ distance hP ht hp
  obtain ⟨hg', hsub'⟩ := hf.progress p _ _ P' t' hP ht hP' ht' _ hg
  refine ⟨hg', hsub'.trans ?_⟩
  rw [List.filterMap_append]
  exact hsub.append_right _

/-- A step within the phase. -/
theorem Told.within (h : Told a tr T A ts st) (hok : AirlineOk a T.phase st A ts out pend)
    (hts : ts'.length = ts.length) (hlen : A'.planes.length = A.planes.length)
    (halone : ∀ e ∈ es, e.isOf a = true → es = [e])
    (hphase : T'.phase = T.phase) (hturn : T'.turn = T.turn)
    (hf : Follows a T.phase es st A ts st' A' ts') : Told a (tr ++ es) T' A' ts' st' where
  signals := by
    have hpast : T'.pastSignals = T.pastSignals := by
      unfold Turn.pastSignals
      rw [hphase, hturn]
    rw [List.filterMap_append, h.signals, hpast, hphase, hf.signal, List.append_assoc]
  since hbusy := by
    subst hbusy
    rw [hphase]
    rcases Status.signals_busy hf.signal with ⟨rfl, hsignal⟩ | hsignal
    · exact (h.since rfl).append hts hok.length hlen hf hsignal
    · obtain ⟨e, he, hstart⟩ : ∃ e ∈ es, e.signal a = some (T.phase, false) := by
        have hmem : (T.phase, false) ∈ es.filterMap (Event.signal a) := by simp [hsignal]
        exact List.mem_filterMap.mp hmem
      obtain rfl := halone e he (Event.isOf_of_signal hstart)
      obtain ⟨planes, rfl⟩ := Event.signal_start hstart
      obtain ⟨rfl, htold, -⟩ := hf.got _ _ he
      obtain rfl := htold _ rfl
      exact hok.since_start hlen hf tr

/-- All airlines have been counted: the next phase begins. -/
theorem Told.next (h : Told a tr T A ts .counted) (hphase : T'.phase = T.phase.next)
    (hturn : T'.turn = if T.phase = .two then T.turn + 1 else T.turn) :
    Told a tr T' A' ts' .waiting where
  signals := by
    rw [h.signals]
    unfold Turn.pastSignals
    rw [hphase, hturn]
    cases hw : T.phase with
    | one => simp [Phase.next, Status.signals]
    | two => simp [Phase.next, Status.signals, List.replicate_succ', turnSignals]
  since hbusy := by cases hbusy

/-- A plane that has been counted has done its duty. -/
theorem duty_eq {P : PlaneThread} {t : TurnPlane} {grounded : Bool} (htodo : t.todo = false)
    (hactive : P.active = false) : doneSoFar ph grounded P t = duty ph grounded := by
  unfold doneSoFar duty
  rw [htodo, hactive]
  cases hst : P.pc.station with
  | asked w => simp [PlaneThread.active, hst] at hactive
  | rest w | work w | finished w | reporting w | gone => cases grounded <;> rfl

/-- The report of an airline comes when every plane has been counted. -/
theorem Told.reported {msg : PlaneMessage} {flags : List Bool} (h : Told a tr T A ts st)
    (hok : AirlineOk a T.phase st A ts out pend) {out' : List PlaneMessage}
    {pend' : List MapMessage} (hok' : AirlineOk a T.phase st' A' ts' out' pend')
    (hts : ts'.length = ts.length)
    (hf : Follows a T.phase [.sent a msg flags] st A ts st' A' ts') (hmsg : msg.reports = some ph) :
    Justified tr a msg flags ph := by
  have hsignal : [Event.sent a msg flags].filterMap (Event.signal a) = [(ph, true)] := by
    simp [Event.signal, hmsg]
  obtain ⟨rfl, rfl, hst'⟩ := Status.signals_report (hsignal ▸ hf.signal)
  obtain ⟨-, hreport⟩ := hf.report msg flags (by simp) (by rw [hmsg]; simp)
  obtain ⟨earlier, planes, during, htr, hduring, hcount, hplanes⟩ := h.since rfl
  have hcalm : Planes A' ts' fun _ => Calm false := by
    have hs := hok'.status
    rcases hst' with rfl | rfl <;> exact Quiet.calm hs
  refine ⟨hreport, earlier, planes, during, htr, hduring, fun p distance hp => ?_⟩
  have hlt : p < A.planes.length := by
    rw [← hcount]
    exact (List.getElem?_eq_some_iff.mp hp).1
  have hP := List.getElem?_eq_getElem hlt
  have ht := List.getElem?_eq_getElem (l := ts) (i := p) (by rw [hok.length]; exact hlt)
  have ht' := List.getElem?_eq_getElem (l := ts') (i := p) (by rw [hts, hok.length]; exact hlt)
  have hP' := List.getElem?_eq_getElem (l := A'.planes) (i := p)
    (by rw [← hok'.length, hts, hok.length]; exact hlt)
  obtain ⟨hg, hsub⟩ := hplanes p _ _ distance hP ht hp
  obtain ⟨-, hsub'⟩ := hf.progress p _ _ _ _ hP ht hP' ht' _ hg
  obtain ⟨hactive, -, htodo⟩ := hcalm p _ _ hP' ht'
  rw [duty_eq htodo hactive] at hsub'
  refine hsub'.trans ?_
  have hnone : [Event.sent a msg flags].filterMap (Event.tag a p) = [] := rfl
  rw [hnone, List.append_nil]
  exact hsub

/-- Planes are neither added nor lost. -/
theorem turn_lengths {qsort : Qsort} {tr : List (List Stock × List Stock)}
    (h : Run (turnStep qsort) T tr T') :
    T'.airlines.map List.length = T.airlines.map List.length := by
  refine h.invariant (P := fun T' => T'.airlines.map List.length = T.airlines.map List.length) rfl
    fun T1 act es T2 hsame hstep => ?_
  have hset : ∀ (T : Turn) (map : Map) (a p : ℕ) (t : TurnPlane),
      ({ T with map := map }.set a p t).airlines.map List.length = T.airlines.map List.length := by
    intro T map a p t
    apply List.ext_getElem?
    intro b
    simp only [Turn.set, set2, List.getElem?_map, List.getElem?_modify]
    cases T.airlines[b]? with
    | none => rfl
    | some row =>
      show some (List.length (if a = b then row.set p t else row)) = some row.length
      split
      · rw [List.length_set]
      · rfl
  rcases turnStep_cases hstep with
    ⟨a, p, t, c, city, needs, stocks, -, -, -, -, -, -, -, -, rfl⟩ |
    ⟨a, p, t, -, -, -, -, -, rfl⟩ | ⟨a, p, t, cityInfo, -, -, -, -, -, -, rfl⟩ |
    ⟨a, p, t, -, -, -, -, -, rfl⟩ | ⟨-, -, rfl⟩
  · rw [← hsame]
    exact hset _ _ _ _ _
  · rw [← hsame]
    exact hset _ T1.map _ _ _
  · rw [← hsame]
    exact hset _ T1.map _ _ _
  · rw [← hsame]
    exact hset _ T1.map _ _ _
  · rw [← hsame]
    simp

/-- An event of an airline is one of an airline of the system. -/
theorem Sim.exists_of_isOf {action : Action} (h : Sim s T sts)
    (hstep : reliableStep cfg s action = some (es, s')) {e : Event} (he : e ∈ es)
    (hof : e.isOf a = true) : ∃ A, s.airlines[a]? = some A := by
  have hsame : ∀ {b : ℕ} {A : AirlineState} {ts : List TurnPlane} {st : Status}
      {A' : AirlineState} {sent : Option PlaneMessage}, s.airlines[b]? = some A →
      Stepped b T.phase st A ts (s.out b) (s.pc.pend b) es A' sent →
        ∃ A, s.airlines[a]? = some A := by
    intro b A ts st A' sent hA hstepped
    obtain ⟨st', ts', -, -, hemits⟩ := hstepped
    by_cases hab : a = b
    · exact ⟨A, hab ▸ hA⟩
    · rw [isOf_of_ne (hemits.own e he) hab] at hof
      cases hof
  unfold reliableStep at hstep
  split at hstep
  swap
  · cases hstep
  cases action with
  | map =>
    rw [isOf_mapStep hstep he] at hof
    cases hof
  | listener b =>
    obtain ⟨A, hA, hstep⟩ := Option.bind_eq_some_iff.mp hstep
    obtain ⟨⟨es1, A', sent⟩, hlisten, hnew⟩ := Option.map_eq_some_iff.mp hstep
    cases hnew
    obtain ⟨ts, st, hat⟩ := h.exists_at_of_system hA
    exact hsame hA (listen_stepped (h.airline b A ts st hat) hlisten)
  | plane b p =>
    obtain ⟨A, hA, hstep⟩ := Option.bind_eq_some_iff.mp hstep
    obtain ⟨⟨es1, A', sent⟩, hplane, hnew⟩ := Option.map_eq_some_iff.mp hstep
    cases hnew
    obtain ⟨ts, st, hat⟩ := h.exists_at_of_system hA
    exact hsame hA (plane_stepped (h.airline b A ts st hat) (h.valid.carries hat.turn) hplane)
  | exit =>
    cases hstep
    cases he
  | mapFail | listenerFail b =>
    rename_i hrel
    cases hrel

/-! ## Steps and runs -/

/-- What the trace of a run tells. -/
structure Chronicle (tr : List Event) (s : System) (T : Turn) (sts : List Status) : Prop where
  told : ∀ a A ts st, At s T sts a A ts st → Told a tr T A ts st
  reported : Reported tr

/-- Airline `a` before and after a step of the abstract turn. -/
theorem At.lengths {qsort : Qsort} {unloads : List (List Stock × List Stock)}
    (h : Sim s T sts) (h' : Sim s' T' sts') (hturns : Run (turnStep qsort) T unloads T')
    (hat' : At s' T' sts' a A' ts' st') : ∃ A ts st, At s T sts a A ts st ∧
      ts'.length = ts.length ∧ A'.planes.length = A.planes.length := by
  have hrows := turn_lengths hturns
  have hrow := congrArg (·[a]?) hrows
  simp only [List.getElem?_map, hat'.turn, Option.map_some] at hrow
  obtain ⟨ts, hts, hlen⟩ := Option.map_eq_some_iff.mp hrow.symm
  obtain ⟨A, ts1, st, hat⟩ := h.exists_at (a := a)
    (by rw [← h.length]; exact (List.getElem?_eq_some_iff.mp hts).1)
  cases hts.symm.trans hat.turn
  refine ⟨A, ts, st, hat, hlen.symm, ?_⟩
  rw [← (h'.airline a A' ts' st' hat').length, ← (h.airline a A ts st hat).length, hlen]

theorem chronicle_step {action : Action} (h : Chronicle tr s T sts) (hsim : Sim s T sts)
    (hstep : reliableStep cfg s action = some (es, s')) {unloads : List (List Stock × List Stock)}
    (hturns : Run (turnStep cfg.qsort) T unloads T') (hsim' : Sim s' T' sts')
    (hsteps : Steps s T sts es s' T' sts') : Chronicle (tr ++ es) s' T' sts' where
  told a A' ts' st' hat' := by
    obtain ⟨A, ts, st, hat, hts, hlen⟩ := At.lengths hsim hsim' hturns hat'
    cases hsteps with
    | within phase turn follows =>
      exact (h.told a A ts st hat).within (hsim.airline a A ts st hat) hts hlen
        (fun e he => eq_singleton_of_isOf hstep he) phase turn
        (follows a A ts st A' ts' st' hat hat')
    | next events counted waiting airlines phase turn =>
      have htold := h.told a A ts st hat
      rw [counted st (List.mem_of_getElem? hat.status)] at htold
      rw [waiting st' (List.mem_of_getElem? hat'.status), events, List.append_nil]
      have hA' := hat'.system
      rw [airlines, hat.system] at hA'
      cases hA'
      exact htold.next phase turn
  reported := by
    refine forall_split_append h.reported ?_
    rintro before e after hes a msg flags ph rfl hmsg
    have he : Event.sent a msg flags ∈ es := by
      rw [hes]
      simp
    have hof : (Event.sent a msg flags).isOf a = true := by simp [Event.isOf]
    obtain rfl := eq_singleton_of_isOf hstep he hof
    obtain ⟨rfl, -⟩ : before = [] ∧ after = [] := by
      cases before with
      | nil => exact ⟨rfl, (List.cons_eq_cons.mp hes).2.symm⟩
      | cons x before => simp at hes
    rw [List.append_nil]
    obtain ⟨A, hA⟩ := hsim.exists_of_isOf hstep he hof
    have ha : a < s'.airlines.length := by
      have hlen := congrArg List.length (turn_lengths hturns)
      rw [List.length_map, List.length_map] at hlen
      rw [← hsim'.length, hlen, hsim.length]
      exact (List.getElem?_eq_some_iff.mp hA).1
    obtain ⟨A', ts', st', hat'⟩ := hsim'.exists_at ha
    obtain ⟨A, ts, st, hat, hts, -⟩ := At.lengths hsim hsim' hturns hat'
    cases hsteps with
    | within phase turn follows =>
      have hok' := hsim'.airline a A' ts' st' hat'
      rw [phase] at hok'
      exact (h.told a A ts st hat).reported (hsim.airline a A ts st hat) hok' hts
        (follows a A ts st A' ts' st' hat hat') hmsg
    | next events _ _ _ _ _ => cases events

/-- The signals of the current phase go on with those of the turn. -/
theorem prefix_signals (ph : Phase) (st : Status) :
    (match ph with
      | .one => []
      | .two => [(.one, false), (.one, true)]) ++ st.signals ph <+: turnSignals := by
  cases ph <;> cases st <;> decide

theorem Told.prefix_turns (h : Told a tr T A ts st) :
    tr.filterMap (Event.signal a) <+: (List.replicate (T.turn + 1) turnSignals).flatten := by
  rw [h.signals, Turn.pastSignals, List.append_assoc, List.replicate_succ', List.flatten_append,
    List.flatten_singleton]
  exact List.prefix_append_right_inj _ |>.mpr (prefix_signals T.phase st)

/-- Outside of a turn no phase has begun. -/
theorem Sim.signals_of_turns (h : Sim s T sts) (hpc : s.pc.turns = 0) (hst : st ∈ sts) :
    T.phase = .one ∧ st.signals T.phase = [] := by
  have hmap := h.pc
  obtain ⟨b, hb⟩ := List.mem_iff_getElem?.mp hst
  have hleaving : ∀ {st : Status} (ph : Phase), st.Leaving → st.signals ph = [] := by
    rintro st ph (rfl | rfl) <;> rfl
  cases hs : s.pc with
  | head =>
    rw [hs] at hmap
    obtain ⟨hphase, hwaiting⟩ := hmap
    rw [hwaiting st hst]
    exact ⟨hphase, rfl⟩
  | finish i =>
    rw [hs] at hmap
    obtain ⟨hphase, -, hpart⟩ := hmap
    refine ⟨hphase, ?_⟩
    have := hpart b st hb
    split at this
    · exact hleaving _ this
    · rw [this]
      rfl
  | halted =>
    rw [hs] at hmap
    exact ⟨hmap.1, hleaving _ (hmap.2 st hst)⟩
  | crashed =>
    rw [hs] at hmap
    exact hmap.elim
  | send _ _ | recv _ _ | reply _ _ _ _ =>
    rw [hs] at hpc
    cases hpc

end Step

section Runs

variable {cfg : Config} {map : Map} {airlines : List Airline} {s : System} {tr : List Event}

theorem chronicle_init (map : Map) (airlines : List Airline) :
    Chronicle [] (System.init map airlines) (Turn.init map airlines)
      (airlines.map fun _ => .waiting) where
  told a A ts st hat := by
    have hst := hat.status
    rw [List.getElem?_map] at hst
    obtain ⟨-, -, rfl⟩ := Option.map_eq_some_iff.mp hst
    exact ⟨rfl, fun hbusy => by cases hbusy⟩
  reported before e after heq := by simp at heq

/-- What a run looks like from the turns and from its trace. -/
theorem chronicle_run (h : Setup map airlines) (hlist : Listing map)
    (hrun : Run (reliableStep cfg) (System.init map airlines) tr s) :
    ∃ T sts, Run (turnStep cfg.qsort) (Turn.init map airlines) (tr.filterMap Event.unload) T ∧
      Sim s T sts ∧ Chronicle tr s T sts ∧
      (.error ∈ tr → ∃ airline ∈ airlines, 10 < airline.planes.length) ∧
      ∀ ph got acted, .receive ph got acted ∈ tr →
        ∃ msg, got = some msg ∧ acted = some msg ∧ handled ph msg = true := by
  induction hrun with
  | refl =>
    exact ⟨_, _, .refl, sim_init h, chronicle_init map airlines, by simp, by simp⟩
  | step run last ih =>
    obtain ⟨T, sts, hturns, hsim, hchronicle, herror, hreceive⟩ := ih
    rcases hsim.step last with ⟨T', sts', hturns', hsim', hsteps, hevents⟩ | ⟨hcrash, -⟩
    swap
    · exact absurd hcrash (not_crashed h hlist (run.step last))
    refine ⟨T', sts', ?_, hsim', chronicle_step hchronicle hsim last hturns' hsim' hsteps,
      fun he => ?_, fun ph got acted he => ?_⟩
    · rw [List.filterMap_append]
      exact hturns.trans hturns'
    · rcases List.mem_append.mp he with he | he
      · exact herror he
      · obtain ⟨a, p, t, ht, hp⟩ := hevents.error he
        obtain ⟨t0, ht0, -⟩ := (turnOk_run h.valid.ok hturns).2.cargo a p t ht
        obtain ⟨airline, hairline, hplane, -, -⟩ := Setup.get_init ht0
        exact ⟨airline, hairline, hp.trans (List.getElem?_eq_some_iff.mp hplane).1⟩
    · rcases List.mem_append.mp he with he | he
      · exact hreceive ph got acted he
      · exact hevents.receive ph got acted he

/-- **The barrier.** Airlines take the start messages of a turn and report once in each phase, in
that order, and have done all of it between two turns. Every report is justified, and nobody takes
a message that it does not expect. -/
theorem barrier_run (h : Setup map airlines) (hlist : Listing map)
    (hten : ∀ airline ∈ airlines, airline.planes.length ≤ 10)
    (hrun : Run (reliableStep cfg) (System.init map airlines) tr s) :
    (∀ a < airlines.length,
      tr.filterMap (Event.signal a) <+: (List.replicate s.turn turnSignals).flatten ∧
      (s.AtBoundary →
        tr.filterMap (Event.signal a) = (List.replicate s.turn turnSignals).flatten)) ∧
    (∀ before a msg flags after ph, tr = before ++ .sent a msg flags :: after →
      msg.reports = some ph → Justified before a msg flags ph) ∧
    (∀ ph got acted, .receive ph got acted ∈ tr →
      ∃ msg, got = some msg ∧ acted = some msg ∧ handled ph msg = true) ∧
    .error ∉ tr := by
  obtain ⟨T, sts, hturns, hsim, hchronicle, herror, hreceive⟩ := chronicle_run h hlist hrun
  refine ⟨fun a ha => ?_, fun before a msg flags after ph htr hmsg =>
    hchronicle.reported before _ after htr a msg flags ph rfl hmsg, hreceive, fun he => ?_⟩
  · have hlen : s.airlines.length = airlines.length := by
      have := congrArg List.length (turn_lengths hturns)
      rw [List.length_map, List.length_map] at this
      rw [← hsim.length, this]
      exact List.length_map _
    obtain ⟨A, ts, st, hat⟩ := hsim.exists_at (a := a) (by rw [hlen]; exact ha)
    have htold := hchronicle.told a A ts st hat
    have hturn := hsim.turn
    have hrest : s.pc.turns = 0 →
        tr.filterMap (Event.signal a) = (List.replicate s.turn turnSignals).flatten := by
      intro hpc
      obtain ⟨hphase, hnone⟩ := hsim.signals_of_turns hpc (List.mem_of_getElem? hat.status)
      rw [htold.signals, hnone, Turn.pastSignals, hphase, hturn, hpc]
      simp
    refine ⟨?_, fun hb => hrest (by rw [show s.pc = .head from hb]; rfl)⟩
    by_cases hpc : s.pc.turns = 0
    · rw [hrest hpc]
    · have hone : s.pc.turns = 1 := by
        cases hs : s.pc <;> simp [hs, MapPc.turns] at hpc ⊢
      rw [hturn, hone]
      exact htold.prefix_turns
  · obtain ⟨airline, hairline, hlt⟩ := herror he
    have := hten airline hairline
    omega

end Runs

theorem barrier_run_trio :
    ∃ tr s, Run (reliableStep someConfig) (System.init trioMap trioAirlines) tr s ∧ s.turn = 1 ∧
      tr.filterMap (Event.signal 0) = turnSignals ∧ .error ∉ tr := by
  obtain ⟨tr, s, hexec, hb, hturn⟩ : ∃ tr s,
      exec (reliableStep someConfig) (System.init trioMap trioAirlines) firstTurn = some (tr, s) ∧
        s.pc = .head ∧ s.turn = 1 :=
    ⟨_, _, rfl, rfl, rfl⟩
  have hrun := run_of_exec hexec
  obtain ⟨hsignals, -, -, hnone⟩ :=
    barrier_run setup_trio listing_trio (by decide) hrun
  refine ⟨tr, s, hrun, hturn, ?_, hnone⟩
  rw [(hsignals 0 (by decide)).2 hb, hturn]
  rfl

end PlaneSim
