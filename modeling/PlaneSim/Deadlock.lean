import PlaneSim.Reporting

/-!
# No deadlock

The threads wait on each other for messages, for room in an inbox and for two locks. With room for
one message in every inbox some thread can always go on, until all of them are through
(`progress_or_final`).

1. What a thread waits for (`PlaneWaits`, `ListenWaits`).
2. Who holds a lock goes on (`Stuck.conn_free`, `Stuck.left_free`), so that a stuck airline waits
   for messages only.
3. What the map waits for is on its way (`Sim.enabled`).
4. End reaches every plane that is not retired (`EndSince`).
-/

namespace PlaneSim

open Lts Update Lock

/-! ## Waiting -/

/-- What a plane thread that cannot go on waits for. -/
inductive PlaneWaits (room : Bool) (A : AirlineState) (P : PlaneThread) : PlanePc → Prop where
  | top (done : P.done = false) (queue : P.queue = []) : PlaneWaits room A P .top
  | reply (phase : Phase) (queue : P.queue = []) : PlaneWaits room A P (.reply phase)
  | cont (queue : P.queue = []) : PlaneWaits room A P .cont
  | lockConn (phase : Phase) (conn : A.conn ≠ none) : PlaneWaits room A P (.lockConn phase)
  | send (phase : Phase) (full : room = false) : PlaneWaits room A P (.send phase)
  | lockLeft (phase : Phase) (left : A.leftLock ≠ none) : PlaneWaits room A P (.lockLeft phase)
  | reportLock (phase : Phase) (msg : PlaneMessage) (conn : A.conn ≠ none) :
      PlaneWaits room A P (.report phase (.lockConn msg))
  | reportSend (phase : Phase) (msg : PlaneMessage) (full : room = false) :
      PlaneWaits room A P (.report phase (.send msg))
  | exited : PlaneWaits room A P .exited

/-- What a listener that cannot go on waits for; no plane's queue is full. -/
inductive ListenWaits (room : Bool) (A : AirlineState) : ListenPc → Prop where
  | recv (inbox : A.inbox = []) : ListenWaits room A .recv
  | lockLeft (phase : Phase) (left : A.leftLock ≠ none) : ListenWaits room A (.lockLeft phase)
  | reportLock (msg : PlaneMessage) (conn : A.conn ≠ none) :
      ListenWaits room A (.report (.lockConn msg))
  | reportSend (msg : PlaneMessage) (full : room = false) : ListenWaits room A (.report (.send msg))
  | join (i : ℕ) (P : PlaneThread) (at_i : A.planes[i]? = some P) (running : P.pc ≠ .exited) :
      ListenWaits room A (.join i)
  | stopped : ListenWaits room A .stopped

/-- A report in progress waits for the connection or for room. -/
theorem reportStep_waits {a : ℕ} {room : Bool} {A : AirlineState} {thread : Thread} {pc : ReportPc}
    (h : reportStep a room A thread pc = none) :
    (∃ msg, pc = .lockConn msg ∧ A.conn ≠ none) ∨ ∃ msg, pc = .send msg ∧ room = false := by
  cases pc with
  | stage =>
    rw [reportStep] at h
    cases hs : A.stage <;> rw [hs] at h <;> cases h
  | count i flying =>
    rw [reportStep] at h
    cases hP : A.planes[i]? <;> rw [hP] at h <;> cases h
  | lockConn msg =>
    rw [reportStep] at h
    split at h
    · cases h
    · exact .inl ⟨msg, rfl, ‹_›⟩
  | send msg =>
    rw [reportStep] at h
    split at h
    · cases h
    · exact .inr ⟨msg, rfl, by simpa using ‹¬room = true›⟩
  | unlockConn => cases h

theorem planeStep_waits {a : ℕ} {room : Bool} {A : AirlineState} {p : ℕ} {P : PlaneThread}
    (hP : A.planes[p]? = some P) (h : planeStep a room A p = none) : PlaneWaits room A P P.pc := by
  simp only [planeStep, hP, Option.bind_eq_bind, Option.bind_some] at h
  cases hpc : P.pc with
  | top =>
    simp only [hpc] at h
    split at h
    · cases h
    · rename_i hdone
      split at h
      · exact .top (by simpa using hdone) ‹_›
      · cases h
      · cases h
      · cases h
  | safe action =>
    simp only [hpc] at h
    split at h <;> cases h
  | lockConn phase =>
    simp only [hpc] at h
    split at h
    · cases h
    · exact .lockConn phase ‹_›
  | send phase =>
    simp only [hpc] at h
    split at h
    · cases h
    · split at h
      · cases h
      · exact .send phase (by simpa using ‹¬room = true›)
  | unlockConn phase | dec phase | unlockLeft phase =>
    simp only [hpc] at h
    cases h
  | reply phase =>
    simp only [hpc] at h
    split at h
    · exact .reply phase ‹_›
    · split at h <;> cases h
  | cont =>
    simp only [hpc] at h
    split at h
    · exact .cont ‹_›
    · split at h <;> cases h
    · cases h
  | lockLeft phase =>
    simp only [hpc] at h
    split at h
    · cases h
    · exact .lockLeft phase ‹_›
  | report phase pc =>
    simp only [hpc, Option.map_eq_none_iff] at h
    rcases reportStep_waits h with ⟨msg, rfl, hconn⟩ | ⟨msg, rfl, hroom⟩
    · exact .reportLock phase msg hconn
    · exact .reportSend phase msg hroom
  | exited => exact .exited

theorem pushMessage_ne_none {P : PlaneThread} (h : P.queue.length ≤ 1) (msg : Message) :
    pushMessage P msg ≠ none := by
  unfold pushMessage QUEUE_SIZE
  rw [if_pos (by omega)]
  simp

theorem listenStep_waits {a : ℕ} {room : Bool} {A : AirlineState}
    (hqueue : ∀ P ∈ A.planes, P.queue.length ≤ 1) (h : listenStep a room A = none) :
    ListenWaits room A A.pc := by
  unfold listenStep at h
  cases hpc : A.pc with
  | recv =>
    simp only [hpc] at h
    cases hinbox : A.inbox with
    | nil => exact .recv hinbox
    | cons msg inbox =>
      rw [hinbox] at h
      cases msg <;> cases h
  | lockLeft phase =>
    simp only [hpc] at h
    split at h
    · cases h
    · exact .lockLeft phase ‹_›
  | scan phase i =>
    simp only [hpc] at h
    split at h <;> cases h
  | report pc =>
    simp only [hpc, Option.map_eq_none_iff] at h
    rcases reportStep_waits h with ⟨msg, rfl, hconn⟩ | ⟨msg, rfl, hroom⟩
    · exact .reportLock msg hconn
    · exact .reportSend msg hroom
  | bcast phase i | finish i =>
    simp only [hpc] at h
    split at h
    · rename_i P hP
      split at h
      · cases h
      · rw [Option.map_eq_none_iff] at h
        exact absurd h (pushMessage_ne_none (hqueue P (List.mem_of_getElem? hP)) _)
    · cases h
  | unlockLeft =>
    simp only [hpc] at h
    cases h
  | push id msg =>
    simp only [hpc] at h
    split at h
    · rename_i P hP
      rw [Option.map_eq_none_iff] at h
      obtain ⟨i, -, hi⟩ := getFromVector_eq_some hP
      exact absurd h (pushMessage_ne_none (hqueue P (List.mem_of_getElem? hi)) _)
    · cases h
  | join i =>
    simp only [hpc] at h
    split at h
    · rename_i P hP
      split at h
      · cases h
      · exact .join i P hP ‹_›
    · cases h
  | stopped => exact .stopped

/-! ## A stuck airline -/

/-- No thread of the airline can go on. -/
structure Stuck (a : ℕ) (room : Bool) (A : AirlineState) : Prop where
  listener : listenStep a room A = none
  plane : ∀ p, planeStep a room A p = none

/-- What a plane of a stuck airline waits for: a message. -/
inductive Resting (P : PlaneThread) : PlanePc → Prop where
  | top (done : P.done = false) (queue : P.queue = []) : Resting P .top
  | reply (phase : Phase) (queue : P.queue = []) : Resting P (.reply phase)
  | cont (queue : P.queue = []) : Resting P .cont
  | exited : Resting P .exited

section Airline

variable {a : ℕ} {room : Bool} {ph : Phase} {st : Status} {A : AirlineState} {ts : List TurnPlane}
  {out : List PlaneMessage} {pend : List MapMessage} {p : ℕ} {P : PlaneThread}

/-- No queue of a plane is ever full. -/
theorem AirlineOk.queue_le (h : AirlineOk a ph st A ts out pend) (hP : P ∈ A.planes) :
    P.queue.length ≤ 1 := by
  obtain ⟨p, hp⟩ := List.mem_iff_getElem?.mp hP
  obtain ⟨t, ht⟩ := h.exists_abstract hp
  exact (h.planeOk hp ht).queue_le

theorem Stuck.waits (h : Stuck a room A) (hok : AirlineOk a ph st A ts out pend) :
    ListenWaits room A A.pc :=
  listenStep_waits (fun _ => hok.queue_le) h.listener

/-- Who holds the connection needs only room. -/
theorem Stuck.conn_free (h : Stuck a true A) (hok : AirlineOk a ph st A ts out pend) :
    A.conn = none := by
  refine hok.conn.free fun x hx => ?_
  cases x with
  | listener =>
    have hx : A.pc.holdsConn = true := hx
    have hw := h.waits hok
    generalize A.pc = pc at hx hw
    cases hw with
    | reportSend msg full => cases full
    | recv | lockLeft _ _ | reportLock _ _ | join _ _ _ _ | stopped => cases hx
  | plane p =>
    obtain ⟨P, hP, hx⟩ := hx
    have hw := planeStep_waits hP (h.plane p)
    generalize P.pc = pc at hx hw
    cases hw with
    | send phase full => cases full
    | reportSend phase msg full => cases full
    | top _ _ | reply _ _ | cont _ | lockConn _ _ | lockLeft _ _ | reportLock _ _ _ | exited =>
      cases hx

/-- Who holds `planesLeftLock` needs at most the connection. -/
theorem Stuck.left_free (h : Stuck a true A) (hok : AirlineOk a ph st A ts out pend) :
    A.leftLock = none := by
  have hconn := h.conn_free hok
  refine hok.left.free fun x hx => ?_
  cases x with
  | listener =>
    have hx : A.pc.holdsLeft = true := hx
    have hw := h.waits hok
    generalize A.pc = pc at hx hw
    cases hw with
    | reportLock msg conn => exact conn hconn
    | reportSend msg full => cases full
    | recv | lockLeft _ _ | join _ _ _ _ | stopped => cases hx
  | plane p =>
    obtain ⟨P, hP, hx⟩ := hx
    have hw := planeStep_waits hP (h.plane p)
    generalize P.pc = pc at hx hw
    cases hw with
    | reportLock phase msg conn => exact conn hconn
    | reportSend phase msg full => cases full
    | top _ _ | reply _ _ | cont _ | lockConn _ _ | send _ _ | lockLeft _ _ | exited => cases hx

theorem Stuck.resting (h : Stuck a true A) (hok : AirlineOk a ph st A ts out pend)
    (hP : A.planes[p]? = some P) : Resting P P.pc := by
  have hconn := h.conn_free hok
  have hleft := h.left_free hok
  have hw := planeStep_waits hP (h.plane p)
  generalize P.pc = pc at hw ⊢
  cases hw with
  | top done queue => exact .top done queue
  | reply phase queue => exact .reply phase queue
  | cont queue => exact .cont queue
  | exited => exact .exited
  | lockConn phase conn | reportLock phase msg conn => exact absurd hconn conn
  | lockLeft phase left => exact absurd hleft left
  | send phase full | reportSend phase msg full => cases full

/-- With no message on its way, a resting plane has no part in the phase. -/
theorem Resting.inactive {ending : Bool} {t : TurnPlane} (h : Resting P P.pc)
    (hok : PlaneOk a ph ending P t [] []) : P.active = false ∧ P.reporting = false := by
  have hs := hok.station
  generalize hpc : P.pc = pc at h hs
  cases h with
  | top done queue | cont queue =>
    simp [PlaneThread.active, PlaneThread.reporting, hpc, PlanePc.station, queue]
  | exited => simp [PlaneThread.active, PlaneThread.reporting, hpc, PlanePc.station]
  | reply phase queue =>
    obtain ⟨-, -, hasked⟩ := hs
    rw [queue] at hasked
    cases hasked with
    | request msg _ _ _ _ _ rq _ => cases rq
    | reply msg _ _ _ rp => cases rp

/-- A stuck airline with no message on its way has not begun, is counted, or is through. -/
theorem Stuck.idle (h : Stuck a true A) (hok : AirlineOk a ph st A ts [] []) :
    st = .waiting ∨ st = .counted ∨
      st = .ending ∧ A.pc = .stopped ∧ ∀ P ∈ A.planes, P.pc = .exited := by
  have hw := h.waits hok
  have hconn := h.conn_free hok
  have hleft := h.left_free hok
  have hs := hok.status
  have htold : ∀ {st}, Quiet ph st A ts [] [] → st.inbox ph ≠ [] → False := by
    intro st hq hne
    rw [← hq.inbox] at hne
    rcases hq.listener with hpc | hpc | hpc
    · rw [hpc] at hw
      cases hw with
      | recv inbox => exact hne inbox
    · rw [hpc] at hw
      cases hw
    · rw [hpc] at hw
      cases hw
  cases st with
  | waiting => exact .inl rfl
  | counted => exact .inr (.inl rfl)
  | told => exact (htold hs (by simp [Status.inbox])).elim
  | toldEnd => exact (htold hs (by simp [Status.inbox])).elim
  | reported =>
    have hout := Quiet.out hs
    rw [if_pos rfl] at hout
    obtain ⟨msg, hmsg, -⟩ := hout
    cases hmsg
  | busy =>
    obtain ⟨-, -, hbusy⟩ := hs
    generalize hpc : A.pc = pc at hw hbusy
    cases hw with
    | recv inbox =>
      -- nobody is active, and then somebody reports
      have hcarried : A.carried [] = [] := by
        simp [AirlineState.carried, hpc, inbox, pushed]
      have hrest : ∀ P ∈ A.planes, P.active = false ∧ P.reporting = false := by
        intro P hP
        obtain ⟨p, hp⟩ := List.mem_iff_getElem?.mp hP
        obtain ⟨t, ht⟩ := hok.exists_abstract hp
        have hplane := hok.planeOk hp ht
        rw [hcarried] at hplane
        exact (h.resting hok hp).inactive hplane
      have hbusy : Flying a ph A ts := hbusy
      have hzero : A.planesLeft = 0 := by
        rw [hbusy.left, List.countP_eq_zero.mpr fun P hP => by rw [(hrest P hP).1]; simp]
        rfl
      obtain ⟨P, hP, hreporting⟩ := hbusy.reporter hzero
      rw [(hrest P hP).2] at hreporting
      cases hreporting
    | lockLeft phase left => exact absurd hleft left
    | reportLock msg conn => exact absurd hconn conn
    | reportSend msg full => cases full
    | join i P at_i running => exact hbusy.elim
    | stopped => exact hbusy.elim
  | ending =>
    obtain ⟨-, -, -, -, hinactive, hending⟩ := hs
    generalize hpc : A.pc = pc at hw hending
    cases hw with
    | stopped => exact .inr (.inr ⟨rfl, rfl, hending⟩)
    | join i P at_i running =>
      obtain ⟨-, htold, -⟩ := hending
      have hmem := List.mem_of_getElem? at_i
      obtain ⟨t, ht⟩ := hok.exists_abstract at_i
      have hawake := (hok.planeOk at_i ht).awake
      have hrest := h.resting hok at_i
      have hact := (hinactive P hmem).1
      rcases htold P hmem with hdone | hqueue
      · generalize hP : P.pc = pc at hrest hawake running
        cases hrest with
        | top done _ =>
          rw [hdone] at done
          cases done
        | reply phase _ => simp [PlaneThread.active, hP, PlanePc.station] at hact
        | cont _ =>
          rw [hdone] at hawake
          cases hawake (.inr rfl)
        | exited => exact absurd rfl running
      · generalize P.pc = pc at hrest running
        cases hrest with
        | top _ queue | reply _ queue | cont queue =>
          rw [hqueue] at queue
          cases queue
        | exited => exact absurd rfl running
    | recv inbox => exact hending.elim
    | lockLeft _ _ | reportLock _ _ | reportSend _ _ => exact hending.elim

/-- A listener that waits while a reply for it does not fit has room in its inbox. -/
theorem Stuck.inbox_of_pend (h : Stuck a room A) (hok : AirlineOk a ph st A ts out pend)
    (hpend : pend ≠ []) : A.inbox = [] := by
  have hw := h.waits hok
  have hs := hok.status
  cases st with
  | waiting | told | reported | counted | toldEnd => exact absurd (Quiet.pend hs) hpend
  | ending => exact absurd hs.2.2.2.1 hpend
  | busy =>
    obtain ⟨-, hown, hbusy⟩ := hs
    have hcalm : (Planes A ts fun _ => Calm true) → A.inbox = [] := by
      intro hcalm
      refine (hok.nothing hown fun P hP => ?_).2.1
      obtain ⟨p, hp⟩ := List.mem_iff_getElem?.mp hP
      obtain ⟨t, ht⟩ := hok.exists_abstract hp
      exact (hcalm p P t hp ht).active
    generalize A.pc = pc at hw hbusy
    cases hw with
    | recv inbox => exact inbox
    | lockLeft phase left => exact hcalm hbusy.2
    | reportLock msg conn | reportSend msg full => exact hcalm hbusy.1
    | join _ _ _ _ => exact hbusy.elim
    | stopped => exact hbusy.elim

end Airline

/-! ## The system -/

/-- The simulation is over: the map has returned and every thread has ended. -/
structure Final (s : System) : Prop where
  map : s.pc = .halted
  listener : ∀ A ∈ s.airlines, A.pc = .stopped
  plane : ∀ A ∈ s.airlines, ∀ P ∈ A.planes, P.pc = .exited

/-- Some thread can go on. -/
def Enabled (cfg : Config) (s : System) : Prop :=
  ∃ action es s', action ≠ .exit ∧ reliableStep cfg s action = some (es, s')

section System

variable {cfg : Config} {s s' : System} {T T' : Turn} {sts sts' : List Status} {a : ℕ}
  {A : AirlineState} {ts : List TurnPlane} {st : Status}

/-- There is room for one message in an empty inbox. -/
theorem Config.room_zero (hcap : ∀ capacity, cfg.capacity = some capacity → 1 ≤ capacity) :
    cfg.room 0 = true := by
  unfold Config.room
  cases h : cfg.capacity with
  | none => rfl
  | some capacity => exact decide_eq_true (hcap capacity h)

theorem mapStep_of_not_enabled (h : ¬Enabled cfg s) : mapStep cfg s = none := by
  cases hstep : mapStep cfg s with
  | none => rfl
  | some x => exact absurd ⟨.map, x.1, x.2, by simp, hstep⟩ h

theorem stuck_of_not_enabled (h : ¬Enabled cfg s) (hA : s.airlines[a]? = some A) :
    Stuck a (cfg.room s.inbox.length) A where
  listener := by
    cases hstep : listenStep a (cfg.room s.inbox.length) A with
    | none => rfl
    | some x =>
      refine absurd ⟨.listener a, (s.update a x).1, (s.update a x).2, by simp, ?_⟩ h
      simp [reliableStep, Action.reliable, step, hA, hstep]
  plane p := by
    cases hstep : planeStep a (cfg.room s.inbox.length) A p with
    | none => rfl
    | some x =>
      refine absurd ⟨.plane a p, (s.update a x).1, (s.update a x).2, by simp, ?_⟩ h
      simp [reliableStep, Action.reliable, step, hA, hstep]

/-- An airline with room in its inbox takes the message. -/
theorem deliver_ne_none (hA : s.airlines[a]? = some A) (hroom : cfg.room A.inbox.length = true)
    (msg : MapMessage) : s.deliver cfg a msg ≠ none := by
  simp [System.deliver, hA, hroom]

/-- The next airline to be told has an empty inbox. -/
theorem Sim.tell_ne_none (h : Sim s T sts) (hcap : ∀ capacity, cfg.capacity = some capacity →
    1 ≤ capacity) (ha : a < s.airlines.length) (hst : ∀ st, sts[a]? = some st → st = .waiting)
    (msg : MapMessage) : s.deliver cfg a msg ≠ none := by
  obtain ⟨A, ts, st, hat⟩ := h.exists_at ha
  obtain rfl := hst st hat.status
  have hinbox : A.inbox = [] := Quiet.inbox (h.airline a A ts _ hat).status
  refine deliver_ne_none hat.system ?_ msg
  rw [hinbox]
  exact Config.room_zero hcap

/-- With an empty inbox, a stuck system has no airline underway. -/
theorem Sim.idle_of_stuck (h : Sim s T sts) (hcap : ∀ capacity, cfg.capacity = some capacity →
    1 ≤ capacity) (hnot : ¬Enabled cfg s) (hinbox : s.inbox = []) (hpend : ∀ b, s.pc.pend b = [])
    (hat : At s T sts a A ts st) :
    st = .waiting ∨ st = .counted ∨
      st = .ending ∧ A.pc = .stopped ∧ ∀ P ∈ A.planes, P.pc = .exited := by
  have hok := h.airline a A ts st hat
  have hout : s.out a = [] := by rw [System.out, hinbox]; rfl
  rw [hout, hpend] at hok
  have hstuck := stuck_of_not_enabled hnot hat.system
  rw [hinbox, List.length_nil, Config.room_zero hcap] at hstuck
  exact hstuck.idle hok

/-- **No deadlock.** Some thread can go on, or all are through. -/
theorem Sim.enabled (h : Sim s T sts) (hcap : ∀ capacity, cfg.capacity = some capacity →
    1 ≤ capacity) : Enabled cfg s ∨ Final s := by
  by_cases hen : Enabled cfg s
  · exact .inl hen
  right
  have hnone := mapStep_of_not_enabled hen
  have hmap := h.pc
  unfold PlaneSim.mapStep at hnone
  cases hpc : s.pc with
  | head =>
    simp only [hpc] at hnone
    split at hnone <;> cases hnone
  | send w i | finish i =>
    rw [hpc] at hmap
    simp only [hpc] at hnone
    split at hnone
    · rename_i hi
      rw [Option.map_eq_none_iff] at hnone
      refine absurd hnone (h.tell_ne_none hcap hi (fun st hst => ?_) _)
      have := hmap.2.2 i st hst
      rwa [if_neg (lt_irrefl i)] at this
    · cases hnone
  | recv w i =>
    rw [hpc] at hmap
    obtain ⟨-, hphase, hcount⟩ := hmap
    simp only [hpc] at hnone
    split at hnone
    · cases hnone
    · rename_i hi
      cases hinbox : s.inbox with
      | cons x inbox =>
        rw [hinbox] at hnone
        cases hnone
      | nil =>
        -- every airline is counted, so the loop is over
        have hall : ∀ st ∈ sts, Status.counted = st := by
          intro st hst
          obtain ⟨b, hb⟩ := List.mem_iff_getElem?.mp hst
          obtain ⟨A, ts, st', hat⟩ := h.exists_at (a := b)
            (by rw [← h.statuses]; exact (List.getElem?_eq_some_iff.mp hb).1)
          cases hb.symm.trans hat.status
          rcases h.idle_of_stuck hcap hen hinbox (fun _ => by rw [hpc]; rfl) hat with
            rfl | rfl | ⟨rfl, -⟩
          · exact absurd (hphase _ hst) (by simp [Status.Underway])
          · rfl
          · exact absurd (hphase _ hst) (by simp [Status.Underway])
        have := List.count_eq_length.mpr hall
        rw [h.statuses] at this
        omega
  | reply w i airline msg =>
    rw [hpc] at hmap
    obtain ⟨-, -, -, b, hb, rfl⟩ := hmap
    obtain ⟨A, ts, st, hat⟩ := h.exists_at (a := b) (by rw [← h.statuses]; exact hb)
    have hok := h.airline b A ts st hat
    have hpend : s.pc.pend b = [msg] := by rw [hpc]; simp [MapPc.pend]
    have hinbox := (stuck_of_not_enabled hen hat.system).inbox_of_pend hok (by rw [hpend]; simp)
    simp only [hpc] at hnone
    rw [getFromVector_natCast, hat.system] at hnone
    simp only [Int.toNat_natCast, Option.map_eq_none_iff] at hnone
    refine absurd hnone (deliver_ne_none hat.system ?_ msg)
    rw [hinbox]
    exact Config.room_zero hcap
  | halted =>
    rw [hpc] at hmap
    obtain ⟨-, hleaving⟩ := hmap
    have hinbox : s.inbox = [] := by
      by_contra hne
      obtain ⟨⟨b, msg⟩, hmem⟩ := List.exists_mem_of_ne_nil _ hne
      obtain ⟨A, ts, st, hat⟩ := h.exists_at (h.inbox _ hmem)
      have hs := (h.airline b A ts st hat).status
      have hout : s.out b = [] := by
        rcases hleaving st (List.mem_of_getElem? hat.status) with rfl | rfl
        · exact Quiet.out hs
        · exact hs.2.2.1
      have hin : msg ∈ s.out b := List.mem_filterMap.mpr ⟨(b, msg), hmem, by simp⟩
      rw [hout] at hin
      cases hin
    have hover : ∀ A ∈ s.airlines, A.pc = .stopped ∧ ∀ P ∈ A.planes, P.pc = .exited := by
      intro A hA
      obtain ⟨b, hb⟩ := List.mem_iff_getElem?.mp hA
      obtain ⟨ts, st, hat⟩ := h.exists_at_of_system hb
      have hst := hleaving st (List.mem_of_getElem? hat.status)
      rcases h.idle_of_stuck hcap hen hinbox (fun _ => by rw [hpc]; rfl) hat with
        rfl | rfl | ⟨-, hstopped⟩
      · simp [Status.Leaving] at hst
      · simp [Status.Leaving] at hst
      · exact hstopped
    exact ⟨hpc, fun A hA => (hover A hA).1, fun A hA => (hover A hA).2⟩
  | crashed =>
    rw [hpc] at hmap
    exact hmap.elim

end System

/-! ## End -/

/-- The listener has taken End. -/
def ListenPc.ends : ListenPc → Bool
  | .finish _ => true
  | .join _ => true
  | .stopped => true
  | _ => false

/-- Since airline `a` has taken End, with its planes as in `planes`, every one of them that was not
retired has been told, or has not been yet. -/
def EndSince (a : ℕ) (tr : List Event) (A : AirlineState) : Prop :=
  ∃ before planes after, tr = before ++ .got a .finish planes :: after ∧
    planes.length = A.planes.length ∧
    ∀ p P distance, planes[p]? = some (false, distance) → A.planes[p]? = some P →
      .ended a p ∈ after ∨ P.queue = [] ∧ P.done = false

section End

variable {cfg : Config} {s s' : System} {T T' : Turn} {sts sts' : List Status} {a : ℕ}
  {A A' : AirlineState} {ts ts' : List TurnPlane} {st st' : Status} {tr es : List Event} {ph : Phase}
  {out : List PlaneMessage} {pend : List MapMessage}

theorem ends_cases {pc : ListenPc} (h : pc.ends = true) :
    (∃ i, pc = .finish i) ∨ (∃ i, pc = .join i) ∨ pc = .stopped := by
  cases pc with
  | finish i => exact .inl ⟨i, rfl⟩
  | join i => exact .inr (.inl ⟨i, rfl⟩)
  | stopped => exact .inr (.inr rfl)
  | recv | lockLeft _ | scan _ _ | report _ | bcast _ _ | unlockLeft | push _ _ => cases h

/-- A listener ends by taking End. -/
theorem AirlineOk.takes_end {room : Bool} {sent : Option PlaneMessage}
    (h : AirlineOk a ph st A ts out pend) (hstep : listenStep a room A = some (es, A', sent))
    (hno : A.pc.ends = false) (hend : A'.pc.ends = true) :
    es = [.got a .finish A.snapshot] ∧ A'.pc = .finish 0 ∧ A'.planes = A.planes := by
  unfold listenStep at hstep
  cases hpc : A.pc with
  | recv =>
    simp only [hpc] at hstep
    cases hinbox : A.inbox with
    | nil =>
      rw [hinbox] at hstep
      cases hstep
    | cons msg inbox =>
      rw [hinbox] at hstep
      cases msg with
      | finish =>
        cases hstep
        exact ⟨rfl, rfl, rfl⟩
      | start _ | stock _ | destinations _ =>
        cases hstep
        cases hend
  | lockLeft phase =>
    simp only [hpc] at hstep
    split at hstep <;> cases hstep
    cases hend
  | scan phase i =>
    simp only [hpc] at hstep
    split at hstep <;> cases hstep
    · cases hend
    · dsimp only at hend
      split at hend <;> cases hend
  | report pc =>
    simp only [hpc] at hstep
    obtain ⟨r, -, hnew⟩ := Option.map_eq_some_iff.mp hstep
    cases hnew
    dsimp only at hend
    split at hend <;> cases hend
  | bcast phase i =>
    simp only [hpc] at hstep
    split at hstep
    · split at hstep
      · cases hstep
        cases hend
      · obtain ⟨P, -, hnew⟩ := Option.map_eq_some_iff.mp hstep
        cases hnew
        cases hend
    · cases hstep
      cases hend
  | unlockLeft =>
    simp only [hpc] at hstep
    cases hstep
    cases hend
  | push id msg =>
    -- the reply is for one of the planes
    obtain ⟨-, -, hown, -⟩ := h.busy_of_pc (by rw [hpc]; simp) (by
      rw [hpc]
      exact fun h => h)
    obtain ⟨p, hp, hid⟩ := hown.carried (id, msg) (by simp [AirlineState.carried, pushed, hpc])
    have hid : id = (p : ℕ) := hid
    simp only [hpc] at hstep
    rw [hid, getFromVector_natCast, List.getElem?_eq_getElem hp] at hstep
    obtain ⟨P, -, hnew⟩ := Option.map_eq_some_iff.mp hstep
    cases hnew
    cases hend
  | finish _ | join _ | stopped =>
    rw [hpc] at hno
    cases hno

/-- A plane leaves the listener where it is. -/
theorem pc_planeStep {room : Bool} {p : ℕ} {r : AirlineStep}
    (h : planeStep a room A p = some r) : r.2.1.pc = A.pc := by
  unfold planeStep at h
  obtain ⟨P, -, h⟩ := Option.bind_eq_some_iff.mp h
  cases hpc : P.pc with
  | report phase pc =>
    simp only [hpc] at h
    obtain ⟨r, -, rfl⟩ := Option.map_eq_some_iff.mp h
    rfl
  | top | safe action | lockConn phase | send phase | reply phase | cont | lockLeft phase =>
    simp only [hpc] at h
    repeat' split at h
    all_goals first | cases h; rfl | cases h
  | unlockConn phase | dec phase | unlockLeft phase =>
    simp only [hpc] at h
    cases h
    rfl
  | exited =>
    simp only [hpc] at h
    cases h

/-- So does the map. -/
theorem pc_mapStep (h : mapStep cfg s = some (es, s')) (hA : s.airlines[a]? = some A)
    (hA' : s'.airlines[a]? = some A') : A'.pc = A.pc := by
  have hself : s'.airlines = s.airlines → A'.pc = A.pc := by
    intro hsame
    rw [hsame, hA] at hA'
    cases hA'
    rfl
  have hwrite : ∀ {b : ℕ} {B : AirlineState} {msg : MapMessage}, s.airlines[b]? = some B →
      s'.airlines = s.airlines.set b { B with inbox := B.inbox ++ [msg] } → A'.pc = A.pc := by
    intro b B msg hB hsame
    rw [hsame] at hA'
    refine forall_getElem?_set hB (Q := fun a X => ∀ A, s.airlines[a]? = some A → X.pc = A.pc)
      (fun a X _ hX A hA => ?_) (fun A hA => ?_) a A' hA' A hA
    · cases hX.symm.trans hA
      rfl
    · cases hB.symm.trans hA
      rfl
  cases mapMove_of_mapStep h with
  | turn hpc => exact hself rfl
  | leave hpc => exact hself rfl
  | start hpc hB => exact hwrite hB rfl
  | listen hpc hall => exact hself rfl
  | next hpc => exact hself rfl
  | receive hpc hinbox => exact hself (act_frame cfg _ _ _ _).2.2
  | reply hpc hB => exact hwrite hB rfl
  | lost hpc => exact hself rfl
  | finish hpc hB => exact hwrite hB rfl
  | halt hpc => exact hself rfl

/-- The step in which an airline begins to end. -/
theorem Sim.takes_end {action : Action} (h : Sim s T sts)
    (hstep : reliableStep cfg s action = some (es, s')) (hA : s.airlines[a]? = some A)
    (hA' : s'.airlines[a]? = some A') (hno : A.pc.ends = false) (hend : A'.pc.ends = true) :
    es = [.got a .finish A.snapshot] ∧ A'.pc = .finish 0 ∧ A'.planes = A.planes := by
  have hsame : A'.pc = A.pc →
      es = [.got a .finish A.snapshot] ∧ A'.pc = .finish 0 ∧ A'.planes = A.planes := by
    intro hpc
    rw [hpc, hno] at hend
    cases hend
  unfold reliableStep at hstep
  split at hstep
  swap
  · cases hstep
  have hother : ∀ {b : ℕ} {B : AirlineState}, b ≠ a → s'.airlines = s.airlines.set b B →
      es = [.got a .finish A.snapshot] ∧ A'.pc = .finish 0 ∧ A'.planes = A.planes := by
    intro b B hb hairlines
    rw [hairlines, List.getElem?_set_ne hb, hA] at hA'
    cases hA'
    exact hsame rfl
  have hself : ∀ {B : AirlineState}, s'.airlines = s.airlines.set a B → A' = B := by
    intro B hairlines
    rw [hairlines, List.getElem?_set_self (List.getElem?_eq_some_iff.mp hA).1] at hA'
    cases hA'
    rfl
  cases action with
  | map => exact hsame (pc_mapStep hstep hA hA')
  | listener b =>
    obtain ⟨B, hB, hstep⟩ := Option.bind_eq_some_iff.mp hstep
    obtain ⟨⟨es1, B', sent⟩, hlisten, hnew⟩ := Option.map_eq_some_iff.mp hstep
    cases hnew
    by_cases hb : b = a
    · subst hb
      cases hA.symm.trans hB
      obtain rfl := hself rfl
      obtain ⟨ts, st, hat⟩ := h.exists_at_of_system hA
      exact (h.airline b A ts st hat).takes_end hlisten hno hend
    · exact hother hb rfl
  | plane b p =>
    obtain ⟨B, hB, hstep⟩ := Option.bind_eq_some_iff.mp hstep
    obtain ⟨⟨es1, B', sent⟩, hplane, hnew⟩ := Option.map_eq_some_iff.mp hstep
    cases hnew
    by_cases hb : b = a
    · subst hb
      cases hA.symm.trans hB
      obtain rfl := hself rfl
      exact hsame (pc_planeStep hplane)
    · exact hother hb rfl
  | exit =>
    cases hstep
    cases hA.symm.trans hA'
    exact hsame rfl
  | mapFail | listenerFail b =>
    rename_i hrel
    cases hrel

/-- End is on its way to every plane that has not taken it. -/
theorem AirlineOk.told (h : AirlineOk a ph st A ts out pend)
    (hpc : (∃ i, A.pc = .join i) ∨ A.pc = .stopped) {p : ℕ} {P : PlaneThread}
    (hP : A.planes[p]? = some P) (hdone : P.done = false) : P.queue = [.finish] := by
  obtain ⟨rfl, -, -, -, -, -, hending⟩ := h.ending_of_pc (.inr hpc)
  have hmem := List.mem_of_getElem? hP
  rcases hpc with ⟨i, hpc⟩ | hpc
  · rw [hpc] at hending
    rcases hending.2.1 P hmem with hd | hqueue
    · rw [hdone] at hd
      cases hd
    · exact hqueue
  · rw [hpc] at hending
    obtain ⟨t, ht⟩ := h.exists_abstract hP
    have hstation := (h.planeOk hP ht).station
    rw [hending P hmem] at hstation
    rw [hstation.2.2.2.2.1] at hdone
    cases hdone

/-- While an airline ends, a plane waits for End. -/
theorem AirlineOk.ending_plane (h : AirlineOk a ph st A ts out pend) (hend : A.pc.ends = true)
    {p : ℕ} {P : PlaneThread} (hP : A.planes[p]? = some P) (hdone : P.done = false) :
    P.queue = [] ∨ P.queue = [.finish] := by
  rcases ends_cases hend with ⟨i, hpc⟩ | hpc
  · obtain ⟨rfl, -, -, -, -, -, hending⟩ := h.ending_of_pc (.inl ⟨i, hpc⟩)
    obtain ⟨t, ht⟩ := h.exists_abstract hP
    rw [hpc] at hending
    by_cases hlt : p < i
    · rcases hending.2.1 p P t hP ht hlt with hd | hqueue
      · rw [hdone] at hd
        cases hd
      · exact .inr hqueue
    · exact .inl (hending.2.2 p P t hP ht (not_lt.mp hlt)).1
  · exact .inr (h.told hpc hP hdone)

theorem endSince_step {action : Action}
    (h : ∀ a A, s.airlines[a]? = some A → A.pc.ends = true → EndSince a tr A) (hsim : Sim s T sts)
    (hstep : reliableStep cfg s action = some (es, s'))
    {unloads : List (List Stock × List Stock)} (hturns : Run (turnStep cfg.qsort) T unloads T')
    (hsim' : Sim s' T' sts') (hsteps : Steps s T sts es s' T' sts') :
    ∀ a A', s'.airlines[a]? = some A' → A'.pc.ends = true → EndSince a (tr ++ es) A' := by
  intro a A' hA' hend
  obtain ⟨ts', st', hat'⟩ := hsim'.exists_at_of_system hA'
  obtain ⟨A, ts, st, hat, -, hlen⟩ := At.lengths hsim hsim' hturns hat'
  have hok := hsim.airline a A ts st hat
  have hok' := hsim'.airline a A' ts' st' hat'
  by_cases hpast : A.pc.ends = true
  · obtain ⟨before, planes, after, rfl, hcount, hplanes⟩ := h a A hat.system hpast
    obtain ⟨rfl, -, -, -, -, hinactive, -⟩ := hok.ending_of_pc (ends_cases hpast)
    cases hsteps with
    | next _ counted _ _ _ _ => cases counted _ (List.mem_of_getElem? hat.status)
    | within _ _ follows =>
      have hf := follows a A ts _ A' ts' st' hat hat'
      refine ⟨before, planes, after ++ es, by simp, hcount.trans hlen.symm,
        fun p P' distance hp hP' => ?_⟩
      have hP := List.getElem?_eq_getElem (l := A.planes) (i := p)
        (by rw [← hlen]; exact (List.getElem?_eq_some_iff.mp hP').1)
      rcases hplanes p _ distance hp hP with hended | ⟨hqueue, hdone⟩
      · exact .inl (List.mem_append_left _ hended)
      have hdone' : P'.done = false := by
        rcases hf.flags p _ P' hP hP' with hsame | ⟨-, hactive | hfinish⟩
        · exact hsame.trans hdone
        · rw [(hinactive _ (List.mem_of_getElem? hP)).1] at hactive
          cases hactive
        · rw [hqueue] at hfinish
          cases hfinish
      rcases hok'.ending_plane hend hP' hdone' with hqueue' | hqueue'
      · exact .inr ⟨hqueue', hdone'⟩
      · exact .inl (List.mem_append_right _ (hf.ended p _ P' hP hP' hqueue hqueue'))
  · obtain ⟨rfl, hpc, hplanes⟩ := hsim.takes_end hstep hat.system hA' (by simpa using hpast) hend
    refine ⟨tr, A.snapshot, [], rfl, by rw [AirlineState.snapshot, List.length_map, hplanes],
      fun p P' distance hp hP' => .inr ?_⟩
    rw [AirlineState.snapshot, List.getElem?_map, ← hplanes, hP'] at hp
    obtain ⟨-, -, -, -, -, -, hending⟩ := hok'.ending_of_pc (.inl ⟨0, hpc⟩)
    obtain ⟨t', ht'⟩ := hok'.exists_abstract hP'
    rw [hpc] at hending
    exact ⟨(hending.2.2 p P' t' hP' ht' (Nat.zero_le p)).1, (Prod.mk.inj (Option.some.inj hp)).1⟩

end End

section Runs

variable {cfg : Config} {map : Map} {airlines : List Airline} {s : System} {tr : List Event}

/-- Every run tells of the End messages that its listeners have passed on. -/
theorem endSince_run (h : Setup map airlines) (hlist : Listing map)
    (hrun : Run (reliableStep cfg) (System.init map airlines) tr s) :
    ∀ a A, s.airlines[a]? = some A → A.pc.ends = true → EndSince a tr A := by
  induction hrun with
  | refl =>
    intro a A hA hend
    simp only [System.init, List.getElem?_map] at hA
    obtain ⟨airline, -, rfl⟩ := Option.map_eq_some_iff.mp hA
    cases hend
  | step run last ih =>
    obtain ⟨T, sts, -, hsim⟩ := sim_run h run (not_crashed h hlist run)
    rcases hsim.step last with ⟨T', sts', hturns, hsim', hsteps, -⟩ | ⟨hcrash, -⟩
    · exact endSince_step ih hsim last hturns hsim' hsteps
    · exact absurd hcrash (not_crashed h hlist (run.step last))

/-- **Freedom from deadlock.** In every state that a run reaches some thread can go on, or the map
has returned and all threads have ended. No queue of a plane holds more than one message, so that no
push to one blocks; and End is pushed to every plane that is not retired when it comes. -/
theorem progress_or_final (h : Setup map airlines) (hlist : Listing map)
    (hcap : ∀ capacity, cfg.capacity = some capacity → 1 ≤ capacity)
    (hrun : Run (reliableStep cfg) (System.init map airlines) tr s) :
    (Enabled cfg s ∨ Final s) ∧
    (∀ A ∈ s.airlines, ∀ P ∈ A.planes, P.queue.length ≤ 1 ∧ ∀ msg, pushMessage P msg ≠ none) ∧
    ∀ a A, s.airlines[a]? = some A → (∃ i, A.pc = .join i) ∨ A.pc = .stopped →
      ∃ before planes after, tr = before ++ .got a .finish planes :: after ∧
        ∀ p distance, planes[p]? = some (false, distance) → .ended a p ∈ after := by
  obtain ⟨T, sts, -, hsim⟩ := sim_run h hrun (not_crashed h hlist hrun)
  refine ⟨hsim.enabled hcap, fun A hA P hP => ?_, fun a A hA hpc => ?_⟩
  · obtain ⟨a, ha⟩ := List.mem_iff_getElem?.mp hA
    obtain ⟨ts, st, hat⟩ := hsim.exists_at_of_system ha
    have hle := (hsim.airline a A ts st hat).queue_le hP
    exact ⟨hle, pushMessage_ne_none hle⟩
  · obtain ⟨ts, st, hat⟩ := hsim.exists_at_of_system hA
    have hends : A.pc.ends = true := by
      rcases hpc with ⟨i, hpc⟩ | hpc <;> rw [hpc] <;> rfl
    obtain ⟨before, planes, after, htr, hcount, hplanes⟩ := endSince_run h hlist hrun a A hA hends
    refine ⟨before, planes, after, htr, fun p distance hp => ?_⟩
    have hP := List.getElem?_eq_getElem (l := A.planes) (i := p)
      (by rw [← hcount]; exact (List.getElem?_eq_some_iff.mp hp).1)
    rcases hplanes p _ distance hp hP with hended | ⟨hqueue, hdone⟩
    · exact hended
    · rw [(hsim.airline a A ts st hat).told hpc hP hdone] at hqueue
      cases hqueue

end Runs

/-- Inboxes that hold one message. -/
def tightConfig : Config := { qsort := .insertion, capacity := some 1 }

theorem progress_or_final_trio :
    ∃ tr s, Run (reliableStep tightConfig) (System.init trioMap trioAirlines) tr s ∧
      s.pc = .recv .one 0 ∧ (Enabled tightConfig s ∨ Final s) ∧
      ∀ A ∈ s.airlines, ∀ P ∈ A.planes, P.queue.length ≤ 1 := by
  obtain ⟨tr, s, hexec, hpc⟩ : ∃ tr s,
      exec (reliableStep tightConfig) (System.init trioMap trioAirlines) toUnload = some (tr, s) ∧
        s.pc = .recv .one 0 :=
    ⟨_, _, rfl, rfl⟩
  have hrun := run_of_exec hexec
  obtain ⟨hgo, hqueues, -⟩ := progress_or_final setup_trio listing_trio
    (by rintro capacity ⟨⟩; exact le_rfl) hrun
  exact ⟨tr, s, hrun, hpc, hgo, fun A hA P hP => (hqueues A hA P hP).1⟩

end PlaneSim
