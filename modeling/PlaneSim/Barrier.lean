import PlaneSim.Station

/-!
# An airline within a phase

How far an airline has come in the current phase (`Status`), and what that says about its listener,
its planes, its counter and the messages to and from it (`AirlineOk`). While it is `busy` the
listener first counts the planes that are not retired, then starts them; from then on `planesLeft`
is the number of active planes, and once it is zero exactly one plane has the report ahead of it.
-/

namespace PlaneSim

open Lts Update Lock

inductive Status where
  /-- Not started in this phase. -/
  | waiting
  /-- The start message is in its inbox. -/
  | told
  /-- Has taken the start message and not reported. -/
  | busy
  /-- The report is in the inbox of the map. -/
  | reported
  /-- The map has counted the report. -/
  | counted
  /-- End is in its inbox. -/
  | toldEnd
  | ending
deriving DecidableEq, Repr

/-- The planes that are not retired have the phase ahead of them. -/
def Status.fresh : Status → Bool
  | .waiting => true
  | .told => true
  | .toldEnd => true
  | _ => false

def Status.isEnding : Status → Bool
  | .ending => true
  | _ => false

def Status.inbox (ph : Phase) : Status → List MapMessage
  | .told => [.start ph]
  | .toldEnd => [.finish]
  | _ => []

/-! ## Messages -/

/-- The plane a request is from. -/
def PlaneMessage.owner : PlaneMessage → Option Int
  | .unloadStock msg => some msg.header.id
  | .checkDestinations msg => some msg.header.id
  | _ => none

/-- The phase a report ends. -/
def PlaneMessage.reports : PlaneMessage → Option Phase
  | .airlineDone => some .one
  | .airlineStatus _ => some .two
  | _ => none

def requestsOf (p : ℕ) (out : List PlaneMessage) : List PlaneMessage :=
  out.filter fun msg => msg.owner = some (p : Int)

def repliesTo (p : ℕ) (carried : List (Int × Message)) : List Message :=
  carried.filterMap fun x => if x.1 = (p : Int) then some x.2 else none

/-- The reply the listener is pushing. -/
def pushed : ListenPc → List (Int × Message)
  | .push id msg => [(id, msg)]
  | _ => []

/-- The replies that have not reached a plane's queue; `pend` is what the map is writing. -/
def AirlineState.carried (A : AirlineState) (pend : List MapMessage) : List (Int × Message) :=
  pushed A.pc ++ (A.inbox ++ pend).filterMap redirect

/-- Every message is a plane's. -/
structure Owned (A : AirlineState) (out : List PlaneMessage) (pend : List MapMessage) : Prop where
  out : ∀ msg ∈ out, ∃ p < A.planes.length, msg.owner = some ((p : ℕ) : Int)
  reply : ∀ msg ∈ A.inbox ++ pend, ∃ x, redirect msg = some x
  carried : ∀ x ∈ A.carried pend, ∃ p < A.planes.length, x.1 = ((p : ℕ) : Int)

/-! ## The phase of an airline -/

/-- `Q` of every plane and its abstract plane. -/
def Planes (A : AirlineState) (ts : List TurnPlane) (Q : ℕ → PlaneThread → TurnPlane → Prop) :
    Prop :=
  ∀ p P t, A.planes[p]? = some P → ts[p]? = some t → Q p P t

/-- Out of the phase: it has not begun (`fresh`) or is over for the plane. -/
structure Calm (fresh : Bool) (P : PlaneThread) (t : TurnPlane) : Prop where
  active : P.active = false
  reporting : P.reporting = false
  todo : t.todo = (fresh && !P.done)

/-- The report of a phase, from the flags of the planes. -/
def reportMessage (a : ℕ) (flags : List Bool) : Phase → PlaneMessage
  | .one => .airlineDone
  | .two => .airlineStatus (marshallSendAirlineStatus (flags.count false) flags.length a)

/-- A report on its way through `send_ready_message`. -/
def ReportOk (a : ℕ) (ph : Phase) (flags : List Bool) : ReportPc → Prop
  | .stage => True
  | .count i flying => ph = .two ∧ i ≤ flags.length ∧ flying = (flags.take i).count false
  | .lockConn msg => msg = reportMessage a flags ph
  | .send msg => msg = reportMessage a flags ph
  | .unlockConn => False

/-- The planes have been started. -/
structure Flying (a : ℕ) (ph : Phase) (A : AirlineState) (ts : List TurnPlane) : Prop where
  todo : Planes A ts fun _ P t => P.active = false → t.todo = false
  left : A.planesLeft = A.planes.countP (·.active)
  reporter : A.planesLeft = 0 → ∃ P ∈ A.planes, P.reporting = true
  report : ∀ P ∈ A.planes, ∀ ph' pc, P.pc = .report ph' pc → pc ≠ .unlockConn →
    A.planesLeft = 0 ∧ ReportOk a ph A.done pc

def Busy (a : ℕ) (ph : Phase) (A : AirlineState) (ts : List TurnPlane) : ListenPc → Prop
  | .lockLeft ph' => ph' = ph ∧ Planes A ts fun _ => Calm true
  | .scan ph' i => ph' = ph ∧ i ≤ A.planes.length ∧ (Planes A ts fun _ => Calm true) ∧
      A.planesLeft = (A.done.take i).count false
  | .report pc => (Planes A ts fun _ => Calm true) ∧ (∀ P ∈ A.planes, P.done = true) ∧
      ReportOk a ph A.done pc
  | .bcast ph' i => ph' = ph ∧ i ≤ A.planes.length ∧ 0 < A.planesLeft ∧
      A.planesLeft = A.planes.countP (fun P => P.active || !P.done) ∧
      (Planes A ts fun p P t => p < i → P.active = true ∨ P.done = true ∧ t.todo = false) ∧
      (Planes A ts fun p P t => i ≤ p → Calm true P t)
  | .unlockLeft => Flying a ph A ts
  | .recv => Flying a ph A ts
  | .push _ _ => Flying a ph A ts
  | _ => False

/-- End has reached the plane, or need not. -/
def PlaneThread.Told (P : PlaneThread) : Prop := P.done = true ∨ P.queue = [.finish]

def Ending (A : AirlineState) (ts : List TurnPlane) : ListenPc → Prop
  | .finish i => i ≤ A.planes.length ∧ (Planes A ts fun p P _ => p < i → P.Told) ∧
      (Planes A ts fun p P t => i ≤ p → P.queue = [] ∧ t.todo = !P.done)
  | .join i => i ≤ A.planes.length ∧ (∀ P ∈ A.planes, P.Told) ∧
      ∀ p P, p < i → A.planes[p]? = some P → P.pc = .exited
  | .stopped => ∀ P ∈ A.planes, P.pc = .exited
  | _ => False

structure Quiet (ph : Phase) (st : Status) (A : AirlineState) (ts : List TurnPlane)
    (out : List PlaneMessage) (pend : List MapMessage) : Prop where
  listener : A.pc = .recv ∨ A.pc = .report .unlockConn ∨ A.pc = .unlockLeft
  inbox : A.inbox = st.inbox ph
  pend : pend = []
  calm : Planes A ts fun _ => Calm st.fresh
  out : if st = .reported then ∃ msg, out = [msg] ∧ msg.reports = some ph else out = []
  phase : st = .toldEnd → ph = .one

def StatusOk (a : ℕ) (ph : Phase) (A : AirlineState) (ts : List TurnPlane)
    (out : List PlaneMessage) (pend : List MapMessage) : Status → Prop
  | .busy => A.stage = ph ∧ Owned A out pend ∧ Busy a ph A ts A.pc
  | .ending => ph = .one ∧ A.inbox = [] ∧ out = [] ∧ pend = [] ∧
      (∀ P ∈ A.planes, P.active = false ∧ P.reporting = false) ∧ Ending A ts A.pc
  | st => Quiet ph st A ts out pend

/-- `out` are the messages of airline `a` in the inbox of the map, `pend` the reply the map is
about to write to it. -/
structure AirlineOk (a : ℕ) (ph : Phase) (st : Status) (A : AirlineState) (ts : List TurnPlane)
    (out : List PlaneMessage) (pend : List MapMessage) : Prop where
  length : ts.length = A.planes.length
  planes : Planes A ts fun p P t =>
    PlaneOk a ph st.isEnding P t (requestsOf p out) (repliesTo p (A.carried pend))
  left : Held A.leftLock (holdsLeft A.pc A.planes)
  conn : Held A.conn (holdsConn A.pc A.planes)
  status : StatusOk a ph A ts out pend st

/-! ## One plane changes -/

section Keep

variable {a : ℕ} {ph : Phase} {st : Status} {A A' : AirlineState} {ts : List TurnPlane}
  {out : List PlaneMessage} {pend : List MapMessage} {p : ℕ} {P P' : PlaneThread}
  {t t' : TurnPlane}

theorem Planes.set {Q Q' : ℕ → PlaneThread → TurnPlane → Prop} (h : Planes A ts Q)
    (hP : A.planes[p]? = some P) (ht : ts[p]? = some t) (hplanes : A'.planes = A.planes.set p P')
    (hnew : Q' p P' t') (hrest : ∀ q P t, q ≠ p → Q q P t → Q' q P t) :
    Planes A' (ts.set p t') Q' := by
  intro q X x hX hx
  rw [hplanes] at hX
  by_cases hq : p = q
  · subst hq
    rw [getElem?_set_plane hP] at hX
    rw [List.getElem?_set_self (List.getElem?_eq_some_iff.mp ht).1] at hx
    cases hX
    cases hx
    exact hnew
  · rw [List.getElem?_set_ne hq] at hX hx
    exact hrest q X x (Ne.symm hq) (h q X x hX hx)

theorem forall_mem_set {α : Type*} {l : List α} {i : ℕ} {x : α} {Q : α → Prop}
    (h : ∀ y ∈ l, Q y) (hx : Q x) : ∀ y ∈ l.set i x, Q y := by
  intro y hy
  rcases List.mem_or_eq_of_mem_set hy with hy | rfl
  · exact h y hy
  · exact hx

theorem map_set_of_eq {α β : Type*} (f : α → β) {l : List α} {i : ℕ} {x y : α}
    (h : l[i]? = some x) (hf : f y = f x) : (l.set i y).map f = l.map f := by
  obtain ⟨hi, rfl⟩ := List.getElem?_eq_some_iff.mp h
  have hlt : i < (l.map f).length := by simpa using hi
  have hget : (l.map f)[i] = f l[i] := List.getElem_map f
  rw [List.map_set, hf, ← hget, List.set_getElem_self]

theorem countP_set_of_eq {α : Type*} (f : α → Bool) {l : List α} {i : ℕ} {x y : α}
    (h : l[i]? = some x) (hf : f y = f x) : (l.set i y).countP f = l.countP f := by
  have := countP_set f h y
  rw [hf] at this
  omega

/-- Plane `p` changes, but for the rest of the airline it is what it was. -/
structure Keeps (a : ℕ) (ph : Phase) (A A' : AirlineState) (p : ℕ) (P P' : PlaneThread)
    (t t' : TurnPlane) : Prop where
  planes : A'.planes = A.planes.set p P'
  pc : A'.pc = A.pc
  stage : A'.stage = A.stage
  inbox : A'.inbox = A.inbox
  left : A'.planesLeft = A.planesLeft
  active : P'.active = P.active
  done : P.active = false → P'.done = P.done
  reporting : P'.reporting = P.reporting
  report : ∀ ph' pc, P'.pc = .report ph' pc → pc ≠ .unlockConn → ReportOk a ph A.done pc
  todo : P.active = false → t'.todo = t.todo
  queue : P.active = false → P'.queue = P.queue
  run : P.pc ≠ .exited

theorem Keeps.flags (h : Keeps a ph A A' p P P' t t') (hP : A.planes[p]? = some P)
    (hinactive : P.active = false) : A'.done = A.done := by
  unfold AirlineState.done
  rw [h.planes]
  exact map_set_of_eq (·.done) hP (h.done hinactive)

theorem Keeps.calm (h : Keeps a ph A A' p P P' t t') {fresh : Bool} (hc : Calm fresh P t) :
    Calm fresh P' t' :=
  ⟨h.active.trans hc.active, h.reporting.trans hc.reporting,
    by rw [h.todo hc.active, h.done hc.active, hc.todo]⟩

theorem reporting_of_report {ph' : Phase} {pc : ReportPc} (hpc : P.pc = .report ph' pc)
    (hne : pc ≠ .unlockConn) : P.reporting = true := by
  unfold PlaneThread.reporting
  rw [hpc]
  cases pc with
  | unlockConn => exact absurd rfl hne
  | stage | count _ _ | lockConn _ | send _ => rfl

theorem exists_report_of_reporting (h : P.reporting = true) :
    ∃ ph' pc, P.pc = .report ph' pc ∧ pc ≠ .unlockConn := by
  unfold PlaneThread.reporting at h
  cases hpc : P.pc with
  | report ph' pc => exact ⟨ph', pc, rfl, by rintro rfl; simp [hpc, PlanePc.station] at h⟩
  | safe action => cases action <;> simp [hpc, PlanePc.station] at h
  | top | lockConn _ | send _ | unlockConn _ | reply _ | cont | lockLeft _ | dec _ | unlockLeft _
  | exited => simp [hpc, PlanePc.station] at h

/-- No plane is active once `planesLeft` is zero. -/
theorem Flying.inactive (h : Flying a ph A ts) (hzero : A.planesLeft = 0) {X : PlaneThread}
    (hX : X ∈ A.planes) : X.active = false := by
  have hleft := h.left
  rw [hzero] at hleft
  have hcount : A.planes.countP (·.active) = 0 := by omega
  simpa using List.countP_eq_zero.mp hcount X hX

theorem Flying.keep (h : Flying a ph A ts) (hP : A.planes[p]? = some P) (ht : ts[p]? = some t)
    (hk : Keeps a ph A A' p P P' t t') : Flying a ph A' (ts.set p t') where
  todo := h.todo.set hP ht hk.planes
    (fun hactive => by
      rw [hk.active] at hactive
      rw [hk.todo hactive]
      exact h.todo p P t hP ht hactive) fun _ _ _ _ h => h
  left := by
    rw [hk.left, hk.planes, countP_set_of_eq (·.active) hP hk.active]
    exact h.left
  reporter hzero := by
    rw [hk.left] at hzero
    obtain ⟨X, hX, hrep⟩ := h.reporter hzero
    rw [hk.planes]
    obtain ⟨q, hq⟩ := List.mem_iff_getElem?.mp hX
    by_cases hqp : p = q
    · subst hqp
      rw [hP] at hq
      cases hq
      exact ⟨P', List.mem_of_getElem? (getElem?_set_plane hP), hk.reporting.trans hrep⟩
    · exact ⟨X, List.mem_of_getElem? (i := q) (by rw [List.getElem?_set_ne hqp]; exact hq), hrep⟩
  report := by
    have hflags : A.planesLeft = 0 → A'.done = A.done := fun hzero =>
      hk.flags hP (h.inactive hzero (List.mem_of_getElem? hP))
    rw [hk.planes, hk.left]
    refine forall_mem_set (fun X hX ph' pc hpc hne => ?_) fun ph' pc hpc hne => ?_
    · obtain ⟨hzero, hok⟩ := h.report X hX ph' pc hpc hne
      exact ⟨hzero, by rw [hflags hzero]; exact hok⟩
    · have hrep : P.reporting = true := hk.reporting ▸ reporting_of_report hpc hne
      obtain ⟨ph0, pc0, hpc0, hne0⟩ := exists_report_of_reporting hrep
      have hzero := (h.report P (List.mem_of_getElem? hP) ph0 pc0 hpc0 hne0).1
      exact ⟨hzero, by rw [hflags hzero]; exact hk.report ph' pc hpc hne⟩

theorem Busy.keep (h : Busy a ph A ts A.pc) (hP : A.planes[p]? = some P) (ht : ts[p]? = some t)
    (hk : Keeps a ph A A' p P P' t t') : Busy a ph A' (ts.set p t') A'.pc := by
  have hlen : A'.planes.length = A.planes.length := by rw [hk.planes, List.length_set]
  have hflags : (Planes A ts fun _ => Calm true) → A'.done = A.done :=
    fun h => hk.flags hP (h p P t hP ht).active
  have hcalm : (Planes A ts fun _ => Calm true) → Planes A' (ts.set p t') fun _ => Calm true :=
    fun h => h.set hP ht hk.planes (hk.calm (h p P t hP ht)) fun _ _ _ _ h => h
  rw [hk.pc]
  cases hpc : A.pc with
  | recv | unlockLeft | push _ _ =>
    rw [hpc] at h
    exact Flying.keep h hP ht hk
  | lockLeft ph' =>
    rw [hpc] at h
    exact ⟨h.1, hcalm h.2⟩
  | scan ph' i =>
    rw [hpc] at h
    exact ⟨h.1, hlen ▸ h.2.1, hcalm h.2.2.1, by rw [hk.left, hflags h.2.2.1]; exact h.2.2.2⟩
  | report pc =>
    rw [hpc] at h
    refine ⟨hcalm h.1, ?_, by rw [hflags h.1]; exact h.2.2⟩
    rw [hk.planes]
    exact forall_mem_set h.2.1
      ((hk.done (h.1 p P t hP ht).active).trans (h.2.1 P (List.mem_of_getElem? hP)))
  | bcast ph' i =>
    rw [hpc] at h
    obtain ⟨h1, h2, h3, h4, h5, h6⟩ := h
    refine ⟨h1, hlen ▸ h2, hk.left ▸ h3, ?_, h5.set hP ht hk.planes (fun hlt => ?_)
      (fun _ _ _ _ h => h), h6.set hP ht hk.planes (fun hle => hk.calm (h6 p P t hP ht hle))
      (fun _ _ _ _ h => h)⟩
    · rw [hk.left, hk.planes, countP_set_of_eq _ hP]
      · exact h4
      · rw [hk.active]
        cases hactive : P.active with
        | true => rfl
        | false => rw [hk.done hactive]
    · by_cases hactive : P.active = true
      · exact .inl (hk.active.trans hactive)
      · have hinactive : P.active = false := by simpa using hactive
        rcases h5 p P t hP ht hlt with h | ⟨hd, htodo⟩
        · exact absurd h hactive
        · exact .inr ⟨(hk.done hinactive).trans hd, (hk.todo hinactive).trans htodo⟩
  | finish _ | join _ | stopped =>
    rw [hpc] at h
    exact h.elim

theorem Ending.keep (h : Ending A ts A.pc) (hinactive : P.active = false)
    (hP : A.planes[p]? = some P) (ht : ts[p]? = some t) (hk : Keeps a ph A A' p P P' t t') :
    Ending A' (ts.set p t') A'.pc := by
  have hlen : A'.planes.length = A.planes.length := by rw [hk.planes, List.length_set]
  have htold : P.Told → P'.Told :=
    Or.imp (hk.done hinactive).trans (hk.queue hinactive).trans
  rw [hk.pc]
  cases hpc : A.pc with
  | finish i =>
    rw [hpc] at h
    exact ⟨hlen ▸ h.1, h.2.1.set hP ht hk.planes (fun hlt => htold (h.2.1 p P t hP ht hlt))
      (fun _ _ _ _ h => h), h.2.2.set hP ht hk.planes (fun hle => by
        rw [hk.queue hinactive, hk.todo hinactive, hk.done hinactive]
        exact h.2.2 p P t hP ht hle) fun _ _ _ _ h => h⟩
  | join i =>
    rw [hpc] at h
    refine ⟨hlen ▸ h.1, ?_, fun q X hlt hX => ?_⟩
    · rw [hk.planes]
      exact forall_mem_set h.2.1 (htold (h.2.1 P (List.mem_of_getElem? hP)))
    · rw [hk.planes] at hX
      by_cases hq : p = q
      · subst hq
        exact absurd (h.2.2 p P hlt hP) hk.run
      · rw [List.getElem?_set_ne hq] at hX
        exact h.2.2 q X hlt hX
  | stopped =>
    rw [hpc] at h
    exact absurd (h P (List.mem_of_getElem? hP)) hk.run
  | recv | lockLeft _ | scan _ _ | report _ | bcast _ _ | unlockLeft | push _ _ =>
    rw [hpc] at h
    exact h.elim

theorem Keeps.carried (h : Keeps a ph A A' p P P' t t') : A'.carried pend = A.carried pend := by
  unfold AirlineState.carried
  rw [h.pc, h.inbox]

theorem Owned.keep (h : Owned A out pend) (hk : Keeps a ph A A' p P P' t t') :
    Owned A' out pend where
  out := by
    rw [hk.planes, List.length_set]
    exact h.out
  reply := by
    rw [hk.inbox]
    exact h.reply
  carried := by
    rw [hk.carried, hk.planes, List.length_set]
    exact h.carried

theorem Quiet.keep (h : Quiet ph st A ts out pend) (hP : A.planes[p]? = some P)
    (ht : ts[p]? = some t) (hk : Keeps a ph A A' p P P' t t') :
    Quiet ph st A' (ts.set p t') out pend where
  listener := hk.pc ▸ h.listener
  inbox := hk.inbox.trans h.inbox
  pend := h.pend
  calm := h.calm.set hP ht hk.planes (hk.calm (h.calm p P t hP ht)) fun _ _ _ _ h => h
  out := h.out
  phase := h.phase

theorem StatusOk.keep (h : StatusOk a ph A ts out pend st) (hP : A.planes[p]? = some P)
    (ht : ts[p]? = some t) (hk : Keeps a ph A A' p P P' t t') :
    StatusOk a ph A' (ts.set p t') out pend st := by
  cases st with
  | busy => exact ⟨hk.stage.trans h.1, h.2.1.keep hk, Busy.keep h.2.2 hP ht hk⟩
  | ending =>
    obtain ⟨h1, h2, h3, h4, h5, h6⟩ := h
    have hin := h5 P (List.mem_of_getElem? hP)
    refine ⟨h1, hk.inbox.trans h2, h3, h4, ?_, Ending.keep h6 hin.1 hP ht hk⟩
    rw [hk.planes]
    exact forall_mem_set h5 ⟨hk.active.trans hin.1, hk.reporting.trans hin.2⟩
  | waiting | told | reported | counted | toldEnd => exact Quiet.keep h hP ht hk

/-! ## Where the airline is -/

theorem AirlineOk.exists_abstract (h : AirlineOk a ph st A ts out pend)
    (hP : A.planes[p]? = some P) : ∃ t, ts[p]? = some t :=
  ⟨_, List.getElem?_eq_getElem (by rw [h.length]; exact (List.getElem?_eq_some_iff.mp hP).1)⟩

theorem AirlineOk.planeOk (h : AirlineOk a ph st A ts out pend) (hP : A.planes[p]? = some P)
    (ht : ts[p]? = some t) :
    PlaneOk a ph st.isEnding P t (requestsOf p out) (repliesTo p (A.carried pend)) :=
  h.planes p P t hP ht

/-- Only a busy airline has a plane in its part of the phase or reporting. -/
theorem AirlineOk.busy (h : AirlineOk a ph st A ts out pend) (hP : A.planes[p]? = some P)
    (hnot : P.active = true ∨ P.reporting = true) :
    st = .busy ∧ A.stage = ph ∧ Owned A out pend ∧ Busy a ph A ts A.pc := by
  obtain ⟨t, ht⟩ := h.exists_abstract hP
  have hs := h.status
  have hcalm : ∀ fresh, ¬Calm fresh P t := by
    intro fresh hc
    rcases hnot with hnot | hnot
    · rw [hc.active] at hnot
      cases hnot
    · rw [hc.reporting] at hnot
      cases hnot
  cases st with
  | busy => exact ⟨rfl, hs⟩
  | ending =>
    have hin := hs.2.2.2.2.1 P (List.mem_of_getElem? hP)
    rcases hnot with hnot | hnot
    · rw [hin.1] at hnot
      cases hnot
    · rw [hin.2] at hnot
      cases hnot
  | waiting | told | reported | counted | toldEnd => exact absurd (Quiet.calm hs p P t hP ht) (hcalm _)

/-- While a plane that is not calm holds `planesLeftLock`, the listener waits or pushes a reply. -/
theorem AirlineOk.flying (h : AirlineOk a ph st A ts out pend) (hP : A.planes[p]? = some P)
    (hnot : P.active = true ∨ P.reporting = true) (hleft : P.pc.holdsLeft = true) :
    Flying a ph A ts ∧ (A.pc = .recv ∨ ∃ id msg, A.pc = .push id msg) := by
  obtain ⟨t, ht⟩ := h.exists_abstract hP
  obtain ⟨-, -, -, hbusy⟩ := h.busy hP hnot
  have hlisten : A.pc.holdsLeft = false := by
    by_contra hl
    have hl : A.pc.holdsLeft = true := by simpa using hl
    cases h.left.unique (i := .listener) (j := .plane p) hl ((holds_plane hP).mpr hleft)
  have hcalm : ¬Calm true P t := by
    intro hc
    rcases hnot with hnot | hnot
    · rw [hc.active] at hnot
      cases hnot
    · rw [hc.reporting] at hnot
      cases hnot
  cases hpc : A.pc with
  | recv =>
    rw [hpc] at hbusy
    exact ⟨hbusy, .inl rfl⟩
  | push id msg =>
    rw [hpc] at hbusy
    exact ⟨hbusy, .inr ⟨id, msg, rfl⟩⟩
  | lockLeft ph' =>
    rw [hpc] at hbusy
    exact absurd (hbusy.2 p P t hP ht) hcalm
  | scan _ _ | report _ | bcast _ _ | unlockLeft =>
    rw [hpc] at hlisten
    cases hlisten
  | finish _ | join _ | stopped =>
    rw [hpc] at hbusy
    exact hbusy.elim

/-- A plane that has no part in the phase has no message on its way. -/
theorem PlaneOk.nothing_of_inactive {ending : Bool} {rq : List PlaneMessage} {rp : List Message}
    (h : PlaneOk a ph ending P t rq rp) (hinactive : P.active = false) : rq = [] ∧ rp = [] := by
  obtain ⟨h1, h2, -⟩ := h.idle fun w hw => by simp [PlaneThread.active, hw] at hinactive
  exact ⟨h1, h2⟩

/-- With no plane active there are no requests and no replies. -/
theorem AirlineOk.nothing (h : AirlineOk a ph st A ts out pend) (hown : Owned A out pend)
    (hinactive : ∀ P ∈ A.planes, P.active = false) :
    out = [] ∧ A.inbox = [] ∧ pend = [] ∧ pushed A.pc = [] := by
  have hplane : ∀ p < A.planes.length,
      requestsOf p out = [] ∧ repliesTo p (A.carried pend) = [] := by
    intro p hp
    have hP := List.getElem?_eq_getElem hp
    obtain ⟨t, ht⟩ := h.exists_abstract hP
    exact (h.planeOk hP ht).nothing_of_inactive (hinactive _ (List.getElem_mem hp))
  have hout : out = [] := by
    by_contra hne
    obtain ⟨msg, hmsg⟩ := List.exists_mem_of_ne_nil out hne
    obtain ⟨p, hp, howner⟩ := hown.out msg hmsg
    have hmem : msg ∈ requestsOf p out := List.mem_filter.mpr ⟨hmsg, by simpa using howner⟩
    rw [(hplane p hp).1] at hmem
    cases hmem
  have hcarried : A.carried pend = [] := by
    by_contra hne
    obtain ⟨x, hx⟩ := List.exists_mem_of_ne_nil _ hne
    obtain ⟨p, hp, hid⟩ := hown.carried x hx
    have hmem : x.2 ∈ repliesTo p (A.carried pend) :=
      List.mem_filterMap.mpr ⟨x, hx, by rw [if_pos hid]⟩
    rw [(hplane p hp).2] at hmem
    cases hmem
  unfold AirlineState.carried at hcarried
  obtain ⟨hpush, hrest⟩ := List.append_eq_nil_iff.mp hcarried
  have hinbox : A.inbox ++ pend = [] := by
    by_contra hne
    obtain ⟨msg, hmsg⟩ := List.exists_mem_of_ne_nil _ hne
    obtain ⟨x, hx⟩ := hown.reply msg hmsg
    have hmem : x ∈ (A.inbox ++ pend).filterMap redirect := List.mem_filterMap.mpr ⟨msg, hmsg, hx⟩
    rw [hrest] at hmem
    cases hmem
  obtain ⟨h1, h2⟩ := List.append_eq_nil_iff.mp hinbox
  exact ⟨hout, h1, h2, hpush⟩

end Keep

end PlaneSim
