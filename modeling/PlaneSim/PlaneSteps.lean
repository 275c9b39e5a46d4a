import PlaneSim.Barrier

/-!
# The steps of a plane

Every step of a plane thread keeps its airline in order (`plane_stepped`). Most of them change
nothing but where the thread is and which lock it holds (`AirlineOk.move`). The others are taking a
start message, asking, storing the reply, being counted, and reporting.
-/

namespace PlaneSim

open Lts Update Lock

/-! ## What a step of an airline emits -/

/-- What a plane does in a phase, in that order. -/
inductive Tag where
  | applied
  | stored
  | ready
deriving DecidableEq, Repr

def Event.tag (a p : ℕ) : Event → Option Tag
  | .applied airline plane _ _ => if airline = (a : Int) ∧ plane = (p : Int) then some .applied else none
  | .stored b q => if b = a ∧ q = p then some .stored else none
  | .ready b q _ => if b = a ∧ q = p then some .ready else none
  | _ => none

/-- The start messages an airline takes (`false`) and the reports it sends (`true`). -/
def Event.signal (a : ℕ) : Event → Option (Phase × Bool)
  | .got b (.start ph) _ => if b = a then some (ph, false) else none
  | .sent b msg _ => if b = a then msg.reports.map fun ph => (ph, true) else none
  | _ => none

/-- An event of the threads of airline `a`. -/
def Event.isOf (a : ℕ) : Event → Bool
  | .sent b _ _ => b = a
  | .got b _ _ => b = a
  | .stored b _ => b = a
  | .ready b _ _ => b = a
  | .ended b _ => b = a
  | _ => false

/-- The signals of the current phase. -/
def Status.signals (ph : Phase) : Status → List (Phase × Bool)
  | .busy => [(ph, false)]
  | .reported => [(ph, false), (ph, true)]
  | .counted => [(ph, false), (ph, true)]
  | _ => []

/-- What the plane has done in the phase; `grounded` is where it was when the phase began. -/
def doneSoFar (ph : Phase) (grounded : Bool) (P : PlaneThread) (t : TurnPlane) : List Tag :=
  if t.todo then []
  else
    (if grounded then
      (if ph = .one then [.applied] else []) ++
        (match P.pc.station with
        | .asked _ => []
        | _ => [.stored])
    else []) ++ if P.active then [] else [.ready]

/-- Where the plane was when the phase began. -/
def Grounded (grounded : Bool) (t : TurnPlane) : Prop :=
  t.todo = true → grounded = decide (t.plane.distance = 0)

/-- The events tell what has become of airline `a`. -/
structure Follows (a : ℕ) (ph : Phase) (es : List Event) (st : Status) (A : AirlineState)
    (ts : List TurnPlane) (st' : Status) (A' : AirlineState) (ts' : List TurnPlane) : Prop where
  signal : st'.signals ph = st.signals ph ++ es.filterMap (Event.signal a)
  progress : ∀ p P t P' t', A.planes[p]? = some P → ts[p]? = some t → A'.planes[p]? = some P' →
    ts'[p]? = some t' → ∀ grounded, Grounded grounded t → Grounded grounded t' ∧
      (doneSoFar ph grounded P' t').Sublist
        (doneSoFar ph grounded P t ++ es.filterMap (Event.tag a p))
  flags : ∀ (p : ℕ) (P P' : PlaneThread), A.planes[p]? = some P → A'.planes[p]? = some P' →
    P'.done = P.done ∨ P'.done = true ∧ (P.active = true ∨ P.queue = [.finish])
  ended : ∀ (p : ℕ) (P P' : PlaneThread), A.planes[p]? = some P → A'.planes[p]? = some P' →
    P.queue = [] → P'.queue = [.finish] → .ended a p ∈ es
  report : ∀ msg flags, .sent a msg flags ∈ es → msg.reports ≠ none →
    flags = A'.done ∧ msg = reportMessage a flags ph
  got : ∀ msg planes, .got a msg planes ∈ es → planes = A.snapshot ∧
    (∀ ph', msg = .start ph' → st = .told) ∧ (msg = .finish → st = .toldEnd)

/-- How the status of an airline changes by a step of one of its threads. -/
inductive Status.Goes : Status → Status → Prop where
  | stay {st : Status} : Goes st st
  | start : Goes .told .busy
  | report : Goes .busy .reported
  | finish : Goes .toldEnd .ending

/-- A step of airline `a`, and its events. -/
structure Emits (a : ℕ) (ph : Phase) (es : List Event) (st : Status) (A : AirlineState)
    (ts : List TurnPlane) (st' : Status) (A' : AirlineState) (ts' : List TurnPlane) : Prop extends
    Follows a ph es st A ts st' A' ts' where
  own : ∀ e ∈ es, e.isOf a = true
  goes : st.Goes st'

/-- What a step of an airline is in the abstract turn. -/
inductive TurnStep (ph : Phase) (ts ts' : List TurnPlane) : Prop where
  | stay (same : ts' = ts)
  | skip (p : ℕ) (t : TurnPlane) (at_p : ts[p]? = some t) (todo : t.todo = true)
      (air : t.plane.distance ≠ 0) (phase : ph = .one)
      (new : ts' = ts.set p { t with todo := false })
  | fly (p : ℕ) (t : TurnPlane) (at_p : ts[p]? = some t) (todo : t.todo = true)
      (air : t.plane.distance ≠ 0) (phase : ph = .two)
      (new : ts' = ts.set p
        { t with plane := { t.plane with distance := t.plane.distance - 1 }, todo := false })

/-- The airline is in order after a step. -/
def Stepped (a : ℕ) (ph : Phase) (st : Status) (A : AirlineState) (ts : List TurnPlane)
    (out : List PlaneMessage) (pend : List MapMessage) (es : List Event) (A' : AirlineState)
    (sent : Option PlaneMessage) : Prop :=
  ∃ st' ts', AirlineOk a ph st' A' ts' (out ++ sent.toList) pend ∧ TurnStep ph ts ts' ∧
    Emits a ph es st A ts st' A' ts'

section Steps

variable {a : ℕ} {ph : Phase} {st : Status} {A A' : AirlineState} {ts : List TurnPlane}
  {out : List PlaneMessage} {pend : List MapMessage} {p : ℕ} {P P' : PlaneThread}
  {t t' : TurnPlane}

/-- Only plane `p` changes. -/
theorem Follows.of_set {st' : Status} {es : List Event} (hP : A.planes[p]? = some P)
    (ht : ts[p]? = some t) (hplanes : A'.planes = A.planes.set p P')
    (signal : st'.signals ph = st.signals ph ++ es.filterMap (Event.signal a))
    (hprogress : ∀ grounded, Grounded grounded t → Grounded grounded t' ∧
      (doneSoFar ph grounded P' t').Sublist
        (doneSoFar ph grounded P t ++ es.filterMap (Event.tag a p)))
    (hflags : P'.done = P.done ∨ P'.done = true ∧ (P.active = true ∨ P.queue = [.finish]))
    (hended : P.queue = [] → P'.queue = [.finish] → .ended a p ∈ es)
    (report : ∀ msg flags, .sent a msg flags ∈ es → msg.reports ≠ none →
      flags = A'.done ∧ msg = reportMessage a flags ph)
    (got : ∀ msg planes, .got a msg planes ∈ es → planes = A.snapshot ∧
      (∀ ph', msg = .start ph' → st = .told) ∧ (msg = .finish → st = .toldEnd)) :
    Follows a ph es st A ts st' A' (ts.set p t') where
  signal := signal
  report := report
  got := got
  progress q X x X' x' hX hx hX' hx' := by
    rw [hplanes] at hX'
    by_cases hq : p = q
    · subst hq
      rw [getElem?_set_plane hP] at hX'
      rw [List.getElem?_set_self (List.getElem?_eq_some_iff.mp ht).1] at hx'
      rw [hP] at hX
      rw [ht] at hx
      cases hX
      cases hx
      cases hX'
      cases hx'
      exact hprogress
    · rw [List.getElem?_set_ne hq] at hX' hx'
      obtain rfl : X = X' := Option.some.inj (hX.symm.trans hX')
      obtain rfl : x = x' := Option.some.inj (hx.symm.trans hx')
      exact fun grounded h => ⟨h, List.sublist_append_left ..⟩
  flags q X X' hX hX' := by
    rw [hplanes] at hX'
    by_cases hq : p = q
    · subst hq
      rw [getElem?_set_plane hP] at hX'
      rw [hP] at hX
      cases hX
      cases hX'
      exact hflags
    · rw [List.getElem?_set_ne hq] at hX'
      obtain rfl : X = X' := Option.some.inj (hX.symm.trans hX')
      exact .inl rfl
  ended q X X' hX hX' hempty hfinish := by
    rw [hplanes] at hX'
    by_cases hq : p = q
    · subst hq
      rw [getElem?_set_plane hP] at hX'
      rw [hP] at hX
      cases hX
      cases hX'
      exact hended hempty hfinish
    · rw [List.getElem?_set_ne hq] at hX'
      obtain rfl : X = X' := Option.some.inj (hX.symm.trans hX')
      rw [hempty] at hfinish
      cases hfinish

/-- The planes stay as they are. -/
theorem Follows.of_planes {st' : Status} {es : List Event} (hplanes : A'.planes = A.planes)
    (signal : st'.signals ph = st.signals ph ++ es.filterMap (Event.signal a))
    (report : ∀ msg flags, .sent a msg flags ∈ es → msg.reports ≠ none →
      flags = A'.done ∧ msg = reportMessage a flags ph)
    (got : ∀ msg planes, .got a msg planes ∈ es → planes = A.snapshot ∧
      (∀ ph', msg = .start ph' → st = .told) ∧ (msg = .finish → st = .toldEnd)) :
    Follows a ph es st A ts st' A' ts where
  signal := signal
  report := report
  got := got
  progress q X x X' x' hX hx hX' hx' grounded hg := by
    rw [hplanes, hX] at hX'
    rw [hx] at hx'
    cases hX'
    cases hx'
    exact ⟨hg, List.sublist_append_left ..⟩
  flags q X X' hX hX' := by
    rw [hplanes, hX] at hX'
    cases hX'
    exact .inl rfl
  ended q X X' hX hX' hempty hfinish := by
    rw [hplanes, hX] at hX'
    cases hX'
    rw [hempty] at hfinish
    cases hfinish

theorem Emits.of_set {st' : Status} {es : List Event} (goes : st.Goes st')
    (hP : A.planes[p]? = some P) (ht : ts[p]? = some t) (hplanes : A'.planes = A.planes.set p P')
    (own : ∀ e ∈ es, e.isOf a = true)
    (signal : st'.signals ph = st.signals ph ++ es.filterMap (Event.signal a))
    (hprogress : ∀ grounded, Grounded grounded t → Grounded grounded t' ∧
      (doneSoFar ph grounded P' t').Sublist
        (doneSoFar ph grounded P t ++ es.filterMap (Event.tag a p)))
    (hflags : P'.done = P.done ∨ P'.done = true ∧ (P.active = true ∨ P.queue = [.finish]))
    (hended : P.queue = [] → P'.queue = [.finish] → .ended a p ∈ es)
    (report : ∀ msg flags, .sent a msg flags ∈ es → msg.reports ≠ none →
      flags = A'.done ∧ msg = reportMessage a flags ph)
    (got : ∀ msg planes, .got a msg planes ∈ es → planes = A.snapshot ∧
      (∀ ph', msg = .start ph' → st = .told) ∧ (msg = .finish → st = .toldEnd)) :
    Emits a ph es st A ts st' A' (ts.set p t') :=
  ⟨Follows.of_set hP ht hplanes signal hprogress hflags hended report got, own, goes⟩

theorem StationOk.congr {ending : Bool} {rq : List PlaneMessage} {rp : List Message} {s : Station}
    (h : StationOk a ph ending P t rq rp s) (hq : P'.queue = P.queue) (hp : P'.plane = P.plane)
    (hd : P'.done = P.done) : StationOk a ph ending P' t rq rp s := by
  cases s with
  | rest w =>
    obtain ⟨h1, h2, h3, h4, hrest⟩ := h
    refine ⟨h1, h2, h3.trans hp.symm, h4.trans hd.symm, ?_⟩
    cases hrest with
    | retired done queue todo => exact .retired (hd.trans done) (hq.trans queue) todo
    | waiting done queue todo => exact .waiting (hd.trans done) (hq.trans queue) todo
    | started done queue todo phase => exact .started (hd.trans done) (hq.trans queue) todo phase
    | leaving done queue todo phase next ending =>
      exact .leaving (hd.trans done) (hq.trans queue) todo phase next ending
  | asked w =>
    obtain ⟨h1, h2, hasked⟩ := h
    refine ⟨h1, hd.trans h2, ?_⟩
    rw [hq]
    cases hasked with
    | request msg plane done todo ground sent rq rp =>
      exact .request msg (plane.trans hp.symm) done todo (hp ▸ ground) (hp ▸ sent) rq rp
    | reply msg todo take rq rp => exact .reply msg todo (hp ▸ take) rq rp
  | work w =>
    unfold StationOk at h ⊢
    rw [hq, hp, hd]
    exact h
  | finished w | reporting w =>
    unfold StationOk at h ⊢
    rw [hq, hp, hd]
    exact h
  | gone =>
    unfold StationOk at h ⊢
    rw [hq, hp, hd]
    exact h

theorem active_congr (hs : P'.pc.station = P.pc.station) (hq : P'.queue = P.queue) :
    P'.active = P.active := by
  unfold PlaneThread.active
  rw [hs, hq]

theorem reporting_congr (hs : P'.pc.station = P.pc.station) : P'.reporting = P.reporting := by
  unfold PlaneThread.reporting
  rw [hs]

/-- The airline after a change of plane `p` that keeps its status. -/
theorem AirlineOk.keep (h : AirlineOk a ph st A ts out pend) (hP : A.planes[p]? = some P)
    (ht : ts[p]? = some t) (hk : Keeps a ph A A' p P P' t t')
    (hok : PlaneOk a ph st.isEnding P' t' (requestsOf p out) (repliesTo p (A.carried pend)))
    (left : Held A'.leftLock (holdsLeft A.pc (A.planes.set p P')))
    (conn : Held A'.conn (holdsConn A.pc (A.planes.set p P'))) :
    AirlineOk a ph st A' (ts.set p t') out pend where
  length := by rw [hk.planes, List.length_set, List.length_set, h.length]
  planes := by
    rw [hk.carried]
    exact h.planes.set hP ht hk.planes hok fun _ _ _ _ h => h
  left := by rw [hk.pc, hk.planes]; exact left
  conn := by rw [hk.pc, hk.planes]; exact conn
  status := h.status.keep hP ht hk

theorem set_self {α : Type*} {l : List α} {i : ℕ} {x : α} (h : l[i]? = some x) :
    l.set i x = l := by
  obtain ⟨hi, rfl⟩ := List.getElem?_eq_some_iff.mp h
  exact List.set_getElem_self hi

/-- A step without events that leaves the abstract turn alone. -/
theorem AirlineOk.shift (h : AirlineOk a ph st A ts out pend) (hP : A.planes[p]? = some P)
    (ht : ts[p]? = some t) (hk : Keeps a ph A A' p P P' t t)
    (hok : PlaneOk a ph st.isEnding P' t (requestsOf p out) (repliesTo p (A.carried pend)))
    (left : Held A'.leftLock (holdsLeft A.pc (A.planes.set p P')))
    (conn : Held A'.conn (holdsConn A.pc (A.planes.set p P')))
    (hdone : P'.done = P.done) (hqueue : P.queue = [] → P'.queue ≠ [.finish])
    (hsame : ∀ grounded, doneSoFar ph grounded P' t = doneSoFar ph grounded P t) :
    Stepped a ph st A ts out pend [] A' none := by
  have hnew := h.keep hP ht hk hok left conn
  have hemits : Emits a ph [] st A ts st A' (ts.set p t) :=
    Emits.of_set .stay hP ht hk.planes (by simp) (by simp)
      (fun grounded hg => ⟨hg, by rw [hsame grounded]; simp⟩) (.inl hdone)
      (fun h h' => absurd h' (hqueue h)) (by simp) (by simp)
  rw [set_self ht] at hnew hemits
  exact ⟨st, ts, by simpa using hnew, .stay rfl, hemits⟩

theorem doneSoFar_todo {grounded : Bool} (h : t.todo = true) : doneSoFar ph grounded P t = [] := by
  simp [doneSoFar, h]

theorem doneSoFar_congr (hs : P'.pc.station = P.pc.station) (hq : P'.queue = P.queue)
    (grounded : Bool) : doneSoFar ph grounded P' t = doneSoFar ph grounded P t := by
  unfold doneSoFar
  rw [hs, active_congr hs hq]

/-- A plane goes on, at the same station. -/
theorem AirlineOk.move (h : AirlineOk a ph st A ts out pend) (hP : A.planes[p]? = some P)
    {pc' : PlanePc} (hstation : pc'.station = P.pc.station) {left conn : Option Thread}
    (hleft : Held left (holdsLeft A.pc (A.planes.set p { P with pc := pc' })))
    (hconn : Held conn (holdsConn A.pc (A.planes.set p { P with pc := pc' })))
    (hawake : pc' = .safe .cont ∨ pc' = .cont → P.done = false) (hrun : P.pc ≠ .exited)
    (hreport : ∀ ph' pc, pc' = .report ph' pc → pc ≠ .unlockConn → ReportOk a ph A.done pc) :
    Stepped a ph st A ts out pend []
      ({ A with leftLock := left, conn := conn }.setPlane p { P with pc := pc' }) none := by
  obtain ⟨t, ht⟩ := h.exists_abstract hP
  have hk : Keeps a ph A
      ({ A with leftLock := left, conn := conn }.setPlane p { P with pc := pc' }) p P
      { P with pc := pc' } t t :=
    ⟨rfl, rfl, rfl, rfl, rfl, active_congr hstation rfl, fun _ => rfl, reporting_congr hstation,
      hreport, fun _ => rfl, fun _ => rfl, hrun⟩
  refine h.shift hP ht hk ⟨?_, hawake⟩ hleft hconn rfl (fun hq => by rw [hq]; simp)
    (doneSoFar_congr hstation rfl)
  show StationOk _ _ _ _ _ _ _ pc'.station
  rw [hstation]
  exact (h.planeOk hP ht).station.congr rfl rfl rfl

/-! ## Starting -/

/-- A start message has reached the plane. -/
theorem AirlineOk.started (h : AirlineOk a ph st A ts out pend) (hP : A.planes[p]? = some P)
    {w : Phase} (hstation : P.pc.station = .rest w) (hqueue : P.queue = [.start w]) :
    ∃ t, ts[p]? = some t ∧ requestsOf p out = [] ∧ repliesTo p (A.carried pend) = [] ∧
      t.plane = P.plane ∧ t.done = false ∧ P.done = false ∧ t.todo = true ∧ ph = w := by
  obtain ⟨t, ht⟩ := h.exists_abstract hP
  have hs := (h.planeOk hP ht).station
  rw [hstation] at hs
  obtain ⟨h1, h2, h3, h4, hrest⟩ := hs
  cases hrest with
  | retired _ queue _ | waiting _ queue _ | leaving _ queue _ _ _ _ =>
    rw [queue] at hqueue
    cases hqueue
  | started done _ todo phase => exact ⟨t, ht, h1, h2, h3, h4.trans done, done, todo, phase⟩

theorem reporting_of_rest {w : Phase} (hstation : P.pc.station = .rest w) :
    P.reporting = false := by
  simp [PlaneThread.reporting, hstation]

theorem active_of_started {w : Phase} (hstation : P.pc.station = .rest w)
    (hqueue : P.queue = [.start w]) : P.active = true := by
  simp [PlaneThread.active, hstation, hqueue]

/-- On the ground the plane goes to ask. -/
theorem AirlineOk.wake (h : AirlineOk a ph st A ts out pend) (hP : A.planes[p]? = some P)
    {w : Phase} (hstation : P.pc.station = .rest w) (hqueue : P.queue = [.start w])
    (hground : P.plane.distance = 0) (hleft : P.pc.holdsLeft = false)
    (hconn : P.pc.holdsConn = false) {action : Safe}
    (hnew : (PlanePc.safe action).station = .work w) :
    Stepped a ph st A ts out pend []
      (A.setPlane p { P with pc := .safe action, queue := [] }) none := by
  obtain ⟨t, ht, hrq, hrp, hplane, htdone, hdone, htodo, rfl⟩ := h.started hP hstation hqueue
  have hold := active_of_started hstation hqueue
  have hactive : ({ P with pc := .safe action, queue := [] } : PlaneThread).active = true := by
    simp [PlaneThread.active, hnew]
  have hk : Keeps a ph A (A.setPlane p { P with pc := .safe action, queue := [] }) p P
      { P with pc := .safe action, queue := [] } t t := by
    refine ⟨rfl, rfl, rfl, rfl, rfl, hactive.trans hold.symm, fun _ => rfl, ?_, ?_, fun _ => rfl,
      fun h => ?_, ?_⟩
    · rw [reporting_of_rest hstation]
      simp [PlaneThread.reporting, hnew]
    · intro _ _ hpc _
      cases hpc
    · rw [hold] at h
      cases h
    · rintro hpc
      simp [hpc, PlanePc.station] at hstation
  refine h.shift hP ht hk ⟨?_, fun _ => hdone⟩ (held_keep h.left hP hleft.symm)
    (held_keep h.conn hP hconn.symm) rfl (fun h => by rw [hqueue] at h; cases h)
    fun grounded => by rw [doneSoFar_todo htodo, doneSoFar_todo htodo]
  show StationOk _ _ _ _ _ _ _ (PlanePc.safe action).station
  rw [hnew]
  exact ⟨hrq, hrp, hplane, htdone.trans hdone.symm, rfl, rfl, hdone, htodo, hground⟩

/-- In the air the plane has only to be counted. -/
theorem AirlineOk.pass (h : AirlineOk a ph st A ts out pend) (hP : A.planes[p]? = some P)
    {w : Phase} (hstation : P.pc.station = .rest w) (hqueue : P.queue = [.start w])
    (hair : P.plane.distance ≠ 0) (hleft : P.pc.holdsLeft = false) (hconn : P.pc.holdsConn = false)
    {plane : Plane}
    (hnew : (w = .one ∧ plane = P.plane) ∨
      (w = .two ∧ plane = { P.plane with distance := P.plane.distance - 1 })) :
    Stepped a ph st A ts out pend []
      (A.setPlane p { P with pc := .safe (.ready w), queue := [], plane := plane }) none := by
  obtain ⟨t, ht, hrq, hrp, hplane, htdone, hdone, htodo, rfl⟩ := h.started hP hstation hqueue
  have hold := active_of_started hstation hqueue
  let t' : TurnPlane := { t with plane := plane, todo := false }
  have hk : Keeps a ph A (A.setPlane p { P with pc := .safe (.ready ph), queue := [], plane := plane })
      p P { P with pc := .safe (.ready ph), queue := [], plane := plane } t t' := by
    refine ⟨rfl, rfl, rfl, rfl, rfl, by rw [hold]; rfl, fun _ => rfl, ?_, ?_, fun h => ?_,
      fun h => ?_, ?_⟩
    · exact (reporting_of_rest hstation).symm
    · intro _ _ hpc _
      cases hpc
    · rw [hold] at h
      cases h
    · rw [hold] at h
      cases h
    · rintro hpc
      simp [hpc, PlanePc.station] at hstation
  refine ⟨st, ts.set p t', ?_, ?_, ?_⟩
  · rw [Option.toList_none, List.append_nil]
    exact h.keep hP ht hk
      ⟨⟨hrq, hrp, rfl, htdone.trans hdone.symm, rfl, rfl, rfl⟩, fun _ => hdone⟩
      (held_keep h.left hP hleft.symm) (held_keep h.conn hP hconn.symm)
  · rw [← hplane] at hair hnew
    rcases hnew with ⟨hw, rfl⟩ | ⟨hw, rfl⟩
    · exact .skip p t ht htodo hair hw rfl
    · exact .fly p t ht htodo hair hw rfl
  · refine Emits.of_set .stay hP ht hk.planes (by simp) (by simp) (fun grounded hg => ⟨?_, ?_⟩)
      (.inl rfl) (fun h => by rw [hqueue] at h; cases h) (by simp) (by simp)
    · intro h
      cases h
    · have hno : grounded = false := by
        rw [hg htodo, hplane]
        exact decide_eq_false hair
      subst hno
      exact List.nil_sublist _

/-! ## Leaving -/

/-- A retired plane leaves its loop. -/
theorem AirlineOk.retire (h : AirlineOk a ph st A ts out pend) (hP : A.planes[p]? = some P)
    {w : Phase} (hstation : P.pc.station = .rest w) (hdone : P.done = true)
    {left : Option Thread}
    (hleft : Held left (holdsLeft A.pc (A.planes.set p { P with pc := .exited })))
    (hconn : P.pc.holdsConn = false) :
    Stepped a ph st A ts out pend []
      ({ A with leftLock := left }.setPlane p { P with pc := .exited }) none := by
  obtain ⟨t, ht⟩ := h.exists_abstract hP
  have hs := (h.planeOk hP ht).station
  rw [hstation] at hs
  obtain ⟨hrq, hrp, hplane, htdone, hrest⟩ := hs
  obtain ⟨hqueue, htodo⟩ : P.queue = [] ∧ t.todo = false := by
    cases hrest with
    | retired _ queue todo => exact ⟨queue, todo⟩
    | waiting done _ _ | started done _ _ _ | leaving done _ _ _ _ _ =>
      rw [hdone] at done
      cases done
  have hinactive : P.active = false := by simp [PlaneThread.active, hstation, hqueue]
  have hk : Keeps a ph A ({ A with leftLock := left }.setPlane p { P with pc := .exited }) p P
      { P with pc := .exited } t t := by
    refine ⟨rfl, rfl, rfl, rfl, rfl, hinactive.symm, fun _ => rfl, ?_, ?_, fun _ => rfl,
      fun _ => rfl, ?_⟩
    · exact (reporting_of_rest hstation).symm
    · intro _ _ hpc _
      cases hpc
    · rintro hpc
      simp [hpc, PlanePc.station] at hstation
  refine h.shift hP ht hk
    ⟨⟨hrq, hrp, hplane, hqueue, hdone, .inl ⟨htdone.trans hdone, htodo⟩⟩, ?_⟩ hleft
    (held_keep h.conn hP hconn.symm) rfl (fun hq => by rw [hq]; simp) fun grounded => ?_
  · rintro (hpc | hpc) <;> cases hpc
  · unfold doneSoFar
    rw [hinactive, hstation]
    rfl

/-- A plane that finds End in its queue leaves. -/
theorem AirlineOk.leave (h : AirlineOk a ph st A ts out pend) (hP : A.planes[p]? = some P)
    (hpc : P.pc = .top) (hqueue : P.queue = [.finish]) :
    Stepped a ph st A ts out pend []
      (A.setPlane p { P with pc := .exited, queue := [], done := true }) none := by
  obtain ⟨t, ht⟩ := h.exists_abstract hP
  have hs := (h.planeOk hP ht).station
  rw [hpc] at hs
  obtain ⟨hrq, hrp, hplane, htdone, hrest⟩ := hs
  obtain ⟨hdone, htodo, hending⟩ : P.done = false ∧ t.todo = true ∧ st.isEnding = true := by
    cases hrest with
    | retired _ queue _ | waiting _ queue _ | started _ queue _ _ =>
      rw [queue] at hqueue
      cases hqueue
    | leaving done _ todo _ _ ending => exact ⟨done, todo, ending⟩
  obtain rfl : st = .ending := by
    cases st with
    | ending => rfl
    | waiting | told | busy | reported | counted | toldEnd => cases hending
  let P' : PlaneThread := { P with pc := .exited, queue := [], done := true }
  obtain ⟨hone, hinbox, hout, hpend, hcalm, hend⟩ := h.status
  have hplanes : (A.setPlane p P').planes = A.planes.set p P' := rfl
  refine ⟨.ending, ts, ?_, .stay rfl, ?_⟩
  · rw [← set_self ht]
    refine ⟨?_, ?_, held_keep h.left hP (by rw [hpc]; rfl), held_keep h.conn hP (by rw [hpc]; rfl),
      hone, hinbox, by simp [hout], hpend, forall_mem_set hcalm ⟨rfl, rfl⟩, ?_⟩
    · rw [hplanes, List.length_set, List.length_set, h.length]
    · rw [Option.toList_none, List.append_nil]
      exact h.planes.set hP ht hplanes ⟨⟨hrq, hrp, hplane, rfl, rfl, .inr rfl⟩, by rintro (h | h) <;> cases h⟩
        fun _ _ _ _ h => h
    · show Ending _ _ A.pc
      cases hApc : A.pc with
      | finish i =>
        rw [hApc] at hend
        refine ⟨by rw [hplanes, List.length_set]; exact hend.1,
          hend.2.1.set hP ht hplanes (fun _ => .inl rfl) (fun _ _ _ _ h => h),
          hend.2.2.set hP ht hplanes (fun hle => ?_) fun _ _ _ _ h => h⟩
        have := (hend.2.2 p P t hP ht hle).1
        rw [hqueue] at this
        cases this
      | join i =>
        rw [hApc] at hend
        refine ⟨by rw [hplanes, List.length_set]; exact hend.1,
          forall_mem_set hend.2.1 (.inl rfl), fun q X hlt hX => ?_⟩
        rw [hplanes] at hX
        by_cases hq : p = q
        · subst hq
          rw [getElem?_set_plane hP] at hX
          cases hX
          rfl
        · rw [List.getElem?_set_ne hq] at hX
          exact hend.2.2 q X hlt hX
      | stopped =>
        rw [hApc] at hend
        exact forall_mem_set hend rfl
      | recv | lockLeft _ | scan _ _ | report _ | bcast _ _ | unlockLeft | push _ _ =>
        rw [hApc] at hend
        exact hend.elim
  · have hemits : Emits a ph [] .ending A ts .ending (A.setPlane p P') (ts.set p t) :=
      Emits.of_set .stay hP ht hplanes (by simp) (by simp)
      (fun grounded hg => ⟨hg, by rw [doneSoFar_todo htodo]; simp⟩)
      (.inr ⟨rfl, .inr hqueue⟩) (fun h => by rw [hqueue] at h; cases h) (by simp) (by simp)
    rwa [set_self ht] at hemits

/-! ## Asking -/

/-- The planes are numbered, and their stocks fit in a message. -/
def Carries (ts : List TurnPlane) : Prop :=
  ∀ (p : ℕ) t, ts[p]? = some t → t.plane.id = p ∧ t.plane.stocks.length ≤ MAX_STOCKS

theorem exists_request (a : ℕ) {plane : Plane} (h : plane.stocks.length ≤ MAX_STOCKS) (w : Phase) :
    ∃ msg, request a plane w = some msg ∧ msg.owner = some plane.id ∧ msg.reports = none := by
  cases w with
  | one =>
    exact ⟨.unloadStock (stockReply a plane.id plane.cityId plane.stocks),
      by rw [request, marshallChangeStock_eq h]; rfl, rfl, rfl⟩
  | two =>
    exact ⟨.checkDestinations { header := { airline := a, id := plane.id, cityId := plane.cityId }
                                maxDestinations := 5, stocks := packed plane.stocks },
      by rw [request, marshallCheckDestinations_eq h]; rfl, rfl, rfl⟩

theorem AirlineOk.ask (h : AirlineOk a ph st A ts out pend) (hts : Carries ts)
    (hP : A.planes[p]? = some P) {w : Phase} (hpc : P.pc = .send w) :
    ∃ msg, request a P.plane w = some msg ∧ Stepped a ph st A ts out pend [.sent a msg A.done]
      (A.setPlane p { P with pc := .unlockConn w }) (some msg) := by
  obtain ⟨t, ht⟩ := h.exists_abstract hP
  have hs := (h.planeOk hP ht).station
  rw [hpc] at hs
  obtain ⟨hrq, hrp, hplane, htdone, rfl, hqueue, hdone, htodo, hground⟩ := hs
  obtain ⟨hid, hlen⟩ := hts p t ht
  rw [hplane] at hid hlen
  obtain ⟨msg, hmsg, howner, hreports⟩ := exists_request a hlen ph
  have hactive : P.active = true := by simp [PlaneThread.active, hpc, PlanePc.station]
  let P' : PlaneThread := { P with pc := .unlockConn ph }
  have hk : Keeps a ph A (A.setPlane p P') p P P' t t := by
    refine ⟨rfl, rfl, rfl, rfl, rfl, by rw [hactive]; rfl, fun _ => rfl, ?_, ?_, fun _ => rfl,
      fun _ => rfl, ?_⟩
    · simp [PlaneThread.reporting, PlanePc.station, hpc, P']
    · intro _ _ hpc' _
      cases hpc'
    · simp [hpc]
  have hself : requestsOf p (out ++ [msg]) = [msg] := by
    unfold requestsOf at hrq ⊢
    rw [List.filter_append, hrq]
    simp [howner, hid]
  have hother : ∀ q, q ≠ p → requestsOf q (out ++ [msg]) = requestsOf q out := by
    intro q hq
    unfold requestsOf
    rw [List.filter_append]
    simp [howner, hid]
    omega
  obtain ⟨rfl, hstage, hown, hbusy⟩ := h.busy hP (.inl hactive)
  refine ⟨msg, hmsg, .busy, ts, ?_, .stay rfl, ?_⟩
  · rw [← set_self ht]
    refine ⟨?_, ?_, held_keep h.left hP (by rw [hpc]; rfl), held_keep h.conn hP (by rw [hpc]; rfl),
      hstage, ⟨?_, (hown.keep hk).reply, (hown.keep hk).carried⟩, hbusy.keep hP ht hk⟩
    · rw [hk.planes, List.length_set, List.length_set, h.length]
    · rw [hk.carried]
      refine h.planes.set hP ht hk.planes ⟨⟨rfl, hdone, ?_⟩, ?_⟩ fun q X x hq hok => ?_
      · rw [hrp, Option.toList_some, hself]
        exact .request msg hplane (htdone.trans hdone) htodo hground hmsg rfl hqueue
      · rintro (h | h) <;> cases h
      · rw [Option.toList_some, hother q hq]
        exact hok
    · intro m hm
      rw [hk.planes, List.length_set]
      rcases List.mem_append.mp hm with hm | hm
      · exact hown.out m hm
      · rw [Option.toList_some, List.mem_singleton] at hm
        subst hm
        exact ⟨p, (List.getElem?_eq_some_iff.mp hP).1, by rw [howner, hid]⟩
  · have hemits : Emits a ph [.sent a msg A.done] .busy A ts .busy (A.setPlane p P')
        (ts.set p t) := Emits.of_set .stay hP ht hk.planes (by simp [Event.isOf])
      (by simp [Event.signal, hreports])
      (fun grounded hg => ⟨hg, by rw [doneSoFar_todo htodo]; simp⟩) (.inl rfl)
      (fun h h' => by rw [hqueue] at h'; cases h')
      (fun m flags hm hne => by
        simp only [List.mem_singleton, Event.sent.injEq] at hm
        rw [hm.2.1] at hne
        exact absurd hreports hne) (by simp)
    rwa [set_self ht] at hemits

/-! ## Storing the reply -/

theorem AirlineOk.store (h : AirlineOk a ph st A ts out pend) (hP : A.planes[p]? = some P)
    {w : Phase} (hpc : P.pc = .reply w) {msg : Message} {queue : List Message}
    (hqueue : P.queue = msg :: queue) :
    ∃ plane done, takeReply P.plane w msg = some (plane, some done) ∧
      Stepped a ph st A ts out pend [.stored a p]
        (A.setPlane p { P with pc := .safe (.ready w), queue := queue, plane := plane
                               done := P.done || done }) none := by
  obtain ⟨t, ht⟩ := h.exists_abstract hP
  have hs := (h.planeOk hP ht).station
  rw [hpc] at hs
  obtain ⟨rfl, hdone, hasked⟩ := hs
  rw [hqueue] at hasked
  cases hasked with
  | request _ _ _ _ _ _ _ rp =>
    rw [List.append_eq_nil_iff] at rp
    cases rp.2
  | reply m htodo take hrq rp =>
    obtain ⟨hrp, rfl, rfl⟩ : repliesTo p (A.carried pend) = [] ∧ queue = [] ∧ m = msg := by
      cases hrep : repliesTo p (A.carried pend) with
      | nil =>
        rw [hrep] at rp
        simp at rp
        exact ⟨rfl, rp.2, rp.1.symm⟩
      | cons x xs =>
        rw [hrep] at rp
        simp at rp
    refine ⟨t.plane, t.done, take, ?_⟩
    have hactive : P.active = true := by simp [PlaneThread.active, hpc, PlanePc.station]
    let P' : PlaneThread :=
      { P with pc := .safe (.ready ph), queue := [], plane := t.plane, done := P.done || t.done }
    have hk : Keeps a ph A (A.setPlane p P') p P P' t t := by
      refine ⟨rfl, rfl, rfl, rfl, rfl, by rw [hactive]; rfl, fun h => ?_, ?_, ?_, fun _ => rfl,
        fun h => ?_, ?_⟩
      · rw [hactive] at h
        cases h
      · simp [PlaneThread.reporting, PlanePc.station, hpc, P']
      · intro _ _ hpc' _
        cases hpc'
      · rw [hactive] at h
        cases h
      · simp [hpc]
    refine ⟨st, ts, ?_, .stay rfl, ?_⟩
    · rw [Option.toList_none, List.append_nil, ← set_self ht]
      exact h.keep hP ht hk
        ⟨⟨hrq, hrp, rfl, by simp [P', hdone], rfl, rfl, htodo⟩, by rintro (h | h) <;> cases h⟩
        (held_keep h.left hP (by rw [hpc]; rfl)) (held_keep h.conn hP (by rw [hpc]; rfl))
    · have hemits : Emits a ph [.stored a p] st A ts st (A.setPlane p P') (ts.set p t) :=
        Emits.of_set .stay hP ht hk.planes (by simp [Event.isOf])
        (by simp [Event.signal])
        (fun grounded hg => ⟨hg, by cases grounded <;> simp [doneSoFar, htodo, hpc,
          PlanePc.station, PlaneThread.active, P', Event.tag]⟩)
        (by cases hd : t.done <;> simp [P', hdone, hd, hactive])
        (fun h => by rw [hqueue] at h; cases h) (by simp) (by simp)
      rwa [set_self ht] at hemits

/-! ## Being counted -/

theorem AirlineOk.count (h : AirlineOk a ph st A ts out pend) (hP : A.planes[p]? = some P)
    {w : Phase} (hpc : P.pc = .dec w) {pc' : PlanePc}
    (hnew : pc' = if A.planesLeft - 1 = 0 then .report w .stage else .unlockLeft w) :
    Stepped a ph st A ts out pend [.ready a p w]
      ({ A with planesLeft := A.planesLeft - 1 }.setPlane p { P with pc := pc' }) none := by
  obtain ⟨t, ht⟩ := h.exists_abstract hP
  have hs := (h.planeOk hP ht).station
  rw [hpc] at hs
  obtain ⟨hrq, hrp, hplane, htdone, rfl, hqueue, htodo⟩ := hs
  have hactive : P.active = true := by simp [PlaneThread.active, hpc, PlanePc.station]
  have hholds : P.pc.holdsLeft = true := by rw [hpc]; rfl
  obtain ⟨hfly, hApc⟩ := h.flying hP (.inl hactive) hholds
  obtain ⟨rfl, hstage, hown, -⟩ := h.busy hP (.inl hactive)
  let P' : PlaneThread := { P with pc := pc' }
  let A' : AirlineState := { A with planesLeft := A.planesLeft - 1 }.setPlane p P'
  have hplanes : A'.planes = A.planes.set p P' := rfl
  have hinactive : P'.active = false := by
    show ({ P with pc := pc' } : PlaneThread).active = false
    rw [hnew]
    split <;> simp [PlaneThread.active, PlanePc.station, hqueue]
  have hpc'left : pc'.holdsLeft = true := by rw [hnew]; split <;> rfl
  have hpc'conn : pc'.holdsConn = false := by rw [hnew]; split <;> rfl
  have hok : PlaneOk a ph Status.busy.isEnding P' t (requestsOf p out)
      (repliesTo p (A.carried pend)) := by
    refine ⟨?_, ?_⟩
    · show StationOk _ _ _ _ _ _ _ pc'.station
      rw [hnew]
      split
      · exact ⟨hrq, hrp, hplane, htdone, rfl, hqueue, htodo⟩
      · refine ⟨hrq, hrp, hplane, htdone, ?_⟩
        cases hd : P.done with
        | true => exact .retired hd hqueue htodo
        | false => exact .waiting hd hqueue (by rw [htodo]; simp)
    · show pc' = _ ∨ pc' = _ → _
      rw [hnew]
      split <;> rintro (h | h) <;> cases h
  have hcount := countP_set (·.active) hP P'
  simp only [hactive, hinactive, if_true] at hcount
  have hflags : A'.done = A.done := by
    show (A.planes.set p P').map (·.done) = A.planes.map (·.done)
    exact map_set_of_eq (·.done) hP (show P'.done = P.done from rfl)
  have hfly' : Flying a ph A' (ts.set p t) := by
    refine ⟨hfly.todo.set hP ht hplanes (fun _ => htodo) (fun _ _ _ _ h => h), ?_, fun hzero => ?_,
      ?_⟩
    · have := hfly.left
      show A.planesLeft - 1 = ((A.planes.set p P').countP (·.active) : ℕ)
      simp at hcount
      omega
    · refine ⟨P', List.mem_of_getElem? (getElem?_set_plane hP), ?_⟩
      show ({ P with pc := pc' } : PlaneThread).reporting = true
      have hzero : A.planesLeft - 1 = 0 := hzero
      rw [hnew, if_pos hzero]
      rfl
    · rw [hflags]
      refine forall_mem_set (fun X hX ph' pc hXpc hne => ?_) fun ph' pc hP'pc hne => ?_
      · -- nobody else holds `planesLeftLock`
        obtain ⟨q, hq⟩ := List.mem_iff_getElem?.mp hX
        cases h.left.unique (i := .plane q) (j := .plane p) ((holds_plane hq).mpr (by rw [hXpc]; rfl))
          ((holds_plane hP).mpr hholds)
        rw [hP] at hq
        cases hq
        rw [hpc] at hXpc
        cases hXpc
      · have hP'pc : pc' = .report ph' pc := hP'pc
        rw [hnew] at hP'pc
        split at hP'pc
        · rename_i hzero
          cases hP'pc
          exact ⟨hzero, trivial⟩
        · cases hP'pc
  have hbusy : Busy a ph A' (ts.set p t) A'.pc := by
    show Busy a ph A' (ts.set p t) A.pc
    rcases hApc with hApc | ⟨id, msg, hApc⟩
    · rw [hApc]
      exact hfly'
    · rw [hApc]
      exact hfly'
  refine ⟨.busy, ts, ?_, .stay rfl, ?_⟩
  · rw [Option.toList_none, List.append_nil, ← set_self ht]
    refine ⟨?_, h.planes.set hP ht hplanes hok fun _ _ _ _ h => h,
      held_keep h.left hP (by rw [hholds]; exact hpc'left),
      held_keep h.conn hP (by rw [hpc]; exact hpc'conn), hstage, ⟨?_, hown.reply, ?_⟩, hbusy⟩
    · rw [hplanes, List.length_set, List.length_set, h.length]
    · rw [hplanes, List.length_set]
      exact hown.out
    · rw [hplanes, List.length_set]
      exact hown.carried
  · have hemits : Emits a ph [.ready a p ph] .busy A ts .busy A' (ts.set p t) :=
      Emits.of_set .stay hP ht hplanes (by simp [Event.isOf])
      (by simp [Event.signal])
      (fun grounded hg => ⟨hg, ?_⟩) (.inl rfl)
      (fun _ h' => by rw [show P'.queue = P.queue from rfl, hqueue] at h'; cases h')
      (by simp) (by simp)
    · rwa [set_self ht] at hemits
    · have hasked : ∀ w, pc'.station ≠ .asked w := by
        intro w
        rw [hnew]
        split <;> simp [PlanePc.station]
      have hstored : (match P'.pc.station with
          | .asked _ => ([] : List Tag)
          | _ => [.stored]) = [.stored] := by
        cases hs : P'.pc.station with
        | asked w => exact absurd hs (hasked w)
        | rest _ | work _ | finished _ | reporting _ | gone => rfl
      unfold doneSoFar
      rw [hstored, hinactive, hactive, htodo, hpc]
      simp [Event.tag, PlanePc.station]

/-! ## Reporting -/

theorem reportMessage_spec (a : ℕ) (flags : List Bool) (ph : Phase) :
    (reportMessage a flags ph).reports = some ph ∧ (reportMessage a flags ph).owner = none := by
  cases ph <;> exact ⟨rfl, rfl⟩

/-- What a step of `send_ready_message` can do. -/
theorem reportStep_cases {room : Bool} {thread : Thread} {pc : ReportPc} {r : ReportStep}
    (h : reportStep a room A thread pc = some r) (hstage : A.stage = ph)
    (hok : ReportOk a ph A.done pc) :
    (∃ pc', r.next = some pc' ∧ pc' ≠ .unlockConn ∧ ReportOk a ph A.done pc' ∧ r.sent = none ∧
      ((r.conn = A.conn ∧ pc'.holdsConn = pc.holdsConn) ∨
        (A.conn = none ∧ r.conn = some thread ∧ pc'.holdsConn = true))) ∨
      ∃ msg, pc = .send msg ∧ room = true ∧ r.next = some .unlockConn ∧ r.conn = A.conn ∧
        r.sent = some msg ∧ msg = reportMessage a A.done ph := by
  have hlen : A.done.length = A.planes.length := List.length_map ..
  cases pc with
  | stage =>
    left
    rw [reportStep, hstage] at h
    cases ph with
    | one =>
      cases h
      exact ⟨_, rfl, by simp, rfl, rfl, .inl ⟨rfl, rfl⟩⟩
    | two =>
      cases h
      exact ⟨_, rfl, by simp, ⟨rfl, Nat.zero_le _, by simp⟩, rfl, .inl ⟨rfl, rfl⟩⟩
  | count i flying =>
    left
    obtain ⟨rfl, hle, hflying⟩ := hok
    rw [reportStep] at h
    cases hP : A.planes[i]? with
    | some P =>
      rw [hP] at h
      cases h
      obtain ⟨hlt, rfl⟩ := List.getElem?_eq_some_iff.mp hP
      refine ⟨_, rfl, by simp, ⟨rfl, by omega, ?_⟩, rfl, .inl ⟨rfl, rfl⟩⟩
      have hget : A.done[i]? = some A.planes[i].done := by simp [AirlineState.done, hlt]
      rw [List.take_add_one, hget, List.count_append, hflying]
      cases A.planes[i].done <;> simp
    | none =>
      rw [hP] at h
      cases h
      have hge := List.getElem?_eq_none_iff.mp hP
      refine ⟨_, rfl, by simp, ?_, rfl, .inl ⟨rfl, rfl⟩⟩
      rw [List.take_of_length_le (by omega)] at hflying
      rw [ReportOk, reportMessage, hflying, hlen]
  | lockConn msg =>
    left
    rw [reportStep] at h
    split at h
    · rename_i hfree
      cases h
      exact ⟨_, rfl, by simp, hok, rfl, .inr ⟨hfree, rfl, rfl⟩⟩
    · cases h
  | send msg =>
    right
    rw [reportStep] at h
    split at h
    · rename_i hroom
      cases h
      exact ⟨msg, rfl, hroom, rfl, rfl, rfl, hok⟩
    · cases h
  | unlockConn => exact hok.elim

/-- The report is in the inbox of the map. -/
theorem quiet_reported {msg : PlaneMessage} (hpc : A.pc = .recv ∨ A.pc = .report .unlockConn)
    (hinbox : A.inbox = []) (hcalm : Planes A ts fun _ => Calm false)
    (hmsg : msg.reports = some ph) : StatusOk a ph A ts [msg] [] .reported where
  listener := hpc.elim .inl fun h => .inr (.inl h)
  inbox := hinbox
  pend := rfl
  calm := hcalm
  out := by
    rw [if_pos rfl]
    exact ⟨msg, rfl, hmsg⟩
  phase h := by cases h

theorem AirlineOk.reportSent (h : AirlineOk a ph st A ts out pend) (hP : A.planes[p]? = some P)
    {w : Phase} {msg : PlaneMessage} (hpc : P.pc = .report w (.send msg)) :
    Stepped a ph st A ts out pend [.sent a msg A.done]
      (A.setPlane p { P with pc := .report w .unlockConn }) (some msg) := by
  obtain ⟨t, ht⟩ := h.exists_abstract hP
  have hs := (h.planeOk hP ht).station
  rw [hpc] at hs
  obtain ⟨hrq, hrp, hplane, htdone, rfl, hqueue, htodo⟩ := hs
  have hreporting : P.reporting = true := reporting_of_report hpc (by simp)
  have hholds : P.pc.holdsLeft = true := by rw [hpc]; rfl
  obtain ⟨hfly, hApc⟩ := h.flying hP (.inr hreporting) hholds
  obtain ⟨rfl, hstage, hown, -⟩ := h.busy hP (.inr hreporting)
  obtain ⟨hzero, hmsg⟩ := hfly.report P (List.mem_of_getElem? hP) ph _ hpc (by simp)
  have hmsg : msg = reportMessage a A.done ph := hmsg
  obtain ⟨rfl, hinbox, rfl, hpush⟩ := h.nothing hown fun X hX => hfly.inactive hzero hX
  have hrecv : A.pc = .recv := by
    rcases hApc with hApc | ⟨id, m, hApc⟩
    · exact hApc
    · rw [hApc] at hpush
      cases hpush
  have hinactive := hfly.inactive hzero (List.mem_of_getElem? hP)
  let P' : PlaneThread := { P with pc := .report ph .unlockConn }
  have hplanes : (A.setPlane p P').planes = A.planes.set p P' := rfl
  have hinactive' : P'.active = false := by
    simp [P', PlaneThread.active, PlanePc.station, hqueue]
  have hspec := reportMessage_spec a A.done ph
  rw [← hmsg] at hspec
  have hnone : ∀ q, requestsOf q [msg] = [] := by
    intro q
    unfold requestsOf
    simp [hspec.2]
  refine ⟨.reported, ts, ?_, .stay rfl, ?_⟩
  · rw [← set_self ht]
    refine ⟨?_, ?_, held_keep h.left hP (by rw [hpc]; rfl), held_keep h.conn hP (by rw [hpc]; rfl),
      quiet_reported (.inl hrecv) hinbox ?_ hspec.1⟩
    · rw [hplanes, List.length_set, List.length_set, h.length]
    · refine h.planes.set hP ht hplanes ⟨⟨hnone p, hrp, hplane, htdone, ?_⟩, ?_⟩
        fun q X x hq hok => ?_
      · cases hd : P.done with
        | true => exact .retired hd hqueue htodo
        | false => exact .waiting hd hqueue (by rw [htodo]; simp)
      · rintro (h | h) <;> cases h
      · show PlaneOk a ph false X x (requestsOf q [msg]) _
        rw [hnone q]
        exact hok
    · refine Planes.set (Q := fun q X x => q ≠ p → Calm false X x) (fun q X x hX hx hq => ?_) hP ht
        hplanes ⟨hinactive', by simp [P', PlaneThread.reporting, PlanePc.station], htodo⟩
        fun q X x hq hc => hc hq
      have hXin := hfly.inactive hzero (List.mem_of_getElem? hX)
      refine ⟨hXin, ?_, hfly.todo q X x hX hx hXin⟩
      by_contra hrep
      obtain ⟨ph', pc, hXpc, -⟩ := exists_report_of_reporting (by simpa using hrep)
      cases h.left.unique (i := .plane q) (j := .plane p)
        ((holds_plane hX).mpr (by rw [hXpc]; rfl)) ((holds_plane hP).mpr hholds)
      exact hq rfl
  · have hflags : A.done = (A.setPlane p P').done := by
      show A.planes.map (·.done) = (A.planes.set p P').map (·.done)
      exact (map_set_of_eq (·.done) hP (show P'.done = P.done from rfl)).symm
    have hemits : Emits a ph [.sent a msg A.done] .busy A ts .reported (A.setPlane p P')
        (ts.set p t) := Emits.of_set .report hP ht hplanes (by simp [Event.isOf])
      (by simp [Event.signal, hspec.1, Status.signals])
      (fun grounded hg => ⟨hg, ?_⟩) (.inl rfl)
      (fun _ h' => by rw [show P'.queue = P.queue from rfl, hqueue] at h'; cases h')
      (fun m flags hm _ => ?_) (by simp)
    · rwa [set_self ht] at hemits
    · unfold doneSoFar
      rw [hinactive', hinactive, hpc]
      simp [P', PlanePc.station]
    · simp only [List.mem_singleton, Event.sent.injEq, true_and] at hm
      obtain ⟨rfl, rfl⟩ := hm
      exact ⟨hflags, hflags ▸ hmsg⟩

/-- A step of the report: it is written, or the plane stays at it, or lets go of the connection. -/
theorem AirlineOk.reportStepped {room : Bool} {r : ReportStep}
    (h : AirlineOk a ph st A ts out pend) (hP : A.planes[p]? = some P) {w : Phase} {pc : ReportPc}
    (hpc : P.pc = .report w pc) (hr : reportStep a room A (.plane p) pc = some r) :
    Stepped a ph st A ts out pend (sentEvents a A r.sent)
      ({ A with conn := r.conn }.setPlane p { P with pc := match r.next with
        | some pc => .report w pc
        | none => .unlockLeft w }) r.sent := by
  by_cases hunlock : pc = .unlockConn
  · subst hunlock
    cases hr
    exact h.move hP (by rw [hpc]; rfl) (held_keep h.left hP (by rw [hpc]; rfl))
      (held_release h.conn hP (by rw [hpc]; rfl) rfl) (by rintro (h | h) <;> cases h)
      (by simp [hpc]) (fun _ _ h => by cases h)
  · have hreporting : P.reporting = true := reporting_of_report hpc hunlock
    obtain ⟨hfly, -⟩ := h.flying hP (.inr hreporting) (by rw [hpc]; rfl)
    obtain ⟨-, hstage, -, -⟩ := h.busy hP (.inr hreporting)
    have hreport := (hfly.report P (List.mem_of_getElem? hP) w pc hpc hunlock).2
    rcases reportStep_cases hr hstage hreport with
      ⟨pc', hnext, hne, hnew, hsent, hconn⟩ | ⟨msg, rfl, -, hnext, hconn, hsent, -⟩
    · rw [hnext, hsent]
      have hstation : ∀ pc : ReportPc, pc ≠ .unlockConn →
          (PlanePc.report w pc).station = .reporting w := by
        intro pc hpc
        cases pc with
        | unlockConn => exact absurd rfl hpc
        | stage | count _ _ | lockConn _ | send _ => rfl
      refine h.move hP (by rw [hpc, hstation pc hunlock]; exact hstation pc' hne)
        (held_keep h.left hP (by rw [hpc]; rfl)) ?_ (by rintro (h | h) <;> cases h) (by simp [hpc])
        (fun _ _ h _ => by cases h; exact hnew)
      rcases hconn with ⟨hconn, hsame⟩ | ⟨hfree, hconn, htaken⟩
      · rw [hconn]
        exact held_keep h.conn hP (by rw [hpc]; exact hsame)
      · have hold := h.conn
        rw [hfree] at hold
        rw [hconn]
        exact held_acquire hold hP htaken
    · rw [hnext, hsent, hconn]
      exact h.reportSent hP hpc

/-! ## All steps -/

/-- **Every step of a plane keeps its airline in order.** -/
theorem plane_stepped {room : Bool} {es : List Event} {sent : Option PlaneMessage}
    (h : AirlineOk a ph st A ts out pend) (hts : Carries ts)
    (hstep : planeStep a room A p = some (es, A', sent)) :
    Stepped a ph st A ts out pend es A' sent := by
  unfold planeStep at hstep
  obtain ⟨P, hP, hstep⟩ := Option.bind_eq_some_iff.mp hstep
  obtain ⟨t, ht⟩ := h.exists_abstract hP
  have hok := h.planeOk hP ht
  have hs := hok.station
  cases hpc : P.pc with
  | top =>
    rw [hpc] at hs
    obtain ⟨-, -, -, -, hrest⟩ := hs
    have hstation : P.pc.station = .rest .one := by rw [hpc]; rfl
    simp only [hpc] at hstep
    cases hrest with
    | retired hdone _ _ =>
      rw [if_pos hdone] at hstep
      cases hstep
      exact h.retire hP hstation hdone (held_keep h.left hP (by rw [hpc]; rfl)) (by rw [hpc]; rfl)
    | waiting hdone hqueue _ =>
      rw [if_neg (by simp [hdone]), hqueue] at hstep
      cases hstep
    | started hdone hqueue _ _ =>
      rw [if_neg (by simp [hdone]), hqueue] at hstep
      cases hstep
      by_cases hground : P.plane.distance = 0
      · rw [if_pos hground]
        exact h.wake hP hstation hqueue hground (by rw [hpc]; rfl) (by rw [hpc]; rfl) rfl
      · rw [if_neg hground]
        exact h.pass hP hstation hqueue hground (by rw [hpc]; rfl) (by rw [hpc]; rfl)
          (.inl ⟨rfl, rfl⟩)
    | leaving hdone hqueue _ _ _ _ =>
      rw [if_neg (by simp [hdone]), hqueue] at hstep
      cases hstep
      exact h.leave hP hpc hqueue
  | safe action =>
    -- End never reaches a plane here
    have hno : P.queue.head? ≠ some .finish := by
      rw [hpc] at hs
      cases action with
      | unload | unloadSend | check =>
        obtain ⟨-, -, -, -, -, hqueue, -⟩ := hs
        simp [hqueue]
      | ready w =>
        obtain ⟨-, -, -, -, -, hqueue, -⟩ := hs
        simp [hqueue]
      | cont =>
        obtain ⟨-, -, -, -, hrest⟩ := hs
        cases hrest with
        | retired _ hqueue _ | waiting _ hqueue _ | started _ hqueue _ _ => simp [hqueue]
        | leaving _ _ _ _ hnext _ => cases hnext
    simp only [hpc] at hstep
    rw [if_neg hno] at hstep
    cases hstep
    refine h.move hP (by rw [hpc]; cases action <;> rfl)
      (held_keep h.left hP (by rw [hpc]; cases action <;> rfl))
      (held_keep h.conn hP (by rw [hpc]; cases action <;> rfl)) (fun hcont => ?_) (by simp [hpc])
      (fun _ _ h => by cases action <;> cases h)
    refine hok.awake (.inl ?_)
    rw [hpc]
    cases action <;> rcases hcont with hcont | hcont <;> cases hcont
    rfl
  | lockConn w =>
    simp only [hpc] at hstep
    split at hstep
    · rename_i hfree
      cases hstep
      have hconn := h.conn
      rw [hfree] at hconn
      exact h.move hP (by rw [hpc]; rfl) (held_keep h.left hP (by rw [hpc]; rfl))
        (held_acquire hconn hP rfl) (by rintro (h | h) <;> cases h) (by simp [hpc])
        (fun _ _ h => by cases h)
    · cases hstep
  | send w =>
    obtain ⟨msg, hmsg, hstepped⟩ := h.ask hts hP hpc
    simp only [hpc, hmsg] at hstep
    split at hstep
    · cases hstep
      exact hstepped
    · cases hstep
  | unlockConn w =>
    simp only [hpc] at hstep
    cases hstep
    exact h.move hP (by rw [hpc]; rfl) (held_keep h.left hP (by rw [hpc]; rfl))
      (held_release h.conn hP (by rw [hpc]; rfl) rfl) (by rintro (h | h) <;> cases h)
      (by simp [hpc]) (fun _ _ h => by cases h)
  | reply w =>
    simp only [hpc] at hstep
    cases hqueue : P.queue with
    | nil =>
      rw [hqueue] at hstep
      cases hstep
    | cons msg queue =>
      obtain ⟨plane, done, htake, hstepped⟩ := h.store hP hpc hqueue
      simp only [hqueue, htake] at hstep
      cases hstep
      exact hstepped
  | cont =>
    rw [hpc] at hs
    obtain ⟨-, -, -, -, hrest⟩ := hs
    have hstation : P.pc.station = .rest .two := by rw [hpc]; rfl
    simp only [hpc] at hstep
    cases hrest with
    | retired hdone _ _ =>
      rw [hok.awake (.inr hpc)] at hdone
      cases hdone
    | waiting hdone hqueue _ =>
      rw [hqueue] at hstep
      cases hstep
    | started hdone hqueue _ _ =>
      rw [hqueue] at hstep
      dsimp only at hstep
      by_cases hground : P.plane.distance = 0
      · rw [if_pos hground] at hstep
        cases hstep
        exact h.wake hP hstation hqueue hground (by rw [hpc]; rfl) (by rw [hpc]; rfl) rfl
      · rw [if_neg hground] at hstep
        cases hstep
        exact h.pass hP hstation hqueue hground (by rw [hpc]; rfl) (by rw [hpc]; rfl)
          (.inr ⟨rfl, rfl⟩)
    | leaving _ _ _ _ hnext _ => cases hnext
  | lockLeft w =>
    simp only [hpc] at hstep
    split at hstep
    · rename_i hfree
      cases hstep
      have hleft := h.left
      rw [hfree] at hleft
      exact h.move hP (by rw [hpc]; rfl) (held_acquire hleft hP rfl)
        (held_keep h.conn hP (by rw [hpc]; rfl)) (by rintro (h | h) <;> cases h) (by simp [hpc])
        (fun _ _ h => by cases h)
    · cases hstep
  | dec w =>
    simp only [hpc] at hstep
    cases hstep
    exact h.count hP hpc rfl
  | report w pc =>
    simp only [hpc] at hstep
    obtain ⟨r, hr, hstep⟩ := Option.map_eq_some_iff.mp hstep
    cases hstep
    exact h.reportStepped hP hpc hr
  | unlockLeft w =>
    simp only [hpc] at hstep
    cases hstep
    have hrelease : ∀ pc' : PlanePc, pc'.holdsLeft = false →
        Held none (holdsLeft A.pc (A.planes.set p { P with pc := pc' })) :=
      fun pc' hpc' => held_release h.left hP (by rw [hpc]; rfl) hpc'
    cases w with
    | one =>
      by_cases hdone : P.done = true
      · have hexit : afterReady P.done .one = .exited := by rw [hdone]; rfl
        rw [hexit]
        exact h.retire hP (by rw [hpc]; rfl) hdone (hrelease _ rfl) (by rw [hpc]; rfl)
      · have hdone : P.done = false := by simpa using hdone
        have hcont : afterReady P.done .one = .safe .cont := by rw [hdone]; rfl
        rw [hcont]
        exact h.move hP (by rw [hpc]; rfl) (hrelease _ rfl)
          (held_keep h.conn hP (by rw [hpc]; rfl)) (fun _ => hdone) (by simp [hpc])
          (fun _ _ h => by cases h)
    | two =>
      exact h.move hP (by rw [hpc]; rfl) (hrelease _ rfl) (held_keep h.conn hP (by rw [hpc]; rfl))
        (by rintro (h | h) <;> cases h) (by simp [hpc]) (fun _ _ h => by cases h)
  | exited =>
    simp only [hpc] at hstep
    cases hstep

end Steps

end PlaneSim
