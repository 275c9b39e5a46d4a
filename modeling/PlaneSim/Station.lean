import PlaneSim.System
import PlaneSim.Turn
import PlaneSim.Lib.Lock

/-!
# Planes within a phase

What a plane thread is doing as far as the others can tell (`Station`), which locks it holds, and
how it stands to the plane of the abstract turn (`PlaneOk`): until the map has served its request
the two are the same, and from then on the abstract plane is what the thread becomes by storing
the reply. One message is on its way for a plane that has asked, and none for any other.
-/

namespace PlaneSim

open Lts Update Lock

inductive Station where
  /-- Waiting for the start of a phase, or retired. -/
  | rest (phase : Phase)
  /-- On the ground, with its request ahead of it. -/
  | work (phase : Phase)
  /-- Has written its request and not taken the reply. -/
  | asked (phase : Phase)
  /-- Has only to be counted. -/
  | finished (phase : Phase)
  /-- Reporting for the airline, with the message ahead of it. -/
  | reporting (phase : Phase)
  | gone
deriving DecidableEq, Repr

def PlanePc.station : PlanePc → Station
  | .top => .rest .one
  | .safe .unload => .work .one
  | .safe .unloadSend => .work .one
  | .safe (.ready phase) => .finished phase
  | .safe .cont => .rest .two
  | .safe .check => .work .two
  | .lockConn phase => .work phase
  | .send phase => .work phase
  | .unlockConn phase => .asked phase
  | .reply phase => .asked phase
  | .cont => .rest .two
  | .lockLeft phase => .finished phase
  | .dec phase => .finished phase
  | .report phase .unlockConn => .rest phase.next
  | .report phase _ => .reporting phase
  | .unlockLeft phase => .rest phase.next
  | .exited => .gone

/-- The plane is one that `planesLeft` counts. -/
def PlaneThread.active (P : PlaneThread) : Bool :=
  match P.pc.station, P.queue with
  | .rest _, .start _ :: _ => true
  | .work _, _ => true
  | .asked _, _ => true
  | .finished _, _ => true
  | _, _ => false

def PlaneThread.reporting (P : PlaneThread) : Bool :=
  match P.pc.station with
  | .reporting _ => true
  | _ => false

/-! ## Locks -/

def ReportPc.holdsConn : ReportPc → Bool
  | .send _ => true
  | .unlockConn => true
  | _ => false

def PlanePc.holdsLeft : PlanePc → Bool
  | .dec _ => true
  | .report _ _ => true
  | .unlockLeft _ => true
  | _ => false

def PlanePc.holdsConn : PlanePc → Bool
  | .send _ => true
  | .unlockConn _ => true
  | .report _ pc => pc.holdsConn
  | _ => false

def ListenPc.holdsLeft : ListenPc → Bool
  | .scan _ _ => true
  | .report _ => true
  | .bcast _ _ => true
  | .unlockLeft => true
  | _ => false

def ListenPc.holdsConn : ListenPc → Bool
  | .report pc => pc.holdsConn
  | _ => false

/-- The threads whose program counters say that they hold a lock. -/
def holds (listener : ListenPc → Bool) (plane : PlanePc → Bool) (pc : ListenPc)
    (planes : List PlaneThread) : Thread → Prop
  | .listener => listener pc = true
  | .plane p => ∃ P, planes[p]? = some P ∧ plane P.pc = true

/-- `planesLeftLock` -/
abbrev holdsLeft : ListenPc → List PlaneThread → Thread → Prop :=
  holds ListenPc.holdsLeft PlanePc.holdsLeft

/-- The write lock of the connection to the map. -/
abbrev holdsConn : ListenPc → List PlaneThread → Thread → Prop :=
  holds ListenPc.holdsConn PlanePc.holdsConn

section Locks

variable {listener : ListenPc → Bool} {plane : PlanePc → Bool} {pc pc' : ListenPc}
  {planes : List PlaneThread} {p : ℕ} {P P' : PlaneThread} {lock : Option Thread}

theorem holds_plane (h : planes[p]? = some P) :
    holds listener plane pc planes (.plane p) ↔ plane P.pc = true := by
  simp [holds, h]

theorem getElem?_set_plane (h : planes[p]? = some P) : (planes.set p P')[p]? = some P' :=
  List.getElem?_set_self (List.getElem?_eq_some_iff.mp h).1

theorem holds_set_ne {x : Thread} (hx : x ≠ .plane p) :
    holds listener plane pc (planes.set p P') x ↔ holds listener plane pc planes x := by
  cases x with
  | listener => exact Iff.rfl
  | plane q =>
    have hq : p ≠ q := fun he => hx (by rw [he])
    simp [holds, List.getElem?_set_ne hq]

theorem holds_listen_ne {x : Thread} (hx : x ≠ .listener) :
    holds listener plane pc' planes x ↔ holds listener plane pc planes x := by
  cases x with
  | listener => exact absurd rfl hx
  | plane q => exact Iff.rfl

/-- A plane goes on without touching the lock. -/
theorem held_keep (h : Held lock (holds listener plane pc planes)) (hP : planes[p]? = some P)
    (hkeep : plane P'.pc = plane P.pc) : Held lock (holds listener plane pc (planes.set p P')) := by
  refine h.congr fun x => ?_
  by_cases hx : x = .plane p
  · subst hx
    rw [holds_plane (getElem?_set_plane hP), holds_plane hP, hkeep]
  · exact holds_set_ne hx

theorem held_acquire (h : Held none (holds listener plane pc planes)) (hP : planes[p]? = some P)
    (hnew : plane P'.pc = true) :
    Held (some (.plane p)) (holds listener plane pc (planes.set p P')) :=
  h.acquire ((holds_plane (getElem?_set_plane hP)).mpr hnew) fun _ => holds_set_ne

theorem held_release (h : Held lock (holds listener plane pc planes)) (hP : planes[p]? = some P)
    (hold : plane P.pc = true) (hnew : plane P'.pc = false) :
    Held none (holds listener plane pc (planes.set p P')) :=
  h.release ((holds_plane hP).mpr hold)
    (by rw [holds_plane (getElem?_set_plane hP), hnew]; simp) fun _ => holds_set_ne

/-- The listener goes on without touching the lock. -/
theorem held_listen_keep (h : Held lock (holds listener plane pc planes))
    (hkeep : listener pc' = listener pc) : Held lock (holds listener plane pc' planes) := by
  refine h.congr fun x => ?_
  cases x with
  | listener => simp [holds, hkeep]
  | plane q => exact Iff.rfl

theorem held_listen_acquire (h : Held none (holds listener plane pc planes))
    (hnew : listener pc' = true) : Held (some .listener) (holds listener plane pc' planes) :=
  h.acquire hnew fun _ => holds_listen_ne

theorem held_listen_release (h : Held lock (holds listener plane pc planes))
    (hold : listener pc = true) (hnew : listener pc' = false) :
    Held none (holds listener plane pc' planes) :=
  h.release (i := .listener) hold (by simp [holds, hnew]) fun _ => holds_listen_ne

end Locks

/-! ## A thread and its abstract plane -/

/-- A plane that waits for phase `w`, or has retired. -/
inductive Rest (ph w : Phase) (ending : Bool) (P : PlaneThread) (t : TurnPlane) : Prop where
  | retired (done : P.done = true) (queue : P.queue = []) (todo : t.todo = false)
  | waiting (done : P.done = false) (queue : P.queue = []) (todo : t.todo = decide (ph = w))
  | started (done : P.done = false) (queue : P.queue = [.start w]) (todo : t.todo = true)
      (phase : ph = w)
  | leaving (done : P.done = false) (queue : P.queue = [.finish]) (todo : t.todo = true)
      (phase : ph = .one) (next : w = .one) (ending : ending = true)

/-- A plane that has asked: either the request or the reply is on its way. -/
inductive Asked (a : ℕ) (ph : Phase) (P : PlaneThread) (t : TurnPlane) (rq : List PlaneMessage)
    (rp : List Message) : Prop where
  | request (msg : PlaneMessage) (plane : t.plane = P.plane) (done : t.done = false)
      (todo : t.todo = true) (ground : P.plane.distance = 0)
      (sent : request a P.plane ph = some msg) (rq : rq = [msg]) (rp : rp = [])
  | reply (msg : Message) (todo : t.todo = false)
      (take : takeReply P.plane ph msg = some (t.plane, some t.done)) (rq : rq = [])
      (rp : rp = [msg])

/-- `rq` are the plane's requests in the inbox of the map, `rp` the replies that have not reached
its queue. -/
def StationOk (a : ℕ) (ph : Phase) (ending : Bool) (P : PlaneThread) (t : TurnPlane)
    (rq : List PlaneMessage) (rp : List Message) : Station → Prop
  | .rest w => rq = [] ∧ rp = [] ∧ t.plane = P.plane ∧ t.done = P.done ∧ Rest ph w ending P t
  | .work w => rq = [] ∧ rp = [] ∧ t.plane = P.plane ∧ t.done = P.done ∧ ph = w ∧ P.queue = [] ∧
      P.done = false ∧ t.todo = true ∧ P.plane.distance = 0
  | .asked w => ph = w ∧ P.done = false ∧ Asked a ph P t rq (rp ++ P.queue)
  | .finished w => rq = [] ∧ rp = [] ∧ t.plane = P.plane ∧ t.done = P.done ∧ ph = w ∧
      P.queue = [] ∧ t.todo = false
  | .reporting w => rq = [] ∧ rp = [] ∧ t.plane = P.plane ∧ t.done = P.done ∧ ph = w ∧
      P.queue = [] ∧ t.todo = false
  | .gone => rq = [] ∧ rp = [] ∧ t.plane = P.plane ∧ P.queue = [] ∧ P.done = true ∧
      (t.done = true ∧ t.todo = false ∨ ending = true)

structure PlaneOk (a : ℕ) (ph : Phase) (ending : Bool) (P : PlaneThread) (t : TurnPlane)
    (rq : List PlaneMessage) (rp : List Message) : Prop where
  station : StationOk a ph ending P t rq rp P.pc.station
  awake : P.pc = .safe .cont ∨ P.pc = .cont → P.done = false

section PlaneOk

variable {a : ℕ} {ph : Phase} {ending : Bool} {P : PlaneThread} {t : TurnPlane}
  {rq : List PlaneMessage} {rp : List Message}

/-- Only a plane that has asked has messages on their way. -/
theorem PlaneOk.idle (h : PlaneOk a ph ending P t rq rp) (hp : ∀ w, P.pc.station ≠ .asked w) :
    rq = [] ∧ rp = [] ∧ t.plane = P.plane := by
  have hs := h.station
  cases hst : P.pc.station with
  | asked w => exact absurd hst (hp w)
  | rest w | work w | finished w | reporting w | gone =>
    rw [hst] at hs
    exact ⟨hs.1, hs.2.1, hs.2.2.1⟩

/-- No queue holds more than one message. -/
theorem PlaneOk.queue_le (h : PlaneOk a ph ending P t rq rp) : P.queue.length ≤ 1 := by
  have hs := h.station
  cases hst : P.pc.station with
  | rest w =>
    rw [hst] at hs
    cases hs.2.2.2.2 with
    | retired _ queue _ => simp [queue]
    | waiting _ queue _ => simp [queue]
    | started _ queue _ _ => simp [queue]
    | leaving _ queue _ _ _ _ => simp [queue]
  | asked w =>
    rw [hst] at hs
    cases hs.2.2 with
    | request msg _ _ _ _ _ _ rp =>
      rw [(List.append_eq_nil_iff.mp rp).2]
      simp
    | reply msg _ _ _ rp =>
      have := congrArg List.length rp
      simp at this
      omega
  | work w =>
    rw [hst] at hs
    rw [hs.2.2.2.2.2.1]
    simp
  | finished w | reporting w =>
    rw [hst] at hs
    rw [hs.2.2.2.2.2.1]
    simp
  | gone =>
    rw [hst] at hs
    rw [hs.2.2.2.1]
    simp

end PlaneOk

end PlaneSim
