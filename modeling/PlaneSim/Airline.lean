import PlaneSim.Exchange

/-!
# An airline process

The threads of one airline: the listener (`listen` and what `run_airline` does after it) and one
thread for each plane (`run_plane`). A step is one access to something the threads share: a queue, a
lock, a flag, the counter, or the inbox of the map.

* `planesLeftLock` and the write lock of the connection to the map are `leftLock` and `conn`: the
  thread that holds them.
* `planeStep` and `listenStep` give the events of a step, the airline afterwards and the message it
  wrote to the inbox of the map, which must have room for it. A thread that cannot go on has no step.
* A thread whose next step has no defined effect prints an error and is gone, as after
  `pthread_exit`.
-/

namespace PlaneSim

/-- The 9 messages a `MessageQueue` of `QUEUE_SIZE` 10 holds. -/
def QUEUE_SIZE : ℕ := 10

inductive Thread where
  | listener
  | plane (p : ℕ)
deriving DecidableEq, Repr

/-- What the runs of the system report. -/
inductive Event where
  /-- `msg` enters the inbox of the map; `done` are the flags of the airline's planes. -/
  | sent (airline : ℕ) (msg : PlaneMessage) (done : List Bool)
  /-- A receive of `runMap`: the message taken (`none` when the receive failed), and the one acted
  on. -/
  | receive (phase : Phase) (got acted : Option PlaneMessage)
  /-- The map unloads a plane's stock in a city. -/
  | applied (airline plane : Int) (city stocks : List Stock)
  /-- The listener takes a message; `planes` are the flags and distances of its planes. -/
  | got (airline : ℕ) (msg : MapMessage) (planes : List (Bool × Int))
  /-- A plane has stored the reply to its request. -/
  | stored (airline plane : ℕ)
  /-- A plane is counted in `app_airline_plane_ready`. -/
  | ready (airline plane : ℕ) (phase : Phase)
  /-- End is pushed to a plane. -/
  | ended (airline plane : ℕ)
  /-- An error line is printed, or a plane takes a message that is none of those it waits for. -/
  | error
deriving DecidableEq, Repr

/-! ## Program counters -/

/-- Inside `send_ready_message`. -/
inductive ReportPc where
  | stage
  | count (i : ℕ) (flying : Int)
  | lockConn (msg : PlaneMessage)
  | send (msg : PlaneMessage)
  | unlockConn
deriving DecidableEq, Repr

/-- What `SafeAction` guards. -/
inductive Safe where
  | unload
  | unloadSend
  | ready (phase : Phase)
  | cont
  | check
deriving DecidableEq, Repr

inductive PlanePc where
  /-- `while (self->done == 0 && comm_step(self) != -1)` -/
  | top
  /-- The `message_queue_peek` of a `SafeAction`. -/
  | safe (action : Safe)
  /-- The `ipc_write` of `comm_unload_stock` or `comm_check_destinations`. -/
  | lockConn (phase : Phase)
  | send (phase : Phase)
  | unlockConn (phase : Phase)
  /-- The `message_queue_pop` after it. -/
  | reply (phase : Phase)
  /-- `comm_continue` -/
  | cont
  /-- `app_airline_plane_ready` -/
  | lockLeft (phase : Phase)
  | dec (phase : Phase)
  | report (phase : Phase) (pc : ReportPc)
  | unlockLeft (phase : Phase)
  | exited
deriving DecidableEq, Repr

inductive ListenPc where
  | recv
  /-- `start_phase` -/
  | lockLeft (phase : Phase)
  | scan (phase : Phase) (i : ℕ)
  | report (pc : ReportPc)
  | bcast (phase : Phase) (i : ℕ)
  | unlockLeft
  /-- `message_queue_push` of a redirected reply. -/
  | push (id : Int) (msg : Message)
  /-- `broadcast` of End, then `pthread_join`. -/
  | finish (i : ℕ)
  | join (i : ℕ)
  | stopped
deriving DecidableEq, Repr

/-! ## State -/

/-- `struct PlaneThread` with its thread. -/
structure PlaneThread where
  pc : PlanePc
  queue : List Message
  plane : Plane
  done : Bool
deriving DecidableEq, Repr

structure AirlineState where
  inbox : List MapMessage
  stage : Phase
  pc : ListenPc
  planesLeft : Int
  leftLock : Option Thread
  conn : Option Thread
  planes : List PlaneThread
deriving DecidableEq, Repr

/-- `bootstrap_planes` -/
def bootstrapPlanes (airline : Airline) : AirlineState where
  inbox := []
  stage := .one
  pc := .recv
  planesLeft := 0
  leftLock := none
  conn := none
  planes := airline.planes.map fun plane =>
    { pc := .top, queue := [], plane := plane, done := false }

def AirlineState.setPlane (A : AirlineState) (p : ℕ) (P : PlaneThread) : AirlineState :=
  { A with planes := A.planes.set p P }

/-- The flags of the planes. -/
def AirlineState.done (A : AirlineState) : List Bool := A.planes.map (·.done)

/-- The events of a step, the airline afterwards, and what was written to the map. -/
abbrev AirlineStep := List Event × AirlineState × Option PlaneMessage

/-! ## Planes -/

/-- The request a plane sends in a phase. -/
def request (a : ℕ) (plane : Plane) : Phase → Option PlaneMessage
  | .one => (marshallChangeStock a plane.id plane.cityId plane.stocks).map .unloadStock
  | .two => (marshallCheckDestinations a plane.id plane.cityId plane.stocks 5).map .checkDestinations

/-- Where the plane goes with the destinations it was given, and whether it stays for good. -/
def chooseDestination (plane : Plane) : List Int → List Int → Plane × Bool
  | city :: _, distance :: _ => ({ plane with cityId := city, distance := distance }, false)
  | _, _ => (plane, true)

/-- The plane after the reply, and whether it is done; `none` for a result of `-1`. -/
def takeReply (plane : Plane) : Phase → Message → Option (Plane × Option Bool)
  | .one, .stock count delta => unloadStock plane count delta
  | .two, .destinations count destinations distances =>
    (takeDestinations 5 count destinations distances).map fun (destinations, distances) =>
      ((chooseDestination plane destinations distances).1,
        some (chooseDestination plane destinations distances).2)
  | _, _ => some (plane, none)

/-- Where a plane goes after `SafeAction` has let it pass. -/
def Safe.enter : Safe → PlanePc
  | .unload => .safe .unloadSend
  | .unloadSend => .lockConn .one
  | .ready phase => .lockLeft phase
  | .cont => .cont
  | .check => .lockConn .two

/-- Where a plane is after `app_airline_plane_ready`. -/
def afterReady (done : Bool) : Phase → PlanePc
  | .one => if done then .exited else .safe .cont
  | .two => .top

/-- The result of a step of `send_ready_message`. -/
structure ReportStep where
  next : Option ReportPc
  conn : Option Thread
  sent : Option PlaneMessage

/-- `send_ready_message` of `thread`; it returns where `next` is `none`. -/
def reportStep (a : ℕ) (room : Bool) (A : AirlineState) (thread : Thread) :
    ReportPc → Option ReportStep
  | .stage =>
    match A.stage with
    | .two => some { next := some (.count 0 0), conn := A.conn, sent := none }
    | .one => some { next := some (.lockConn .airlineDone), conn := A.conn, sent := none }
  | .count i flying =>
    match A.planes[i]? with
    | some P =>
      some { next := some (.count (i + 1) (if P.done then flying else flying + 1))
             conn := A.conn, sent := none }
    | none =>
      some { next := some (.lockConn
               (.airlineStatus (marshallSendAirlineStatus flying A.planes.length a)))
             conn := A.conn, sent := none }
  | .lockConn msg =>
    if A.conn = none then some { next := some (.send msg), conn := some thread, sent := none }
    else none
  | .send msg =>
    if room then some { next := some .unlockConn, conn := A.conn, sent := some msg } else none
  | .unlockConn => some { next := none, conn := none, sent := none }

/-- The event of a message that enters the inbox of the map. -/
def sentEvents (a : ℕ) (A : AirlineState) : Option PlaneMessage → List Event
  | some msg => [.sent a msg A.done]
  | none => []

/-- `run_plane` of plane `p` of airline `a`. -/
def planeStep (a : ℕ) (room : Bool) (A : AirlineState) (p : ℕ) : Option AirlineStep := do
  let P ← A.planes[p]?
  match P.pc with
  | .top =>
    if P.done then
      some ([], A.setPlane p { P with pc := .exited }, none)
    else
      match P.queue with
      | [] => none
      | .start .one :: queue =>
        let pc : PlanePc := if P.plane.distance = 0 then .safe .unload else .safe (.ready .one)
        some ([], A.setPlane p { P with pc := pc, queue := queue }, none)
      | .finish :: queue =>
        some ([], A.setPlane p { P with pc := .exited, queue := queue, done := true }, none)
      | _ :: queue =>
        some ([.error], A.setPlane p { P with pc := .exited, queue := queue, done := true }, none)
  | .safe action =>
    if P.queue.head? = some .finish then
      some ([], A.setPlane p { P with pc := .exited }, none)
    else
      some ([], A.setPlane p { P with pc := action.enter }, none)
  | .lockConn phase =>
    if A.conn = none then
      some ([], { A with conn := some (.plane p) }.setPlane p { P with pc := .send phase }, none)
    else none
  | .send phase =>
    match request a P.plane phase with
    | none => some ([.error], A.setPlane p { P with pc := .exited }, none)
    | some msg =>
      if room then
        some ([.sent a msg A.done], A.setPlane p { P with pc := .unlockConn phase }, some msg)
      else none
  | .unlockConn phase =>
    some ([], { A with conn := none }.setPlane p { P with pc := .reply phase }, none)
  | .reply phase =>
    match P.queue with
    | [] => none
    | msg :: queue =>
      match takeReply P.plane phase msg with
      | some (plane, some done) =>
        some ([.stored a p],
          A.setPlane p { P with pc := .safe (.ready phase), queue := queue, plane := plane
                                done := P.done || done }, none)
      | some (plane, none) =>
        some ([.error], A.setPlane p { P with pc := .exited, queue := queue, plane := plane }, none)
      | none => some ([.error], A.setPlane p { P with pc := .exited, queue := queue }, none)
  | .cont =>
    match P.queue with
    | [] => none
    | .start .two :: queue =>
      if P.plane.distance = 0 then
        some ([], A.setPlane p { P with pc := .safe .check, queue := queue }, none)
      else
        let plane := { P.plane with distance := P.plane.distance - 1 }
        some ([], A.setPlane p { P with pc := .safe (.ready .two), queue := queue, plane := plane },
          none)
    | _ :: queue => some ([.error], A.setPlane p { P with pc := .exited, queue := queue }, none)
  | .lockLeft phase =>
    if A.leftLock = none then
      some ([], { A with leftLock := some (.plane p) }.setPlane p { P with pc := .dec phase }, none)
    else none
  | .dec phase =>
    let left := A.planesLeft - 1
    let pc : PlanePc := if left = 0 then .report phase .stage else .unlockLeft phase
    some ([.ready a p phase], { A with planesLeft := left }.setPlane p { P with pc := pc }, none)
  | .report phase pc =>
    (reportStep a room A (.plane p) pc).map fun r =>
      let pc : PlanePc := match r.next with
        | some pc => .report phase pc
        | none => .unlockLeft phase
      (sentEvents a A r.sent, { A with conn := r.conn }.setPlane p { P with pc := pc }, r.sent)
  | .unlockLeft phase =>
    some ([], { A with leftLock := none }.setPlane p { P with pc := afterReady P.done phase }, none)
  | .exited => none

/-! ## The listener -/

/-- `message_queue_push` -/
def pushMessage (P : PlaneThread) (msg : Message) : Option PlaneThread :=
  if P.queue.length < QUEUE_SIZE - 1 then some { P with queue := P.queue ++ [msg] } else none

/-- The flags and distances of the planes. -/
def AirlineState.snapshot (A : AirlineState) : List (Bool × Int) :=
  A.planes.map fun P => (P.done, P.plane.distance)

/-- `listen`, and the rest of `run_airline`, of airline `a`. -/
def listenStep (a : ℕ) (room : Bool) (A : AirlineState) : Option AirlineStep :=
  match A.pc with
  | .recv =>
    match A.inbox with
    | [] => none
    | msg :: inbox =>
      let A := { A with inbox := inbox }
      let events : List Event := [.got a msg A.snapshot]
      match msg with
      | .start phase => some (events, { A with stage := phase, pc := .lockLeft phase }, none)
      | .stock msg =>
        let (id, out) := redirectStockMessage msg
        some (events, { A with pc := .push id out }, none)
      | .destinations msg =>
        let (id, out) := redirectDestinationsMessage msg
        some (events, { A with pc := .push id out }, none)
      | .finish => some (events, { A with pc := .finish 0 }, none)
  | .lockLeft phase =>
    if A.leftLock = none then
      some ([], { A with leftLock := some .listener, planesLeft := 0, pc := .scan phase 0 }, none)
    else none
  | .scan phase i =>
    match A.planes[i]? with
    | some P =>
      let left := if P.done then A.planesLeft else A.planesLeft + 1
      some ([], { A with planesLeft := left, pc := .scan phase (i + 1) }, none)
    | none =>
      let pc : ListenPc := if A.planesLeft = 0 then .report .stage else .bcast phase 0
      some ([], { A with pc := pc }, none)
  | .report pc =>
    (reportStep a room A .listener pc).map fun r =>
      let pc : ListenPc := match r.next with
        | some pc => .report pc
        | none => .unlockLeft
      (sentEvents a A r.sent, { A with conn := r.conn, pc := pc }, r.sent)
  | .bcast phase i =>
    match A.planes[i]? with
    | some P =>
      if P.done then some ([], { A with pc := .bcast phase (i + 1) }, none)
      else
        (pushMessage P (.start phase)).map fun P =>
          ([], { A with pc := .bcast phase (i + 1) }.setPlane i P, none)
    | none => some ([], { A with pc := .unlockLeft }, none)
  | .unlockLeft => some ([], { A with leftLock := none, pc := .recv }, none)
  | .push id msg =>
    match getFromVector A.planes id with
    | some P =>
      (pushMessage P msg).map fun P => ([], { A with pc := .recv }.setPlane id.toNat P, none)
    | none => some ([.error], { A with pc := .stopped }, none)
  | .finish i =>
    match A.planes[i]? with
    | some P =>
      if P.done then some ([], { A with pc := .finish (i + 1) }, none)
      else
        (pushMessage P .finish).map fun P =>
          ([.ended a i], { A with pc := .finish (i + 1) }.setPlane i P, none)
    | none => some ([], { A with pc := .join 0 }, none)
  | .join i =>
    match A.planes[i]? with
    | some P => if P.pc = .exited then some ([], { A with pc := .join (i + 1) }, none) else none
    | none => some ([], { A with pc := .stopped }, none)
  | .stopped => none

/-- A failed `comm_airline_recieve` ends `listen`. -/
def listenFail (A : AirlineState) : Option AirlineState :=
  if A.pc = .recv then some { A with pc := .finish 0 } else none

end PlaneSim
