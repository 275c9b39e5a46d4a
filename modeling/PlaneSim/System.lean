import PlaneSim.Airline
import PlaneSim.Lib.Lts

/-!
# The simulation

The map thread (`runMap`, and the `comm_end` after it) and the airlines. Every process has one
inbox, a FIFO queue of messages; the map's also remembers which airline each message came from,
which no step looks at. Writing to a full inbox blocks. Without the display (`NO_CURSES`) the map
thread does nothing else.

`step` takes one step of the thread an `Action` names; `reliableStep` is the same with no failing
receive.
-/

namespace PlaneSim

open Lts

structure Config where
  qsort : Qsort
  /-- How many messages an inbox holds; `none` is no limit. -/
  capacity : Option ℕ

/-- There is room for one more message. -/
def Config.room (cfg : Config) (length : ℕ) : Bool :=
  match cfg.capacity with
  | some capacity => length < capacity
  | none => true

inductive MapPc where
  /-- The test of the main loop. -/
  | head
  /-- `comm_turn_step` and `comm_turn_continue`, next for airline `i`. -/
  | send (phase : Phase) (i : ℕ)
  /-- A receive loop; `i` airlines have reported. -/
  | recv (phase : Phase) (i : ℕ)
  /-- About to write the reply to an airline. -/
  | reply (phase : Phase) (i : ℕ) (airline : Int) (msg : MapMessage)
  /-- `comm_end`, next for airline `i`. -/
  | finish (i : ℕ)
  | halted
  /-- After a step with no defined effect. -/
  | crashed
deriving DecidableEq, Repr

structure System where
  map : Map
  turn : ℕ
  exitState : Bool
  pc : MapPc
  /-- `union PlaneMessage msg`; never written before the first message. -/
  msg : Option PlaneMessage
  inbox : List (ℕ × PlaneMessage)
  airlines : List AirlineState
deriving DecidableEq, Repr

def System.init (map : Map) (airlines : List Airline) : System where
  map := map
  turn := 0
  exitState := false
  pc := .head
  msg := none
  inbox := []
  airlines := airlines.map bootstrapPlanes

/-! ## The map thread -/

def hasNoStocks (stocks : List Stock) : Bool := stocks.all fun stock => stock.amount = 0

def cityIsSatisfied (city : City) : Bool := hasNoStocks city.stock

/-- `endSimulation(map, turn) == CONTINUE_SIM` -/
def continueSim (map : Map) (turn : ℕ) : Bool :=
  turn < 70000 && map.cities.any fun city => !cityIsSatisfied city

/-- `runMap` has a branch for the message in this phase. -/
def handled : Phase → PlaneMessage → Bool
  | .one, .airlineDone => true
  | .one, .unloadStock _ => true
  | .two, .airlineStatus _ => true
  | .two, .checkDestinations _ => true
  | _, _ => false

/-- The errors `initPlane` prints for a message. -/
def initPlaneEvents (stocks : StockMessagePart) (header : PlaneMessageHeader) (map : Map) :
    List Event :=
  match initPlane stocks header map with
  | some (plane, map) => if initPlaneError plane map then [.error] else []
  | none => []

/-- The lists `updateMap` works on. -/
def appliedEvents (map : Map) (header : PlaneMessageHeader) (stocks : StockMessagePart) :
    List Event :=
  match initPlane stocks header map with
  | some (plane, map) =>
    match getFromVector map.cities plane.cityId with
    | some city => [.applied header.airline header.id city.stock plane.stocks]
    | none => []
  | none => []

/-- What a receive loop does with the message in `msg`. -/
def act (cfg : Config) (s : System) (phase : Phase) (i : ℕ) (msg : PlaneMessage) :
    List Event × System :=
  match phase, msg with
  | .one, .airlineDone => ([], { s with pc := .recv .one (i + 1) })
  | .one, .unloadStock msg =>
    match serveUnload s.map msg with
    | some (map, airline, reply) =>
      (initPlaneEvents msg.stocks msg.header s.map ++ appliedEvents s.map msg.header msg.stocks,
        { s with map := map, pc := .reply .one i airline reply })
    | none => ([.error], { s with pc := .crashed })
  | .two, .airlineStatus _ => ([], { s with pc := .recv .two (i + 1) })
  | .two, .checkDestinations msg =>
    match serveDestinations cfg.qsort s.map msg with
    | some (map, airline, reply) =>
      (initPlaneEvents msg.stocks msg.header s.map,
        { s with map := map, pc := .reply .two i airline reply })
    | none => ([.error], { s with pc := .crashed })
  | _, _ => ([.error], s)

/-- Writing `msg` to the inbox of airline `i`. -/
def System.deliver (cfg : Config) (s : System) (i : ℕ) (msg : MapMessage) : Option System := do
  let A ← s.airlines[i]?
  if cfg.room A.inbox.length then
    some { s with airlines := s.airlines.set i { A with inbox := A.inbox ++ [msg] } }
  else none

/-- Where `runMap` goes when every airline has reported. -/
def Phase.after : Phase → MapPc
  | .one => .send .two 0
  | .two => .head

def mapStep (cfg : Config) (s : System) : Option (List Event × System) :=
  match s.pc with
  | .head =>
    if !s.exitState && continueSim s.map s.turn then
      some ([], { s with turn := s.turn + 1, pc := .send .one 0 })
    else some ([], { s with pc := .finish 0 })
  | .send phase i =>
    if i < s.airlines.length then
      (s.deliver cfg i (.start phase)).map fun s => ([], { s with pc := .send phase (i + 1) })
    else some ([], { s with pc := .recv phase 0 })
  | .recv phase i =>
    if i = s.airlines.length then some ([], { s with pc := phase.after })
    else
      match s.inbox with
      | [] => none
      | (_, msg) :: inbox =>
        let (events, s) := act cfg { s with inbox := inbox, msg := some msg } phase i msg
        some (.receive phase (some msg) (some msg) :: events, s)
  | .reply phase i airline msg =>
    match getFromVector s.airlines airline with
    | some _ =>
      (s.deliver cfg airline.toNat msg).map fun s => ([], { s with pc := .recv phase i })
    | none => some ([.error], { s with pc := .crashed })
  | .finish i =>
    if i < s.airlines.length then
      (s.deliver cfg i .finish).map fun s => ([], { s with pc := .finish (i + 1) })
    else some ([], { s with pc := .halted })
  | .halted => none
  | .crashed => none

/-- A receive of `runMap` that fails: `msg` is what it was. -/
def mapFailStep (cfg : Config) (s : System) : Option (List Event × System) :=
  match s.pc with
  | .recv phase i =>
    if i = s.airlines.length then none
    else
      match s.msg with
      | none => some ([.receive phase none none, .error], { s with pc := .crashed })
      | some msg =>
        let (events, s) := act cfg s phase i msg
        some (.receive phase none (if handled phase msg then some msg else none) :: events, s)
  | _ => none

/-! ## The system -/

inductive Action where
  | map
  | listener (a : ℕ)
  | plane (a p : ℕ)
  /-- The exit flag is raised. -/
  | exit
  | mapFail
  | listenerFail (a : ℕ)
deriving DecidableEq, Repr

/-- Airline `a` has taken a step. -/
def System.update (s : System) (a : ℕ) : AirlineStep → List Event × System
  | (events, A, sent) =>
    (events, { s with airlines := s.airlines.set a A
                      inbox := s.inbox ++ sent.toList.map fun msg => (a, msg) })

def step (cfg : Config) (s : System) : Action → Option (List Event × System)
  | .map => mapStep cfg s
  | .listener a => do
    let A ← s.airlines[a]?
    (listenStep a (cfg.room s.inbox.length) A).map (s.update a)
  | .plane a p => do
    let A ← s.airlines[a]?
    (planeStep a (cfg.room s.inbox.length) A p).map (s.update a)
  | .exit => some ([], { s with exitState := true })
  | .mapFail => mapFailStep cfg s
  | .listenerFail a => do
    let A ← s.airlines[a]?
    (listenFail A).map fun A => ([], { s with airlines := s.airlines.set a A })

/-- No receive fails. -/
def Action.reliable : Action → Bool
  | .mapFail => false
  | .listenerFail _ => false
  | _ => true

def reliableStep (cfg : Config) (s : System) (action : Action) : Option (List Event × System) :=
  if action.reliable then step cfg s action else none

/-- The map is between two turns. -/
def System.AtBoundary (s : System) : Prop := s.pc = .head

end PlaneSim
