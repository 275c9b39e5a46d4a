import PlaneSim.Report

/-!
# The display

The curses build: before each turn `runMap` waits on `outputSem`, and it pushes what changed to the
message queue of the output thread, which shows every message and posts `outputSem` after each map
status. The layout of the screen is left out.

1. Without the display's own steps this is the system of the build without curses
   (`curses_refines`).
2. The semaphore counts the statuses shown but not waited for, and one more (`Inv`).
3. The runs in which the map never starts a turn before the status of the turn before it was
   released (`InStep`) are those in which the wait leaves something in the semaphore
   (`inStep_iff`). In the others the map is one turn ahead, never more (`released_before`).
-/

namespace PlaneSim.Display

open Lts

/-- What `marshall_send_map_status` sends; `completionPercentage` is kept as the two amounts it is
computed from. -/
structure MapStatus where
  totalStockAmount : Int
  currentStockAmount : Int
  citiesSatisfied : ℕ
  totalCities : ℕ
deriving DecidableEq, Repr

/-- The messages of the output thread's queue. -/
inductive OutputMessage where
  | mapStatus (status : MapStatus)
  | airlineStatus (status : AirlineStatus)
  | endOutput
deriving DecidableEq, Repr

/-- Where the map process is in what only this build does. -/
inductive CursesPc where
  /-- About to push the messages, one after the other. -/
  | push (msgs : List OutputMessage)
  /-- In `runMap`, or `comm_end` after it: the program counter of the system says where. -/
  | run
  /-- `ipc_sem_wait(outputSem)` -/
  | wait
  /-- The test of `*exitState` after it. -/
  | woken
  /-- `comm_end_output` -/
  | endOutput
  /-- `pthread_join(outputThread, NULL)` -/
  | join
deriving DecidableEq, Repr

inductive OutputPc where
  /-- `message_queue_pop` -/
  | pop
  /-- `wait()` after a map status. -/
  | shown
  /-- `ipc_sem_post(sem)` -/
  | post
  /-- `wait()` at the end. -/
  | last
  | ended
deriving DecidableEq, Repr

structure State where
  sys : System
  pc : CursesPc
  totalStockAmount : Int
  queue : List OutputMessage
  outputSem : ℕ
  output : OutputPc
  /-- `turn` of `run_output`. -/
  turn : ℕ
deriving DecidableEq, Repr

inductive Event where
  /-- An event of the system without the display. -/
  | sim (event : PlaneSim.Event)
  /-- `runMap` has pushed the map status after `turn` turns. -/
  | sent (turn : ℕ) (status : MapStatus)
  /-- "Status in turn number `turn`." -/
  | displayed (turn : ℕ) (status : MapStatus)
  /-- `wait()` has returned; with `WAIT` a key was pressed. -/
  | acknowledged (turn : ℕ)
  | post (turn : ℕ)
  /-- `runMap` goes on to send Step after `turn` turns. -/
  | start (turn : ℕ)
deriving DecidableEq, Repr

inductive Action where
  | system (action : PlaneSim.Action)
  | output
  /-- A `getchar()` of the output thread returns. -/
  | key

/-! ## The map thread -/

/-- `send_airlines_status` -/
def airlinesStatus (airlines : List Airline) : List OutputMessage :=
  airlines.map fun airline => .airlineStatus
    (marshallSendAirlineStatus airline.planes.length airline.planes.length airline.id)

/-- `send_map_status` -/
def sendMapStatus (map : Map) (totalStockAmount : Int) : OutputMessage :=
  let (currentStockAmount, citiesSatisfied) := getMapStatus map
  .mapStatus
    { totalStockAmount := totalStockAmount
      currentStockAmount := currentStockAmount
      citiesSatisfied := citiesSatisfied
      totalCities := map.cities.length }

def init (map : Map) (airlines : List Airline) : State where
  sys := System.init map airlines
  pc := .push (airlinesStatus airlines ++ [sendMapStatus map (getMapStatus map).1])
  totalStockAmount := (getMapStatus map).1
  queue := []
  outputSem := 1
  output := .pop
  turn := 0

/-- The message a receive of `runMap` leaves in `msg`. -/
def received (s : System) : PlaneSim.Action → Option PlaneMessage
  | .map => s.inbox.head?.map Prod.snd
  | .mapFail => s.msg
  | _ => none

/-- What `runMap` sends to the display after a step: the status of an airline that has reported,
and the map's after the last one. -/
def reports (s : State) (action : PlaneSim.Action) : List OutputMessage :=
  match s.sys.pc with
  | .recv .two i =>
    if i = s.sys.airlines.length then [sendMapStatus s.sys.map s.totalStockAmount]
    else
      match received s.sys action with
      | some (.airlineStatus status) => [.airlineStatus status]
      | _ => []
  | _ => []

/-- A step of the map thread that both builds have. -/
def runStep (cfg : Config) (s : State) (action : PlaneSim.Action) :
    Option (List Event × State) :=
  (PlaneSim.step cfg s.sys action).map fun (events, sys) =>
    (events.map .sim, { s with sys := sys, pc := .push (reports s action) })

/-- Pushing a map status is an event. -/
def OutputMessage.events (turn : ℕ) : OutputMessage → List Event
  | .mapStatus status => [.sent turn status]
  | _ => []

/-- `message_queue_push` to the display, which blocks on a full queue. -/
def push (s : State) (msg : OutputMessage) (pc : CursesPc) : Option (List Event × State) :=
  if s.queue.length + 1 < QUEUE_SIZE then
    some (msg.events s.sys.turn, { s with queue := s.queue ++ [msg], pc := pc })
  else none

def mapStep (cfg : Config) (s : State) : Option (List Event × State) :=
  match s.pc with
  | .push [] => some ([], { s with pc := .run })
  | .push (msg :: msgs) => push s msg (.push msgs)
  | .run =>
    match s.sys.pc with
    | .head =>
      if !s.sys.exitState && continueSim s.sys.map s.sys.turn then some ([], { s with pc := .wait })
      else some ([], { s with sys := { s.sys with pc := .finish 0 }, pc := .endOutput })
    | _ => runStep cfg s .map
  | .wait =>
    if 0 < s.outputSem then some ([], { s with outputSem := s.outputSem - 1, pc := .woken })
    else none
  | .woken =>
    if s.sys.exitState then
      some ([], { s with sys := { s.sys with pc := .finish 0 }, pc := .endOutput })
    else
      some ([.start s.sys.turn],
        { s with sys := { s.sys with turn := s.sys.turn + 1, pc := .send .one 0 }, pc := .run })
  | .endOutput => push s .endOutput .join
  | .join => if s.output = .ended then some ([], { s with pc := .run }) else none

/-! ## The output thread -/

/-- `wait()` returns. -/
def waited (s : State) : Option (List Event × State) :=
  match s.output with
  | .shown => some ([.acknowledged (s.turn - 1)], { s with output := .post })
  | .last => some ([], { s with output := .ended })
  | _ => none

/-- A step of `run_output`; without `WAIT` its `wait()` is empty. -/
def outputStep (wait : Bool) (s : State) : Option (List Event × State) :=
  match s.output with
  | .pop =>
    match s.queue with
    | [] => none
    | .mapStatus status :: queue =>
      some ([.displayed s.turn status],
        { s with queue := queue, output := .shown, turn := s.turn + 1 })
    | .airlineStatus _ :: queue => some ([], { s with queue := queue })
    | .endOutput :: queue => some ([], { s with queue := queue, output := .last })
  | .post =>
    some ([.post (s.turn - 1)], { s with outputSem := s.outputSem + 1, output := .pop })
  | _ => if wait then none else waited s

/-- A step of the curses build; `wait` says whether it is the one with `WAIT`. -/
def step (cfg : Config) (wait : Bool) (s : State) : Action → Option (List Event × State)
  | .system .map => mapStep cfg s
  | .system .mapFail => if s.pc = .run then runStep cfg s .mapFail else none
  | .system action =>
    (PlaneSim.step cfg s.sys action).map fun (events, sys) =>
      (events.map .sim, { s with sys := sys })
  | .output => outputStep wait s
  | .key => if wait then waited s else none

/-! ## The system behind the display -/

/-- The events of the build without curses. -/
def Event.system? : Event → Option PlaneSim.Event
  | .sim event => some event
  | _ => none

theorem filterMap_sim (events : List PlaneSim.Event) :
    (events.map Event.sim).filterMap Event.system? = events := by
  rw [List.filterMap_map]
  exact List.filterMap_some

/-- What is not a step of the map thread leaves its part of the state alone. -/
theorem step_other {cfg : Config} {s s' : System} {a : PlaneSim.Action}
    {es : List PlaneSim.Event} (hmap : a ≠ .map) (hfail : a ≠ .mapFail)
    (h : PlaneSim.step cfg s a = some (es, s')) :
    s'.pc = s.pc ∧ s'.map = s.map ∧ s'.turn = s.turn := by
  cases a with
  | map => exact absurd rfl hmap
  | mapFail => exact absurd rfl hfail
  | exit =>
    cases h
    exact ⟨rfl, rfl, rfl⟩
  | listener a =>
    obtain ⟨A, -, h⟩ := Option.bind_eq_some_iff.mp h
    obtain ⟨r, -, h⟩ := Option.map_eq_some_iff.mp h
    cases h
    exact ⟨rfl, rfl, rfl⟩
  | plane a p =>
    obtain ⟨A, -, h⟩ := Option.bind_eq_some_iff.mp h
    obtain ⟨r, -, h⟩ := Option.map_eq_some_iff.mp h
    cases h
    exact ⟨rfl, rfl, rfl⟩
  | listenerFail a =>
    obtain ⟨A, -, h⟩ := Option.bind_eq_some_iff.mp h
    obtain ⟨A', -, h⟩ := Option.map_eq_some_iff.mp h
    cases h
    exact ⟨rfl, rfl, rfl⟩

/-- What the map thread can do, with the guards. -/
inductive MapMove (cfg : Config) (s : State) : PlaneSim.Action → List Event → State → Prop where
  | pushed (h : s.pc = .push []) : MapMove cfg s .map [] { s with pc := .run }
  | push {msg : OutputMessage} {msgs : List OutputMessage} {es : List Event} {s' : State}
      (h : s.pc = .push (msg :: msgs)) (hpush : push s msg (.push msgs) = some (es, s')) :
      MapMove cfg s .map es s'
  | loop (h : s.pc = .run) (hhead : s.sys.pc = .head)
      (hgo : continueSim s.sys.map s.sys.turn = true) : MapMove cfg s .map [] { s with pc := .wait }
  | leave (h : s.pc = .run) (hhead : s.sys.pc = .head)
      (hstop : (!s.sys.exitState && continueSim s.sys.map s.sys.turn) = false) :
      MapMove cfg s .map [] { s with sys := { s.sys with pc := .finish 0 }, pc := .endOutput }
  | run {a : PlaneSim.Action} {es : List PlaneSim.Event} {sys : System} (h : s.pc = .run)
      (ha : a = .map ∨ a = .mapFail) (hhead : s.sys.pc ≠ .head)
      (hstep : PlaneSim.step cfg s.sys a = some (es, sys)) :
      MapMove cfg s a (es.map .sim) { s with sys := sys, pc := .push (reports s a) }
  | wait (h : s.pc = .wait) (hsem : 0 < s.outputSem) :
      MapMove cfg s .map [] { s with outputSem := s.outputSem - 1, pc := .woken }
  | bail (h : s.pc = .woken) (hexit : s.sys.exitState = true) :
      MapMove cfg s .map [] { s with sys := { s.sys with pc := .finish 0 }, pc := .endOutput }
  | start (h : s.pc = .woken) (hexit : s.sys.exitState = false) :
      MapMove cfg s .map [.start s.sys.turn]
        { s with sys := { s.sys with turn := s.sys.turn + 1, pc := .send .one 0 }, pc := .run }
  | endOutput {es : List Event} {s' : State} (h : s.pc = .endOutput)
      (hpush : Display.push s .endOutput .join = some (es, s')) : MapMove cfg s .map es s'
  | join (h : s.pc = .join) (hended : s.output = .ended) : MapMove cfg s .map [] { s with pc := .run }

/-- What the output thread can do. -/
inductive OutputMove (s : State) : List Event → State → Prop where
  | mapStatus {status : MapStatus} {queue : List OutputMessage} (h : s.output = .pop)
      (hqueue : s.queue = .mapStatus status :: queue) :
      OutputMove s [.displayed s.turn status]
        { s with queue := queue, output := .shown, turn := s.turn + 1 }
  | airlineStatus {status : AirlineStatus} {queue : List OutputMessage} (h : s.output = .pop)
      (hqueue : s.queue = .airlineStatus status :: queue) :
      OutputMove s [] { s with queue := queue }
  | endOutput {queue : List OutputMessage} (h : s.output = .pop)
      (hqueue : s.queue = .endOutput :: queue) :
      OutputMove s [] { s with queue := queue, output := .last }
  | acknowledged (h : s.output = .shown) :
      OutputMove s [.acknowledged (s.turn - 1)] { s with output := .post }
  | post (h : s.output = .post) :
      OutputMove s [.post (s.turn - 1)] { s with outputSem := s.outputSem + 1, output := .pop }
  | ended (h : s.output = .last) : OutputMove s [] { s with output := .ended }

theorem mapMove_of_run {cfg : Config} {s s' : State} {a : PlaneSim.Action} {es : List Event}
    (hpc : s.pc = .run) (ha : a = .map ∨ a = .mapFail) (hhead : s.sys.pc ≠ .head)
    (h : runStep cfg s a = some (es, s')) : MapMove cfg s a es s' := by
  obtain ⟨⟨events, sys⟩, hstep, heq⟩ := Option.map_eq_some_iff.mp h
  cases heq
  exact .run hpc ha hhead hstep

theorem mapMove_of_step {cfg : Config} {s s' : State} {es : List Event}
    (h : mapStep cfg s = some (es, s')) : MapMove cfg s .map es s' := by
  unfold mapStep at h
  split at h
  · rename_i hpc
    cases h
    exact .pushed hpc
  · rename_i msg msgs hpc
    exact .push hpc h
  · rename_i hpc
    split at h
    · rename_i hhead
      split_ifs at h with hgo
      · cases h
        exact .loop hpc hhead (Bool.and_eq_true_iff.mp hgo).2
      · cases h
        exact .leave hpc hhead (Bool.eq_false_of_not_eq_true hgo)
    · rename_i hhead
      exact mapMove_of_run hpc (.inl rfl) hhead h
  · rename_i hpc
    split_ifs at h with hsem
    cases h
    exact .wait hpc hsem
  · rename_i hpc
    split_ifs at h with hexit
    · cases h
      exact .bail hpc hexit
    · cases h
      exact .start hpc (Bool.eq_false_of_not_eq_true hexit)
  · rename_i hpc
    exact .endOutput hpc h
  · rename_i hpc
    split_ifs at h with hended
    cases h
    exact .join hpc hended

theorem outputMove_of_waited {s s' : State} {es : List Event} (h : waited s = some (es, s')) :
    OutputMove s es s' := by
  unfold waited at h
  split at h
  · rename_i hpc
    cases h
    exact .acknowledged hpc
  · rename_i hpc
    cases h
    exact .ended hpc
  · cases h

theorem outputMove_of_step {wait : Bool} {s s' : State} {es : List Event}
    (h : outputStep wait s = some (es, s')) : OutputMove s es s' := by
  unfold outputStep at h
  split at h
  · rename_i hpc
    split at h
    · cases h
    · rename_i hqueue
      cases h
      exact .mapStatus hpc hqueue
    · rename_i hqueue
      cases h
      exact .airlineStatus hpc hqueue
    · rename_i hqueue
      cases h
      exact .endOutput hpc hqueue
  · rename_i hpc
    cases h
    exact .post hpc
  · split_ifs at h
    exact outputMove_of_waited h

/-- Every step is one of the map thread, of the output thread, or of the rest of the system. -/
theorem step_cases {cfg : Config} {wait : Bool} {s s' : State} {a : Action} {es : List Event}
    (h : step cfg wait s a = some (es, s')) :
    (∃ action, a = .system action ∧ MapMove cfg s action es s') ∨ OutputMove s es s' ∨
      ∃ action events sys, action ≠ .map ∧ action ≠ .mapFail ∧
        PlaneSim.step cfg s.sys action = some (events, sys) ∧ es = events.map .sim ∧
          s' = { s with sys := sys } := by
  cases a with
  | output => exact .inr (.inl (outputMove_of_step h))
  | key =>
    simp only [step] at h
    split_ifs at h
    exact .inr (.inl (outputMove_of_waited h))
  | system action =>
    cases action with
    | map => exact .inl ⟨_, rfl, mapMove_of_step h⟩
    | mapFail =>
      simp only [step] at h
      split_ifs at h with hpc
      refine .inl ⟨_, rfl, mapMove_of_run hpc (.inr rfl) (fun hhead => ?_) h⟩
      simp [runStep, PlaneSim.step, mapFailStep, hhead] at h
    | _ =>
      simp only [step] at h
      obtain ⟨⟨events, sys⟩, hstep, heq⟩ := Option.map_eq_some_iff.mp h
      cases heq
      exact .inr (.inr ⟨_, events, sys, by simp, by simp, hstep, rfl, rfl⟩)

/-- The system of the other build that a state of this one stands for: at the wait, its loop has
already decided to go on. -/
def Behind (s : State) (sys : System) : Prop :=
  sys = s.sys ∧ (s.pc = .wait ∨ s.pc = .woken →
    s.sys.pc = .head ∧ continueSim s.sys.map s.sys.turn = true)

theorem push_eq_some {s s' : State} {msg : OutputMessage} {pc : CursesPc} {es : List Event}
    (h : push s msg pc = some (es, s')) :
    es = msg.events s.sys.turn ∧ s' = { s with queue := s.queue ++ [msg], pc := pc } := by
  unfold push at h
  split_ifs at h
  cases h
  exact ⟨rfl, rfl⟩

/-- A push is no event of the system. -/
theorem filterMap_push {s s' : State} {msg : OutputMessage} {pc : CursesPc} {es : List Event}
    (h : push s msg pc = some (es, s')) : es.filterMap Event.system? = [] := by
  obtain ⟨rfl, -⟩ := push_eq_some h
  cases msg <;> rfl

theorem behind_step {cfg : Config} {wait : Bool} {s s' : State} {a : Action} {es : List Event}
    {sys : System} (h : Behind s sys) (hstep : step cfg wait s a = some (es, s')) :
    ∃ sys', Run (PlaneSim.step cfg) sys (es.filterMap Event.system?) sys' ∧ Behind s' sys' := by
  obtain ⟨rfl, hwait⟩ := h
  rcases step_cases hstep with ⟨action, -, hmove⟩ | hmove | ⟨action, events, sys', hmap, hfail, hsys,
    rfl, rfl⟩
  · cases hmove with
    | pushed hpc => exact ⟨_, .refl, rfl, by simp⟩
    | push hpc hpush =>
      rw [filterMap_push hpush]
      obtain ⟨-, rfl⟩ := push_eq_some hpush
      exact ⟨_, .refl, rfl, by simp⟩
    | loop hpc hhead hgo => exact ⟨_, .refl, rfl, fun _ => ⟨hhead, hgo⟩⟩
    | leave hpc hhead hstop =>
      refine ⟨_, .single (a := .map) ?_, rfl, by simp⟩
      simp [PlaneSim.step, PlaneSim.mapStep, hhead, hstop]
    | run hpc ha hhead hsys =>
      rw [filterMap_sim]
      exact ⟨_, .single hsys, rfl, by simp⟩
    | wait hpc hsem => exact ⟨_, .refl, rfl, fun _ => hwait (.inl hpc)⟩
    | bail hpc hexit =>
      refine ⟨_, .single (a := .map) ?_, rfl, by simp⟩
      simp [PlaneSim.step, PlaneSim.mapStep, (hwait (.inr hpc)).1, hexit]
    | start hpc hexit =>
      refine ⟨_, .single (a := .map) ?_, rfl, by simp⟩
      obtain ⟨hhead, hgo⟩ := hwait (.inr hpc)
      simp [PlaneSim.step, PlaneSim.mapStep, hhead, hexit, hgo]
      rfl
    | endOutput hpc hpush =>
      rw [filterMap_push hpush]
      obtain ⟨-, rfl⟩ := push_eq_some hpush
      exact ⟨_, .refl, rfl, by simp⟩
    | join hpc hended => exact ⟨_, .refl, rfl, by simp⟩
  · cases hmove with
    | _ => exact ⟨_, .refl, rfl, hwait⟩
  · obtain ⟨hpc, hm, hturn⟩ := step_other hmap hfail hsys
    rw [filterMap_sim]
    refine ⟨_, .single hsys, rfl, fun hw => ?_⟩
    dsimp only
    rw [hpc, hm, hturn]
    exact hwait hw

/-- **The display changes nothing.** Every run of the curses build is one of the build without, as
far as the map and the airlines are concerned. -/
theorem curses_refines {cfg : Config} {wait : Bool} {map : Map} {airlines : List Airline}
    {tr : List Event} {s : State} (h : Run (step cfg wait) (init map airlines) tr s) :
    Run (PlaneSim.step cfg) (System.init map airlines) (tr.filterMap Event.system?) s.sys := by
  have h0 : Behind (init map airlines) (System.init map airlines) :=
    ⟨rfl, by simp [init]⟩
  obtain ⟨sys, hrun, rfl, -⟩ := h.simulation (fun _ _ _ _ _ => behind_step) h0
  exact hrun

/-! ## The semaphore -/

/-- The map statuses pushed, numbered. -/
def sents (tr : List Event) : List (ℕ × MapStatus) :=
  tr.filterMap fun
    | .sent turn status => some (turn, status)
    | _ => none

/-- The map statuses displayed, numbered. -/
def displays (tr : List Event) : List (ℕ × MapStatus) :=
  tr.filterMap fun
    | .displayed turn status => some (turn, status)
    | _ => none

def acknowledgements (tr : List Event) : List ℕ :=
  tr.filterMap fun
    | .acknowledged turn => some turn
    | _ => none

def posts (tr : List Event) : List ℕ :=
  tr.filterMap fun
    | .post turn => some turn
    | _ => none

def OutputMessage.mapStatus? : OutputMessage → Option MapStatus
  | .mapStatus status => some status
  | _ => none

/-- The map statuses about to be pushed. -/
def CursesPc.pending : CursesPc → ℕ
  | .push msgs => (msgs.filterMap OutputMessage.mapStatus?).length
  | _ => 0

/-- A turn has started whose map status is not yet due. -/
def inTurn : MapPc → ℕ
  | .send _ _ => 1
  | .recv _ _ => 1
  | .reply _ _ _ _ => 1
  | .crashed => 1
  | _ => 0

/-- `runMap` has returned. -/
def returned : MapPc → Bool
  | .finish _ => true
  | .halted => true
  | _ => false

/-- Units of the semaphore taken for a turn that has not started. -/
def CursesPc.taken : CursesPc → ℕ
  | .woken => 1
  | _ => 0

/-- The status on the screen has not been acknowledged. -/
def OutputPc.unread : OutputPc → ℕ
  | .shown => 1
  | _ => 0

/-- The status on the screen has not been released. -/
def OutputPc.unreleased : OutputPc → ℕ
  | .shown => 1
  | .post => 1
  | _ => 0

/-- Every status pushed is on the way to the display or was displayed, in order; `outputSem` counts
the statuses released, and one more, less the turns. -/
structure Inv (tr : List Event) (s : State) : Prop where
  sent : (sents tr).map Prod.fst = List.range (sents tr).length
  due : (sents tr).length + s.pc.pending + inTurn s.sys.pc = s.sys.turn + 1
  once : s.pc.pending + inTurn s.sys.pc ≤ 1
  queued : (sents tr).map Prod.snd =
    (displays tr).map Prod.snd ++ s.queue.filterMap OutputMessage.mapStatus?
  shown : (displays tr).map Prod.fst = List.range s.turn
  read : acknowledgements tr = List.range (s.turn - s.output.unread)
  released : posts tr = List.range (s.turn - s.output.unreleased)
  busy : s.output.unreleased ≤ s.turn
  head : s.pc = .wait ∨ s.pc = .woken → s.sys.pc = .head
  ended : s.pc = .endOutput ∨ s.pc = .join → returned s.sys.pc = true
  sem : returned s.sys.pc = false →
    s.outputSem + s.sys.turn + s.pc.taken + s.output.unreleased = s.turn + 1

theorem inv_init (map : Map) (airlines : List Airline) : Inv [] (init map airlines) := by
  have hmsgs : (airlinesStatus airlines ++
      [sendMapStatus map (getMapStatus map).1]).filterMap OutputMessage.mapStatus? =
        [⟨(getMapStatus map).1, (getMapStatus map).1, (getMapStatus map).2, map.cities.length⟩] := by
    have hnone : (airlinesStatus airlines).filterMap OutputMessage.mapStatus? = [] := by
      simp [airlinesStatus, OutputMessage.mapStatus?]
    rw [List.filterMap_append, hnone]
    rfl
  have hpending : (init map airlines).pc.pending = 1 := by
    show (List.filterMap _ _).length = 1
    rw [hmsgs]
    rfl
  refine ⟨rfl, ?_, ?_, rfl, rfl, rfl, rfl, Nat.zero_le _, ?_, ?_, fun _ => rfl⟩
  · rw [hpending]
    rfl
  · rw [hpending]
    exact le_rfl
  · rintro (h | h) <;> cases h
  · rintro (h | h) <;> cases h

theorem deliver_turn {cfg : Config} {s s' : System} {i : ℕ} {msg : MapMessage}
    (h : s.deliver cfg i msg = some s') : s'.turn = s.turn := by
  obtain ⟨A, -, h⟩ := Option.bind_eq_some_iff.mp h
  split_ifs at h
  cases h
  rfl

/-- What `runMap` does with a message keeps it inside the turn. -/
theorem act_inTurn (cfg : Config) (s : System) (phase : Phase) (i : ℕ) (msg : PlaneMessage)
    (h : inTurn s.pc = 1) (h' : returned s.pc = false) :
    (act cfg s phase i msg).2.turn = s.turn ∧ inTurn (act cfg s phase i msg).2.pc = 1 ∧
      returned (act cfg s phase i msg).2.pc = false := by
  unfold act
  split
  · exact ⟨rfl, rfl, rfl⟩
  · split <;> exact ⟨rfl, rfl, rfl⟩
  · exact ⟨rfl, rfl, rfl⟩
  · split <;> exact ⟨rfl, rfl, rfl⟩
  · exact ⟨rfl, h, h'⟩

theorem reports_of_not_recv {s : State} {a : PlaneSim.Action} (h : ∀ i, s.sys.pc ≠ .recv .two i) :
    reports s a = [] := by
  unfold reports
  split
  · rename_i i hpc
    exact absurd hpc (h i)
  · rfl

/-- Before the last airline has reported, no map status is sent. -/
theorem reports_of_recv {s : State} {a : PlaneSim.Action} {phase : Phase} {i : ℕ}
    (hpc : s.sys.pc = .recv phase i) (hi : i ≠ s.sys.airlines.length) :
    (reports s a).filterMap OutputMessage.mapStatus? = [] := by
  cases phase with
  | one => rw [reports_of_not_recv (by simp [hpc])]; rfl
  | two =>
    simp only [reports, hpc, if_neg hi]
    split <;> rfl

/-- What a step of `runMap` does to the turn: it goes on, or its map status is due. -/
theorem step_inTurn {cfg : Config} {s : State} {sys : System} {a : PlaneSim.Action}
    {es : List PlaneSim.Event} (ha : a = .map ∨ a = .mapFail) (hhead : s.sys.pc ≠ .head)
    (h : PlaneSim.step cfg s.sys a = some (es, sys)) :
    sys.turn = s.sys.turn ∧ returned sys.pc = returned s.sys.pc ∧
      ((reports s a).filterMap OutputMessage.mapStatus?).length + inTurn sys.pc =
        inTurn s.sys.pc := by
  rcases ha with rfl | rfl
  · simp only [PlaneSim.step, PlaneSim.mapStep] at h
    split at h
    · rename_i hpc
      exact absurd hpc hhead
    · rename_i phase i hpc
      rw [reports_of_not_recv (by simp [hpc]), hpc]
      split_ifs at h
      · obtain ⟨sys1, hdeliver, heq⟩ := Option.map_eq_some_iff.mp h
        have hturn := deliver_turn hdeliver
        cases heq
        exact ⟨hturn, rfl, rfl⟩
      · cases h
        exact ⟨rfl, rfl, rfl⟩
    · rename_i phase i hpc
      split_ifs at h with hi
      · cases h
        cases phase with
        | one =>
          rw [reports_of_not_recv (by simp [hpc]), hpc]
          exact ⟨rfl, rfl, rfl⟩
        | two =>
          have hdue : reports s .map = [sendMapStatus s.sys.map s.totalStockAmount] := by
            simp only [reports, hpc, if_pos hi]
          rw [hdue, hpc]
          exact ⟨rfl, rfl, rfl⟩
      · split at h
        · cases h
        · rename_i sender msg inbox _
          have hin0 : inTurn s.sys.pc = 1 := by rw [hpc]; rfl
          have hret0 : returned s.sys.pc = false := by rw [hpc]; rfl
          obtain ⟨hturn, hin, hret⟩ := act_inTurn cfg
            { s.sys with inbox := inbox, msg := some msg } phase i msg hin0 hret0
          cases h
          rw [reports_of_recv hpc hi, hin0, hret0]
          exact ⟨hturn, hret, by rw [hin]; rfl⟩
    · rename_i phase i airline msg hpc
      rw [reports_of_not_recv (by simp [hpc]), hpc]
      split at h
      · obtain ⟨sys1, hdeliver, heq⟩ := Option.map_eq_some_iff.mp h
        have hturn := deliver_turn hdeliver
        cases heq
        exact ⟨hturn, rfl, rfl⟩
      · cases h
        exact ⟨rfl, rfl, rfl⟩
    · rename_i i hpc
      rw [reports_of_not_recv (by simp [hpc]), hpc]
      split_ifs at h
      · obtain ⟨sys1, hdeliver, heq⟩ := Option.map_eq_some_iff.mp h
        have hturn := deliver_turn hdeliver
        cases heq
        exact ⟨hturn, rfl, rfl⟩
      · cases h
        exact ⟨rfl, rfl, rfl⟩
    · cases h
    · cases h
  · simp only [PlaneSim.step, mapFailStep] at h
    split at h
    · rename_i phase i hpc
      split_ifs at h with hi
      have hin0 : inTurn s.sys.pc = 1 := by rw [hpc]; rfl
      have hret0 : returned s.sys.pc = false := by rw [hpc]; rfl
      rw [reports_of_recv hpc hi, hin0, hret0]
      split at h
      · cases h
        exact ⟨rfl, rfl, rfl⟩
      · rename_i msg _
        obtain ⟨hturn, hin, hret⟩ := act_inTurn cfg s.sys phase i msg hin0 hret0
        cases h
        exact ⟨hturn, hret, by rw [hin]; rfl⟩
    · cases h

/-- No event that `Inv` counts. -/
def Quiet (es : List Event) : Prop :=
  sents es = [] ∧ displays es = [] ∧ acknowledgements es = [] ∧ posts es = []

theorem sents_append (tr es : List Event) : sents (tr ++ es) = sents tr ++ sents es :=
  List.filterMap_append

theorem displays_append (tr es : List Event) : displays (tr ++ es) = displays tr ++ displays es :=
  List.filterMap_append

theorem acknowledgements_append (tr es : List Event) :
    acknowledgements (tr ++ es) = acknowledgements tr ++ acknowledgements es :=
  List.filterMap_append

theorem posts_append (tr es : List Event) : posts (tr ++ es) = posts tr ++ posts es :=
  List.filterMap_append

theorem Inv.quiet {tr es : List Event} {s : State} (h : Inv tr s) (hes : Quiet es) :
    Inv (tr ++ es) s := by
  obtain ⟨h1, h2, h3, h4⟩ := hes
  have hs : sents (tr ++ es) = sents tr := by
    rw [sents_append, h1, List.append_nil]
  have hd : displays (tr ++ es) = displays tr := by
    rw [displays_append, h2, List.append_nil]
  have ha : acknowledgements (tr ++ es) = acknowledgements tr := by
    rw [acknowledgements_append, h3, List.append_nil]
  have hp : posts (tr ++ es) = posts tr := by
    rw [posts_append, h4, List.append_nil]
  refine ⟨?_, ?_, h.once, ?_, ?_, ?_, ?_, h.busy, h.head, h.ended, h.sem⟩
  · rw [hs]
    exact h.sent
  · rw [hs]
    exact h.due
  · rw [hs, hd]
    exact h.queued
  · rw [hd]
    exact h.shown
  · rw [ha]
    exact h.read
  · rw [hp]
    exact h.released

theorem quiet_nil : Quiet [] := ⟨rfl, rfl, rfl, rfl⟩

theorem quiet_sim (events : List PlaneSim.Event) : Quiet (events.map .sim) := by
  refine ⟨?_, ?_, ?_, ?_⟩ <;> exact List.filterMap_eq_nil_iff.mpr (by simp)

/-- Pushing moves a status from the map thread to the queue. -/
theorem Inv.push {tr es : List Event} {s s' : State} (h : Inv tr s) {msg : OutputMessage}
    {pc : CursesPc} (hpending : s.pc.pending = (msg.mapStatus?).toList.length + pc.pending)
    (htaken : s.pc.taken = pc.taken) (hwait : pc ≠ .wait ∧ pc ≠ .woken)
    (hover : pc = .endOutput ∨ pc = .join → returned s.sys.pc = true)
    (hpush : push s msg pc = some (es, s')) : Inv (tr ++ es) s' := by
  obtain ⟨rfl, rfl⟩ := push_eq_some hpush
  have hdue := h.due
  have honce := h.once
  have hsem := h.sem
  rw [htaken] at hsem
  have hhead : pc = .wait ∨ pc = .woken → s.sys.pc = .head :=
    fun hpc => absurd hpc (by simpa using hwait)
  cases msg with
  | mapStatus status =>
    have hlen : (sents tr).length = s.sys.turn := by
      have : s.pc.pending = 1 + pc.pending := hpending
      omega
    have hs : sents (tr ++ [.sent s.sys.turn status]) = sents tr ++ [(s.sys.turn, status)] := by
      rw [sents_append]
      rfl
    have hd : displays (tr ++ [.sent s.sys.turn status]) = displays tr := by
      rw [displays_append]
      exact List.append_nil _
    refine ⟨?_, ?_, ?_, ?_, ?_, ?_, ?_, h.busy, hhead, hover, hsem⟩
    · show (sents (tr ++ [.sent s.sys.turn status])).map Prod.fst = _
      rw [OutputMessage.events, hs, List.map_append, h.sent, List.length_append,
        List.length_singleton, List.range_succ, hlen]
      rfl
    · rw [OutputMessage.events, hs, List.length_append, List.length_singleton]
      have : s.pc.pending = 1 + pc.pending := hpending
      dsimp only
      omega
    · have : s.pc.pending = 1 + pc.pending := hpending
      dsimp only
      omega
    · rw [OutputMessage.events, hs, hd, List.map_append, h.queued, List.append_assoc,
        List.filterMap_append]
      rfl
    · rw [OutputMessage.events, hd]
      exact h.shown
    · rw [OutputMessage.events, acknowledgements_append]
      exact (List.append_nil _).trans h.read
    · rw [OutputMessage.events, posts_append]
      exact (List.append_nil _).trans h.released
  | _ =>
    have hsame : s.pc.pending = pc.pending := by
      rw [hpending]
      exact Nat.zero_add _
    rw [hsame] at hdue honce
    refine Inv.quiet ⟨h.sent, hdue, honce, ?_, h.shown, h.read, h.released, h.busy, hhead,
      hover, hsem⟩ quiet_nil
    rw [h.queued, List.filterMap_append]
    exact congrArg _ (List.append_nil _).symm

theorem Inv.mapMove {cfg : Config} {tr es : List Event} {s s' : State} {a : PlaneSim.Action}
    (h : Inv tr s) (hmove : MapMove cfg s a es s') : Inv (tr ++ es) s' := by
  have hdue := h.due
  have honce := h.once
  have hsem := h.sem
  cases hmove with
  | pushed hpc =>
    rw [hpc] at hdue honce hsem
    exact Inv.quiet { h with
      due := hdue, once := honce, sem := hsem
      head := by rintro (hpc | hpc) <;> cases hpc
      ended := by rintro (hpc | hpc) <;> cases hpc } quiet_nil
  | push hpc hpush =>
    rename_i msg msgs
    refine h.push ?_ ?_ (by simp) (by simp) hpush
    · rw [hpc]
      cases msg with
      | mapStatus status => exact Nat.add_comm _ 1
      | _ => exact (Nat.zero_add _).symm
    · rw [hpc]
      rfl
  | loop hpc hhead hgo =>
    rw [hpc] at hdue honce hsem
    exact Inv.quiet { h with
      due := hdue, once := honce, sem := hsem
      head := fun _ => hhead
      ended := by rintro (hpc | hpc) <;> cases hpc } quiet_nil
  | leave hpc hhead hstop =>
    rw [hpc, hhead] at hdue honce
    exact Inv.quiet { h with
      due := hdue, once := honce
      head := by rintro (hpc | hpc) <;> cases hpc
      ended := fun _ => rfl
      sem := fun hret => absurd hret (by simp [returned]) } quiet_nil
  | run hpc ha hhead hsys =>
    rename_i events sys
    obtain ⟨hturn, hret, hin⟩ := step_inTurn ha hhead hsys
    rw [hpc] at hdue honce hsem
    refine Inv.quiet { h with
      due := ?_, once := ?_
      head := by rintro (hpc | hpc) <;> cases hpc
      ended := by rintro (hpc | hpc) <;> cases hpc
      sem := ?_ } (quiet_sim _)
    · show _ + ((reports s a).filterMap OutputMessage.mapStatus?).length + inTurn sys.pc =
        sys.turn + 1
      rw [Nat.add_assoc, hin, hturn]
      exact hdue
    · show ((reports s a).filterMap OutputMessage.mapStatus?).length + inTurn sys.pc ≤ 1
      rw [hin]
      exact (Nat.zero_add _).symm.trans_le honce
    · intro hret'
      show s.outputSem + sys.turn + 0 + s.output.unreleased = s.turn + 1
      rw [hturn]
      exact hsem (hret.symm.trans hret')
  | wait hpc hpos =>
    have hhead := h.head (.inl hpc)
    rw [hpc] at hdue honce hsem
    refine Inv.quiet { h with
      due := hdue, once := honce
      head := fun _ => hhead
      ended := by rintro (hpc | hpc) <;> cases hpc
      sem := fun hret => ?_ } quiet_nil
    have hsem := hsem hret
    simp only [CursesPc.taken] at hsem ⊢
    omega
  | bail hpc hexit =>
    rw [hpc, h.head (.inr hpc)] at hdue honce
    exact Inv.quiet { h with
      due := hdue, once := honce
      head := by rintro (hpc | hpc) <;> cases hpc
      ended := fun _ => rfl
      sem := fun hret => absurd hret (by simp [returned]) } quiet_nil
  | start hpc hexit =>
    have hhead := h.head (.inr hpc)
    rw [hpc, hhead] at hdue hsem
    refine Inv.quiet { h with
      due := congrArg Nat.succ hdue, once := le_rfl
      head := by rintro (hpc | hpc) <;> cases hpc
      ended := by rintro (hpc | hpc) <;> cases hpc
      sem := fun _ => ?_ } ⟨rfl, rfl, rfl, rfl⟩
    have hsem := hsem rfl
    simp only [CursesPc.taken] at hsem ⊢
    omega
  | endOutput hpc hpush =>
    refine h.push ?_ ?_ (by simp) (fun _ => h.ended (.inl hpc)) hpush
    · rw [hpc]
      rfl
    · rw [hpc]
      rfl
  | join hpc hended =>
    rw [hpc] at hdue honce hsem
    exact Inv.quiet { h with
      due := hdue, once := honce, sem := hsem
      head := by rintro (hpc | hpc) <;> cases hpc
      ended := by rintro (hpc | hpc) <;> cases hpc } quiet_nil

/-- The turn that was displayed last is acknowledged, or released, next. -/
theorem range_pred_concat {turn : ℕ} (hpos : 0 < turn) :
    List.range (turn - 1) ++ [turn - 1] = List.range turn := by
  rw [← List.range_succ, Nat.succ_eq_add_one, Nat.sub_add_cancel hpos]

theorem Inv.outputMove {tr es : List Event} {s s' : State} (h : Inv tr s)
    (hmove : OutputMove s es s') : Inv (tr ++ es) s' := by
  have hread := h.read
  have hreleased := h.released
  have hbusy := h.busy
  have hsem := h.sem
  have hqueued := h.queued
  cases hmove with
  | mapStatus hout hqueue =>
    rename_i status queue
    rw [hout] at hread hreleased hsem
    have hs : sents (tr ++ [.displayed s.turn status]) = sents tr := by
      rw [sents_append]
      exact List.append_nil _
    have hd : displays (tr ++ [.displayed s.turn status]) =
        displays tr ++ [(s.turn, status)] := by
      rw [displays_append]
      rfl
    refine ⟨?_, ?_, h.once, ?_, ?_, ?_, ?_, Nat.succ_pos _, h.head, h.ended, ?_⟩
    · rw [hs]
      exact h.sent
    · rw [hs]
      exact h.due
    · rw [hs, hd, hqueued, hqueue, List.map_append, List.append_assoc]
      rfl
    · rw [hd, List.map_append, h.shown]
      exact List.range_succ.symm
    · rw [acknowledgements_append]
      exact (List.append_nil _).trans hread
    · rw [posts_append]
      exact (List.append_nil _).trans hreleased
    · intro hret
      have hsem := hsem hret
      simp only [OutputPc.unreleased] at hsem ⊢
      omega
  | airlineStatus hout hqueue =>
    rw [hqueue] at hqueued
    exact Inv.quiet { h with queued := hqueued } quiet_nil
  | endOutput hout hqueue =>
    rw [hqueue] at hqueued
    rw [hout] at hread hreleased hbusy hsem
    exact Inv.quiet { h with
      queued := hqueued, read := hread, released := hreleased, busy := hbusy
      sem := hsem } quiet_nil
  | acknowledged hout =>
    rw [hout] at hread hreleased hbusy hsem
    have hpos : 0 < s.turn := hbusy
    have hs : sents (tr ++ [.acknowledged (s.turn - 1)]) = sents tr := by
      rw [sents_append]
      exact List.append_nil _
    have hd : displays (tr ++ [.acknowledged (s.turn - 1)]) = displays tr := by
      rw [displays_append]
      exact List.append_nil _
    refine ⟨?_, ?_, h.once, ?_, ?_, ?_, ?_, hbusy, h.head, h.ended, hsem⟩
    · rw [hs]
      exact h.sent
    · rw [hs]
      exact h.due
    · rw [hs, hd]
      exact hqueued
    · rw [hd]
      exact h.shown
    · rw [acknowledgements_append, hread]
      exact range_pred_concat hpos
    · rw [posts_append]
      exact (List.append_nil _).trans hreleased
  | post hout =>
    rw [hout] at hread hreleased hbusy hsem
    have hpos : 0 < s.turn := hbusy
    have hs : sents (tr ++ [.post (s.turn - 1)]) = sents tr := by
      rw [sents_append]
      exact List.append_nil _
    have hd : displays (tr ++ [.post (s.turn - 1)]) = displays tr := by
      rw [displays_append]
      exact List.append_nil _
    refine ⟨?_, ?_, h.once, ?_, ?_, ?_, ?_, Nat.zero_le _, h.head, h.ended, ?_⟩
    · rw [hs]
      exact h.sent
    · rw [hs]
      exact h.due
    · rw [hs, hd]
      exact hqueued
    · rw [hd]
      exact h.shown
    · rw [acknowledgements_append]
      exact (List.append_nil _).trans hread
    · rw [posts_append, hreleased]
      exact range_pred_concat hpos
    · intro hret
      have hsem := hsem hret
      simp only [OutputPc.unreleased] at hsem ⊢
      omega
  | ended hout =>
    rw [hout] at hread hreleased hbusy hsem
    exact Inv.quiet { h with
      read := hread, released := hreleased, busy := hbusy, sem := hsem } quiet_nil

theorem inv_step {cfg : Config} {wait : Bool} {tr es : List Event} {s s' : State} {a : Action}
    (h : Inv tr s) (hstep : step cfg wait s a = some (es, s')) : Inv (tr ++ es) s' := by
  rcases step_cases hstep with ⟨action, -, hmove⟩ | hmove | ⟨action, events, sys, hmap, hfail, hsys,
    rfl, rfl⟩
  · exact h.mapMove hmove
  · exact h.outputMove hmove
  · obtain ⟨hpc, -, hturn⟩ := step_other hmap hfail hsys
    refine Inv.quiet { h with
      due := ?_, once := ?_, head := ?_, ended := ?_, sem := ?_ } (quiet_sim events)
    · rw [hpc, hturn]
      exact h.due
    · rw [hpc]
      exact h.once
    · rw [hpc]
      exact h.head
    · rw [hpc]
      exact h.ended
    · rw [hpc, hturn]
      exact h.sem

theorem inv_run {cfg : Config} {wait : Bool} {map : Map} {airlines : List Airline}
    {tr : List Event} {s : State} (h : Run (step cfg wait) (init map airlines) tr s) : Inv tr s :=
  h.history (inv_init map airlines) fun _ _ _ _ _ => inv_step

/-! ## The lag -/

/-- The status after `turn` turns was pushed, displayed, acknowledged and released. -/
structure Released (tr : List Event) (turn : ℕ) : Prop where
  displayed : ∃ status, .sent turn status ∈ tr ∧ .displayed turn status ∈ tr
  acknowledged : .acknowledged turn ∈ tr
  post : .post turn ∈ tr

/-- No turn starts before the map status of the turn before it was released. -/
def InStep (tr : List Event) : Prop :=
  ∀ pre turn rest, tr = pre ++ .start turn :: rest → Released pre turn

/-- The map thread goes on to a turn only with something left in the semaphore: the wait took one
of two units or more. -/
def alignedStep (cfg : Config) (wait : Bool) (s : State) (a : Action) :
    Option (List Event × State) :=
  if s.pc = .woken ∧ s.sys.exitState = false ∧ s.outputSem = 0 then
    match a with
    | .system .map => none
    | _ => step cfg wait s a
  else step cfg wait s a

theorem mem_sents {tr : List Event} {turn : ℕ} {status : MapStatus} :
    (turn, status) ∈ sents tr ↔ .sent turn status ∈ tr := by
  rw [sents, List.mem_filterMap]
  constructor
  · rintro ⟨e, he, heq⟩
    cases e <;> simp at heq
    obtain ⟨rfl, rfl⟩ := heq
    exact he
  · exact fun h => ⟨_, h, rfl⟩

theorem mem_displays {tr : List Event} {turn : ℕ} {status : MapStatus} :
    (turn, status) ∈ displays tr ↔ .displayed turn status ∈ tr := by
  rw [displays, List.mem_filterMap]
  constructor
  · rintro ⟨e, he, heq⟩
    cases e <;> simp at heq
    obtain ⟨rfl, rfl⟩ := heq
    exact he
  · exact fun h => ⟨_, h, rfl⟩

theorem mem_acknowledgements {tr : List Event} {turn : ℕ} :
    turn ∈ acknowledgements tr ↔ .acknowledged turn ∈ tr := by
  rw [acknowledgements, List.mem_filterMap]
  constructor
  · rintro ⟨e, he, heq⟩
    cases e <;> simp at heq
    subst heq
    exact he
  · exact fun h => ⟨_, h, rfl⟩

theorem mem_posts {tr : List Event} {turn : ℕ} : turn ∈ posts tr ↔ .post turn ∈ tr := by
  rw [posts, List.mem_filterMap]
  constructor
  · rintro ⟨e, he, heq⟩
    cases e <;> simp at heq
    subst heq
    exact he
  · exact fun h => ⟨_, h, rfl⟩

/-- The display shows the statuses in the order of the turns. -/
theorem Inv.displayed_of_lt {tr : List Event} {s : State} (h : Inv tr s) {turn : ℕ}
    (hlt : turn < s.turn) :
    ∃ status, .sent turn status ∈ tr ∧ .displayed turn status ∈ tr := by
  have hshown : ((displays tr).map Prod.fst)[turn]? = some turn := by
    rw [h.shown, List.getElem?_range hlt]
  rw [List.getElem?_map] at hshown
  obtain ⟨⟨k, status⟩, hdisplay, rfl⟩ := Option.map_eq_some_iff.mp hshown
  have hsnd : ((sents tr).map Prod.snd)[k]? = some status := by
    have hget : ((displays tr).map Prod.snd)[k]? = some status := by
      rw [List.getElem?_map, hdisplay]
      rfl
    rw [h.queued, List.getElem?_append_left (List.getElem?_eq_some_iff.mp hget).1, hget]
  rw [List.getElem?_map] at hsnd
  obtain ⟨⟨j, status'⟩, hsent, rfl⟩ := Option.map_eq_some_iff.mp hsnd
  have hfst : ((sents tr).map Prod.fst)[k]? = some j := by
    rw [List.getElem?_map, hsent]
    rfl
  rw [h.sent] at hfst
  obtain ⟨_, hj⟩ := List.getElem?_eq_some_iff.mp hfst
  rw [List.getElem_range] at hj
  subst hj
  exact ⟨status', mem_sents.mp (List.mem_of_getElem? hsent),
    mem_displays.mp (List.mem_of_getElem? hdisplay)⟩

theorem Inv.released_iff {tr : List Event} {s : State} (h : Inv tr s) {turn : ℕ} :
    Released tr turn ↔ turn < s.turn - s.output.unreleased := by
  constructor
  · intro hrel
    have hmem := mem_posts.mpr hrel.post
    rw [h.released] at hmem
    exact List.mem_range.mp hmem
  · intro hlt
    have hunread : s.output.unread ≤ s.output.unreleased := by
      cases s.output <;> decide
    refine ⟨h.displayed_of_lt (by omega), mem_acknowledgements.mp ?_, mem_posts.mp ?_⟩
    · rw [h.read]
      exact List.mem_range.mpr (by omega)
    · rw [h.released]
      exact List.mem_range.mpr hlt

/-- The status of the last turn was released exactly if the wait has left something in the
semaphore. -/
theorem Inv.released_turn_iff {tr : List Event} {s : State} (h : Inv tr s) (hpc : s.pc = .woken) :
    Released tr s.sys.turn ↔ s.outputSem ≠ 0 := by
  have hret : returned s.sys.pc = false := by
    rw [h.head (.inr hpc)]
    rfl
  have hsem := h.sem hret
  have hbusy := h.busy
  rw [hpc] at hsem
  simp only [CursesPc.taken] at hsem
  rw [h.released_iff]
  omega

/-- Only the step after the test of `*exitState` starts a turn. -/
theorem start_mem {cfg : Config} {wait : Bool} {s s' : State} {a : Action} {es : List Event}
    (h : step cfg wait s a = some (es, s')) {turn : ℕ} (hmem : .start turn ∈ es) :
    a = .system .map ∧ s.pc = .woken ∧ s.sys.exitState = false ∧ es = [.start s.sys.turn] := by
  have hsim : ∀ events : List PlaneSim.Event, .start turn ∉ events.map Event.sim := by
    intro events hmem
    obtain ⟨e, -, he⟩ := List.mem_map.mp hmem
    cases he
  have hpush : ∀ {msg : OutputMessage}, .start turn ∉ msg.events s.sys.turn := by
    intro msg hmem
    cases msg <;> simp [OutputMessage.events] at hmem
  rcases step_cases h with ⟨action, rfl, hmove⟩ | hmove | ⟨action, events, sys, -, -, -, rfl, -⟩
  · cases hmove with
    | start hpc hexit => exact ⟨rfl, hpc, hexit, rfl⟩
    | run _ _ _ _ => exact absurd hmem (hsim _)
    | push _ hp =>
      obtain ⟨rfl, -⟩ := push_eq_some hp
      exact absurd hmem hpush
    | endOutput _ hp =>
      obtain ⟨rfl, -⟩ := push_eq_some hp
      exact absurd hmem hpush
    | _ => cases hmem
  · cases hmove <;> simp at hmem
  · exact absurd hmem (hsim _)

/-- The starts of a trace with one more step. -/
theorem starts_append {tr es : List Event} {P : List Event → ℕ → Prop} :
    (∀ pre turn rest, tr ++ es = pre ++ .start turn :: rest → P pre turn) ↔
      (∀ pre turn rest, tr = pre ++ .start turn :: rest → P pre turn) ∧
        ∀ pre turn rest, es = pre ++ .start turn :: rest → P (tr ++ pre) turn := by
  constructor
  · intro h
    refine ⟨fun pre turn rest heq => h pre turn (rest ++ es) ?_, fun pre turn rest heq => ?_⟩
    · rw [heq, List.append_assoc, List.cons_append]
    · exact h (tr ++ pre) turn rest (by rw [heq, List.append_assoc])
  · rintro ⟨htr, hes⟩ pre turn rest heq
    rcases List.append_eq_append_iff.mp heq with ⟨mid, rfl, hmid⟩ | ⟨mid, rfl, hmid⟩
    · exact hes mid turn rest hmid
    · cases mid with
      | nil => simpa using hes [] turn rest hmid.symm
      | cons e mid =>
        obtain ⟨rfl, -⟩ := List.cons.inj hmid
        exact htr pre _ mid rfl

/-- A step of a run starts a turn at most at its end, where the invariant holds. -/
theorem starts_run {cfg : Config} {wait : Bool} {tr es : List Event} {s s' : State} {a : Action}
    (hstep : step cfg wait s a = some (es, s')) {P : List Event → ℕ → Prop}
    (htr : ∀ pre turn rest, tr = pre ++ .start turn :: rest → P pre turn)
    (hstart : a = .system .map → s.pc = .woken → s.sys.exitState = false → P tr s.sys.turn) :
    ∀ pre turn rest, tr ++ es = pre ++ .start turn :: rest → P pre turn := by
  refine starts_append.mpr ⟨htr, fun pre turn rest heq => ?_⟩
  obtain ⟨ha, hpc, hexit, hes⟩ := start_mem hstep (by rw [heq]; simp : .start turn ∈ es)
  rw [hes] at heq
  cases pre with
  | nil =>
    cases heq
    rw [List.append_nil]
    exact hstart ha hpc hexit
  | cons e pre => simp at heq

theorem alignedStep_eq_some {cfg : Config} {wait : Bool} {s s' : State} {a : Action}
    {es : List Event} (h : alignedStep cfg wait s a = some (es, s')) :
    step cfg wait s a = some (es, s') ∧
      (a = .system .map → s.pc = .woken → s.sys.exitState = false → s.outputSem ≠ 0) := by
  unfold alignedStep at h
  split_ifs at h with hcond
  · split at h
    · cases h
    · rename_i hne
      exact ⟨h, fun ha => absurd ha hne⟩
  · exact ⟨h, fun _ hpc hexit hsem => hcond ⟨hpc, hexit, hsem⟩⟩

/-- **When the map is in step with the display.** The runs in which no turn starts before the map
status of the turn before it was displayed, acknowledged and released are the runs in which, at
every start of a turn, the wait has left something in the semaphore. -/
theorem inStep_iff {cfg : Config} {wait : Bool} {map : Map} {airlines : List Airline}
    {tr : List Event} {s : State} :
    Run (alignedStep cfg wait) (init map airlines) tr s ↔
      Run (step cfg wait) (init map airlines) tr s ∧ InStep tr := by
  constructor
  · intro h
    induction h with
    | refl =>
      refine ⟨.refl, fun pre turn rest heq => ?_⟩
      cases pre <;> cases heq
    | @step tr es s1 s2 a run last ih =>
      obtain ⟨hrun, hin⟩ := ih
      obtain ⟨hstep, hsem⟩ := alignedStep_eq_some last
      refine ⟨hrun.step hstep, starts_run hstep hin fun ha hpc hexit => ?_⟩
      exact ((inv_run hrun).released_turn_iff hpc).mpr (hsem ha hpc hexit)
  · rintro ⟨h, hin⟩
    induction h with
    | refl => exact .refl
    | @step tr es s1 s2 a run last ih =>
      obtain ⟨htr, hes⟩ := starts_append.mp hin
      refine (ih htr).step (a := a) ?_
      unfold alignedStep
      split_ifs with hcond
      · obtain ⟨hpc, hexit, hsem⟩ := hcond
        cases a with
        | output => exact last
        | key => exact last
        | system action =>
          cases action with
          | map =>
            simp only [step, mapStep, hpc, hexit] at last
            cases last
            have hrel := hes [] s1.sys.turn [] rfl
            rw [List.append_nil] at hrel
            exact absurd hsem (((inv_run run).released_turn_iff hpc).mp hrel)
          | _ => exact last
      · exact last

/-- **The lag.** When a turn starts, the map status of the turn but one was released: the map is at
most one turn ahead. -/
theorem released_before {cfg : Config} {wait : Bool} {map : Map} {airlines : List Airline}
    {tr : List Event} {s : State} (h : Run (step cfg wait) (init map airlines) tr s) :
    ∀ pre turn rest, tr = pre ++ .start turn :: rest → ∀ k, turn = k + 1 → Released pre k := by
  induction h with
  | refl =>
    intro pre turn rest heq
    cases pre <;> cases heq
  | @step tr es s1 s2 a run last ih =>
    refine starts_run last ih fun _ hpc _ k hk => ?_
    have hinv := inv_run run
    have hsem := hinv.sem (by rw [hinv.head (.inr hpc)]; rfl)
    have hbusy := hinv.busy
    rw [hpc] at hsem
    simp only [CursesPc.taken] at hsem
    exact hinv.released_iff.mpr (by omega)

/-- The map thread goes first: turn 1 starts before anything is on the screen. -/
theorem trio_ahead :
    ¬∀ (cfg : Config) (wait : Bool) (map : Map) (airlines : List Airline) (tr : List Event)
      (s : State), Run (step cfg wait) (init map airlines) tr s → InStep tr := by
  intro h
  have hrun : ∃ tr s, exec (step someConfig true) (init trioMap trioAirlines)
      (List.replicate 6 (.system .map)) = some (tr, s) ∧ ∃ status,
        tr = [.sent 0 status, .start 0] := ⟨_, _, rfl, _, rfl⟩
  obtain ⟨tr, s, hexec, status, rfl⟩ := hrun
  have hrel := h someConfig true trioMap trioAirlines _ s (run_of_exec hexec) [.sent 0 status] 0 []
    rfl
  simpa using hrel.acknowledged

end PlaneSim.Display
