import PlaneSim.Display
import PlaneSim.Termination

/-!
# The curses build ends

With the display there are more ways to wait: for room in the queue of the output thread, for
`outputSem`, for the output thread to end, and for a key.

1. The output thread is told to end once, after everything else (`Closing`).
2. A rank that every step lowers (`rank_lt`), as in the build without curses.
3. Some thread can go on until all have ended, and every turn has then been shown
   (`exists_over`).
-/

namespace PlaneSim.Display

open Lts

/-- No receive fails. -/
def Action.reliable : Action → Bool
  | .system action => action.reliable
  | _ => true

def reliableStep (cfg : Config) (wait : Bool) (s : State) (a : Action) :
    Option (List Event × State) :=
  if a.reliable then step cfg wait s a else none

/-- The simulation and the display have ended. -/
structure Over (s : State) : Prop where
  final : Final s.sys
  map : s.pc = .run
  output : s.output = .ended

section Steps

variable {cfg : Config} {wait : Bool} {s s' : State} {a : Action} {tr es : List Event} {K : ℕ}

theorem step_of_reliableStep (h : reliableStep cfg wait s a = some (es, s')) :
    a.reliable = true ∧ step cfg wait s a = some (es, s') := by
  unfold reliableStep at h
  split_ifs at h with ha
  exact ⟨ha, h⟩

/-! ## The system behind a step -/

/-- At the wait the loop has decided to go on. -/
def Waits (s : State) : Prop :=
  s.pc = .wait ∨ s.pc = .woken → s.sys.pc = .head ∧ continueSim s.sys.map s.sys.turn = true

theorem waits_run {map : Map} {airlines : List Airline}
    (h : Run (step cfg wait) (init map airlines) tr s) : Waits s := by
  have h0 : Behind (init map airlines) (System.init map airlines) := ⟨rfl, by simp [init]⟩
  obtain ⟨sys, -, -, hwaits⟩ := h.simulation (fun _ _ _ _ _ => behind_step) h0
  exact hwaits

/-- A step is one of the display alone, or one of the system. -/
inductive Behaves (cfg : Config) (s : State) (a : Action) (es : List Event) (s' : State) : Prop where
  | display (events : es.filterMap Event.system? = []) (sys : s'.sys = s.sys)
  | system (action : PlaneSim.Action) (reliable : action.reliable = true)
      (exit : action = .exit → a = .system .exit)
      (step : PlaneSim.step cfg s.sys action = some (es.filterMap Event.system?, s'.sys))

theorem step_stop {sys : System} (hhead : sys.pc = .head)
    (hstop : (!sys.exitState && continueSim sys.map sys.turn) = false) :
    PlaneSim.step cfg sys .map = some ([], { sys with pc := .finish 0 }) := by
  simp [PlaneSim.step, PlaneSim.mapStep, hhead, hstop]

theorem step_start {sys : System} (hhead : sys.pc = .head) (hexit : sys.exitState = false)
    (hgo : continueSim sys.map sys.turn = true) :
    PlaneSim.step cfg sys .map =
      some ([], { sys with turn := sys.turn + 1, pc := .send .one 0 }) := by
  simp [PlaneSim.step, PlaneSim.mapStep, hhead, hexit, hgo]

theorem behaves_mapMove {action : PlaneSim.Action} (hwaits : Waits s) (ha : action = .map)
    (hmove : MapMove cfg s action es s') : Behaves cfg s (.system action) es s' := by
  cases hmove with
  | pushed hpc => exact .display rfl rfl
  | push hpc hpush =>
    obtain ⟨-, rfl⟩ := push_eq_some hpush
    exact .display (filterMap_push hpush) rfl
  | loop hpc hhead hgo => exact .display rfl rfl
  | leave hpc hhead hstop => exact .system .map rfl (by simp) (step_stop hhead hstop)
  | run hpc hor hhead hsys =>
    subst ha
    refine .system .map rfl (by simp) ?_
    rw [filterMap_sim]
    exact hsys
  | wait hpc hsem => exact .display rfl rfl
  | bail hpc hexit =>
    exact .system .map rfl (by simp) (step_stop (hwaits (.inr hpc)).1 (by simp [hexit]))
  | start hpc hexit =>
    obtain ⟨hhead, hgo⟩ := hwaits (.inr hpc)
    exact .system .map rfl (by simp) (step_start hhead hexit hgo)
  | endOutput hpc hpush =>
    obtain ⟨-, rfl⟩ := push_eq_some hpush
    exact .display (filterMap_push hpush) rfl
  | join hpc hended => exact .display rfl rfl

theorem behaves_outputMove (hmove : OutputMove s es s') : Behaves cfg s a es s' := by
  cases hmove with
  | _ => exact .display rfl rfl

theorem behaves_other {action : PlaneSim.Action} (ha : action.reliable = true)
    (h : (PlaneSim.step cfg s.sys action).map (fun (events, sys) =>
      (events.map Event.sim, { s with sys := sys })) = some (es, s')) :
    Behaves cfg s (.system action) es s' := by
  obtain ⟨⟨events, sys⟩, hstep, heq⟩ := Option.map_eq_some_iff.mp h
  cases heq
  refine .system action ha (congrArg Action.system) ?_
  rw [filterMap_sim]
  exact hstep

theorem behaves_step (hwaits : Waits s) (h : reliableStep cfg wait s a = some (es, s')) :
    Behaves cfg s a es s' := by
  obtain ⟨ha, h⟩ := step_of_reliableStep h
  cases a with
  | output => exact behaves_outputMove (outputMove_of_step h)
  | key =>
    simp only [step] at h
    split_ifs at h
    exact behaves_outputMove (outputMove_of_waited h)
  | system action =>
    cases action with
    | map => exact behaves_mapMove hwaits rfl (mapMove_of_step h)
    | mapFail | listenerFail b => cases ha
    | listener b | plane b p | exit => exact behaves_other ha h

theorem system_run {map : Map} {airlines : List Airline}
    (h : Run (reliableStep cfg wait) (init map airlines) tr s) :
    Run (step cfg wait) (init map airlines) tr s ∧
      Run (PlaneSim.reliableStep cfg) (System.init map airlines) (tr.filterMap Event.system?)
        s.sys := by
  induction h with
  | refl => exact ⟨.refl, .refl⟩
  | @step tr es s1 s2 a run last ih =>
    obtain ⟨hrun, hsys⟩ := ih
    refine ⟨hrun.step (step_of_reliableStep last).2, ?_⟩
    rw [List.filterMap_append]
    cases behaves_step (waits_run hrun) last with
    | display events sys =>
      rw [events, List.append_nil, sys]
      exact hsys
    | system action reliable exit step =>
      refine hsys.step (a := action) ?_
      rw [PlaneSim.reliableStep, if_pos reliable]
      exact step

/-! ## The end of the output thread -/

/-- What the map thread is about to push. -/
def CursesPc.msgs : CursesPc → List OutputMessage
  | .push msgs => msgs
  | _ => []

/-- `run_output` has not taken the last message. -/
def OutputPc.showing : OutputPc → Bool
  | .last => false
  | .ended => false
  | _ => true

/-- The output thread has not been told to end. -/
def Untold (s : State) : Prop := .endOutput ∉ s.queue ∧ s.output.showing = true

/-- It has been told, with everything else before. -/
def Told (s : State) : Prop :=
  (∃ queue, s.queue = queue ++ [.endOutput] ∧ .endOutput ∉ queue ∧ s.output.showing = true) ∨
    s.queue = [] ∧ s.output.showing = false

/-- It is told after `runMap` has returned, and the map thread waits for its end. -/
structure Closing (s : State) : Prop where
  msgs : .endOutput ∉ s.pc.msgs
  before : returned s.sys.pc = false → Untold s
  endOutput : s.pc = .endOutput → Untold s
  join : s.pc = .join → Told s
  after : returned s.sys.pc = true → s.pc = .endOutput ∨ s.pc = .join ∨
    (s.pc = .run ∨ s.pc = .push []) ∧ s.queue = [] ∧ s.output = .ended

theorem closing_init (map : Map) (airlines : List Airline) : Closing (init map airlines) where
  msgs := by
    show _ ∉ airlinesStatus airlines ++ [sendMapStatus map (getMapStatus map).1]
    simp [airlinesStatus, sendMapStatus]
  before _ := ⟨List.not_mem_nil, rfl⟩
  endOutput h := by cases h
  join h := by cases h
  after h := by cases h

theorem reports_ne_endOutput (s : State) (action : PlaneSim.Action) :
    .endOutput ∉ reports s action := by
  unfold reports
  split
  · split
    · simp [sendMapStatus]
    · split <;> simp
  · simp

theorem Closing.mapMove {action : PlaneSim.Action} (h : Closing s) (hinv : Inv tr s)
    (hmove : MapMove cfg s action es s') : Closing s' := by
  cases hmove with
  | pushed hpc =>
    refine ⟨List.not_mem_nil, h.before, nofun, nofun,
      fun hret => ?_⟩
    have hafter := h.after hret
    rw [hpc] at hafter
    simpa using hafter
  | push hpc hpush =>
    obtain ⟨-, rfl⟩ := push_eq_some hpush
    have hmsgs := h.msgs
    have hafter := h.after
    rw [hpc] at hmsgs hafter
    obtain ⟨hmsg, hrest⟩ := not_or.mp (List.mem_cons.not.mp hmsgs)
    refine ⟨hrest, fun hret => ?_, nofun, nofun,
      fun hret => by simpa using hafter hret⟩
    obtain ⟨hqueue, hout⟩ := h.before hret
    exact ⟨by simpa using ⟨hqueue, hmsg⟩, hout⟩
  | loop hpc hhead hgo =>
    refine ⟨List.not_mem_nil, h.before, nofun, nofun,
      fun hret => ?_⟩
    rw [hhead] at hret
    cases hret
  | leave hpc hhead hstop =>
    have huntold := h.before (by rw [hhead]; rfl)
    exact ⟨List.not_mem_nil, nofun, fun _ => huntold,
      nofun, fun _ => .inl rfl⟩
  | run hpc hor hhead hsys =>
    rename_i sys
    obtain ⟨-, hsame, -⟩ := step_inTurn hor hhead hsys
    refine ⟨reports_ne_endOutput s action, fun hret => h.before (hsame ▸ hret),
      nofun, nofun, fun hret => ?_⟩
    have hret : returned s.sys.pc = true := hsame ▸ hret
    have hquiet : reports s action = [] := by
      refine reports_of_not_recv fun i hrecv => ?_
      rw [hrecv] at hret
      cases hret
    have hafter := h.after hret
    rw [hpc] at hafter
    simpa [hquiet] using hafter
  | wait hpc hsem =>
    refine ⟨List.not_mem_nil, h.before, nofun, nofun,
      fun hret => ?_⟩
    rw [hinv.head (.inl hpc)] at hret
    cases hret
  | bail hpc hexit =>
    have huntold := h.before (by rw [hinv.head (.inr hpc)]; rfl)
    exact ⟨List.not_mem_nil, nofun, fun _ => huntold,
      nofun, fun _ => .inl rfl⟩
  | start hpc hexit =>
    have huntold := h.before (by rw [hinv.head (.inr hpc)]; rfl)
    exact ⟨List.not_mem_nil, fun _ => huntold, nofun,
      nofun, nofun⟩
  | endOutput hpc hpush =>
    obtain ⟨-, rfl⟩ := push_eq_some hpush
    obtain ⟨hqueue, hout⟩ := h.endOutput hpc
    refine ⟨List.not_mem_nil, fun hret => ?_, nofun,
      fun _ => .inl ⟨s.queue, rfl, hqueue, hout⟩, fun _ => .inr (.inl rfl)⟩
    rw [hinv.ended (.inl hpc)] at hret
    cases hret
  | join hpc hended =>
    refine ⟨List.not_mem_nil, fun hret => ?_, nofun,
      nofun, fun _ => ?_⟩
    · rw [hinv.ended (.inr hpc)] at hret
      cases hret
    · rcases h.join hpc with ⟨queue, -, -, hout⟩ | ⟨hqueue, -⟩
      · rw [hended] at hout
        cases hout
      · exact .inr (.inr ⟨.inl rfl, hqueue, hended⟩)

theorem Untold.pop {msg : OutputMessage} {queue : List OutputMessage} (h : Untold s)
    (hqueue : s.queue = msg :: queue) : .endOutput ∉ queue := by
  have hnot := h.1
  rw [hqueue] at hnot
  exact (not_or.mp (List.mem_cons.not.mp hnot)).2

theorem Told.pop {msg : OutputMessage} {queue : List OutputMessage} (h : Told s)
    (hqueue : s.queue = msg :: queue) :
    (msg = .endOutput ∧ queue = []) ∨
      msg ≠ .endOutput ∧ ∃ rest, queue = rest ++ [.endOutput] ∧ .endOutput ∉ rest := by
  rcases h with ⟨rest, heq, hnot, -⟩ | ⟨heq, -⟩
  · rw [heq] at hqueue
    cases rest with
    | nil =>
      cases hqueue
      exact .inl ⟨rfl, rfl⟩
    | cons first rest =>
      cases hqueue
      obtain ⟨hfirst, hrest⟩ := not_or.mp (List.mem_cons.not.mp hnot)
      exact .inr ⟨Ne.symm hfirst, rest, rfl, hrest⟩
  · rw [heq] at hqueue
    cases hqueue

theorem Closing.of_output (h : Closing s) (hsys : s'.sys = s.sys) (hpc : s'.pc = s.pc)
    (huntold : Untold s → Untold s') (htold : Told s → Told s') (hout : s.output ≠ .ended) :
    Closing s' where
  msgs := by
    rw [hpc]
    exact h.msgs
  before hret := huntold (h.before (hsys ▸ hret))
  endOutput hpc' := huntold (h.endOutput (hpc ▸ hpc'))
  join hpc' := htold (h.join (hpc ▸ hpc'))
  after hret := by
    rcases h.after (hsys ▸ hret) with hend | hjoin | ⟨-, -, hended⟩
    · exact .inl (hpc.trans hend)
    · exact .inr (.inl (hpc.trans hjoin))
    · exact absurd hended hout

theorem Closing.outputMove (h : Closing s) (hmove : OutputMove s es s') : Closing s' := by
  cases hmove with
  | mapStatus hout hqueue | airlineStatus hout hqueue =>
    refine h.of_output rfl rfl (fun hun => ⟨hun.pop hqueue, ?_⟩) (fun htold => ?_) (by simp [hout])
    · simp [OutputPc.showing, hout]
    · rcases htold.pop hqueue with ⟨heq, -⟩ | ⟨-, rest, heq, hnot⟩
      · cases heq
      · exact .inl ⟨rest, heq, hnot, by simp [OutputPc.showing, hout]⟩
  | endOutput hout hqueue =>
    refine h.of_output rfl rfl (fun hun => ?_) (fun htold => ?_) (by simp [hout])
    · exact absurd (by simp [hqueue]) hun.1
    · rcases htold.pop hqueue with ⟨-, heq⟩ | ⟨hne, -⟩
      · exact .inr ⟨heq, rfl⟩
      · exact absurd rfl hne
  | acknowledged hout | post hout =>
    have hshowing : s.output.showing = true := by rw [hout]; rfl
    refine h.of_output rfl rfl (fun hun => ⟨hun.1, rfl⟩) (fun htold => ?_) (by simp [hout])
    rcases htold with ⟨queue, heq, hnot, -⟩ | ⟨-, hover⟩
    · exact .inl ⟨queue, heq, hnot, rfl⟩
    · rw [hshowing] at hover
      cases hover
  | ended hout =>
    have hshowing : s.output.showing = false := by rw [hout]; rfl
    refine h.of_output rfl rfl (fun hun => ?_) (fun htold => ?_) (by simp [hout])
    · have := hun.2
      rw [hshowing] at this
      cases this
    · rcases htold with ⟨-, -, -, hover⟩ | ⟨heq, -⟩
      · rw [hshowing] at hover
        cases hover
      · exact .inr ⟨heq, rfl⟩

theorem closing_step (h : Closing s) (hinv : Inv tr s) (hstep : step cfg wait s a = some (es, s')) :
    Closing s' := by
  rcases step_cases hstep with ⟨action, -, hmove⟩ | hmove | ⟨action, events, sys, hmap, hfail, hsys,
    rfl, rfl⟩
  · exact h.mapMove hinv hmove
  · exact h.outputMove hmove
  · obtain ⟨hpc, -, -⟩ := step_other hmap hfail hsys
    exact ⟨h.msgs, fun hret => h.before (by rwa [← hpc]), h.endOutput, h.join,
      fun hret => h.after (by rwa [← hpc])⟩

theorem closing_run {map : Map} {airlines : List Airline}
    (h : Run (step cfg wait) (init map airlines) tr s) : Closing s := by
  induction h with
  | refl => exact closing_init map airlines
  | step run last ih => exact closing_step ih (inv_run run) last

/-! ## Ranking -/

/-- The steps the map thread takes before the next one of the system, and what it sends costs. -/
def CursesPc.rank : CursesPc → ℕ
  | .push msgs => 5 * msgs.length + 4
  | .run => 3
  | .wait => 2
  | .woken => 1
  | .endOutput => 10
  | .join => 4

def OutputPc.rank : OutputPc → ℕ
  | .shown => 2
  | .post => 1
  | .last => 1
  | _ => 0

/-- A step of the system is worth 12 of the display: it may send a message, or end the loop. -/
def State.rank (K : ℕ) (s : State) : ℕ :=
  12 * s.sys.rank K + s.pc.rank + 4 * s.queue.length + s.output.rank

theorem length_reports_le (s : State) (action : PlaneSim.Action) : (reports s action).length ≤ 1 := by
  unfold reports
  split
  · split
    · exact le_rfl
    · split <;> simp
  · exact Nat.zero_le 1

theorem rank_mapMove {action : PlaneSim.Action} (hwaits : Waits s) (hw : s.sys.Within K)
    (hmove : MapMove cfg s action es s') (ha : action = .map) : s'.rank K < s.rank K := by
  have hlower : ∀ {events : List PlaneSim.Event} {sys : System},
      PlaneSim.step cfg s.sys .map = some (events, sys) → sys.rank K < s.sys.rank K :=
    fun hstep => (declines_step hw hstep (by simp) (by simp)).rank_lt
  unfold State.rank
  cases hmove with
  | pushed hpc =>
    rw [hpc]
    simp only [CursesPc.rank]
    omega
  | push hpc hpush =>
    obtain ⟨-, rfl⟩ := push_eq_some hpush
    rw [hpc]
    simp only [CursesPc.rank, List.length_cons, List.length_append, List.length_nil]
    omega
  | loop hpc hhead hgo =>
    rw [hpc]
    simp only [CursesPc.rank]
    omega
  | leave hpc hhead hstop =>
    have := hlower (step_stop hhead hstop)
    rw [hpc]
    simp only [CursesPc.rank]
    omega
  | run hpc hor hhead hsys =>
    rw [ha] at hsys
    have hsys := hlower hsys
    have hreports := length_reports_le s action
    rw [hpc]
    simp only [CursesPc.rank]
    omega
  | wait hpc hsem =>
    rw [hpc]
    simp only [CursesPc.rank]
    omega
  | bail hpc hexit =>
    have := hlower (step_stop (hwaits (.inr hpc)).1 (by simp [hexit]))
    rw [hpc]
    simp only [CursesPc.rank]
    omega
  | start hpc hexit =>
    obtain ⟨hhead, hgo⟩ := hwaits (.inr hpc)
    have := hlower (step_start hhead hexit hgo)
    rw [hpc]
    simp only [CursesPc.rank]
    omega
  | endOutput hpc hpush =>
    obtain ⟨-, rfl⟩ := push_eq_some hpush
    rw [hpc]
    simp only [CursesPc.rank, List.length_append, List.length_cons, List.length_nil]
    omega
  | join hpc hended =>
    rw [hpc]
    simp only [CursesPc.rank]
    omega

theorem rank_outputMove (hmove : OutputMove s es s') : s'.rank K < s.rank K := by
  unfold State.rank
  cases hmove with
  | mapStatus hout hqueue | airlineStatus hout hqueue | endOutput hout hqueue =>
    rw [hout, hqueue]
    simp only [OutputPc.rank, List.length_cons]
    omega
  | acknowledged hout | post hout | ended hout =>
    rw [hout]
    simp only [OutputPc.rank]
    omega

/-- Of the steps of a reliable run, only raising the exit flag does not count. -/
def Action.counts : Action → Bool
  | .system action => action.counts
  | _ => true

theorem rank_lt (hwaits : Waits s) (hw : s.sys.Within K) (hcounts : a.counts = true)
    (h : reliableStep cfg wait s a = some (es, s')) : s'.rank K < s.rank K := by
  obtain ⟨ha, h⟩ := step_of_reliableStep h
  cases a with
  | output => exact rank_outputMove (outputMove_of_step h)
  | key =>
    simp only [step] at h
    split_ifs at h
    exact rank_outputMove (outputMove_of_waited h)
  | system action =>
    cases action with
    | map => exact rank_mapMove hwaits hw (mapMove_of_step h) rfl
    | mapFail | listenerFail b => cases ha
    | exit => cases hcounts
    | listener b | plane b p =>
      simp only [step] at h
      obtain ⟨⟨events, sys⟩, hstep, heq⟩ := Option.map_eq_some_iff.mp h
      cases heq
      have hlower := (declines_step hw hstep (by simp) (by simp)).rank_lt
      unfold State.rank
      dsimp only
      omega

/-! ## Progress -/

/-- Some thread can go on; the user presses the keys. -/
def CanStep (cfg : Config) (wait : Bool) (s : State) : Prop :=
  ∃ a es s', a.counts = true ∧ reliableStep cfg wait s a = some (es, s')

theorem canStep_of_map {r : List Event × State} (h : mapStep cfg s = some r) : CanStep cfg wait s :=
  ⟨.system .map, r.1, r.2, rfl, h⟩

theorem canStep_of_output (hout : s.output ≠ .ended) (hqueue : s.output = .pop → s.queue ≠ []) :
    CanStep cfg wait s := by
  have hwaited : ∀ r, waited s = some r → CanStep cfg wait s := by
    intro r hr
    cases wait with
    | true => exact ⟨.key, r.1, r.2, rfl, hr⟩
    | false =>
      refine ⟨.output, r.1, r.2, rfl, ?_⟩
      show outputStep false s = some r
      unfold outputStep
      split
      · rename_i hpop
        simp [waited, hpop] at hr
      · rename_i hpost
        simp [waited, hpost] at hr
      · exact hr
  have houtput : ∀ r, outputStep wait s = some r → CanStep cfg wait s :=
    fun r hr => ⟨.output, r.1, r.2, rfl, hr⟩
  cases hpc : s.output with
  | pop =>
    cases hq : s.queue with
    | nil => exact absurd hq (hqueue hpc)
    | cons msg queue => cases msg <;> exact houtput (_, _) (by simp only [outputStep, hpc, hq]; rfl)
  | shown => exact hwaited (_, _) (by simp only [waited, hpc]; rfl)
  | post => exact houtput (_, _) (by simp only [outputStep, hpc]; rfl)
  | last => exact hwaited (_, _) (by simp only [waited, hpc]; rfl)
  | ended => exact absurd hpc hout

/-- A push waits for the output thread. -/
theorem canStep_of_push {msg : OutputMessage} {pc : CursesPc} (huntold : Untold s)
    (hmap : mapStep cfg s = push s msg pc) : CanStep cfg wait s := by
  unfold push at hmap
  split_ifs at hmap with hroom
  · exact canStep_of_map hmap
  · refine canStep_of_output ?_ ?_
    · intro hended
      have hshowing := huntold.2
      rw [hended] at hshowing
      cases hshowing
    · rintro - hempty
      exact hroom (by rw [hempty]; decide)

/-- With the semaphore at 0, there is a status to show or to release. -/
theorem canStep_of_wait (hinv : Inv tr s) (hclosing : Closing s) (hpc : s.pc = .wait)
    (hsem : ¬0 < s.outputSem) : CanStep cfg wait s := by
  have hhead := hinv.head (.inl hpc)
  have hret : returned s.sys.pc = false := by rw [hhead]; rfl
  have huntold := hclosing.before hret
  refine canStep_of_output ?_ ?_
  · intro hended
    have hshowing := huntold.2
    rw [hended] at hshowing
    cases hshowing
  · intro hpop hempty
    have hdue := hinv.due
    have hqueued := congrArg List.length hinv.queued
    have hshown := congrArg List.length hinv.shown
    have hcount := hinv.sem hret
    rw [hempty] at hqueued
    rw [hpop, hpc] at hcount
    rw [hpc, hhead] at hdue
    simp only [List.length_map, List.length_append, List.length_range, List.filterMap_nil,
      List.length_nil, CursesPc.pending, inTurn, CursesPc.taken, OutputPc.unreleased] at *
    omega

/-- **No deadlock.** -/
theorem canStep_or_over (hinv : Inv tr s) (hclosing : Closing s)
    (hsys : Enabled cfg s.sys ∨ Final s.sys) : CanStep cfg wait s ∨ Over s := by
  cases hpc : s.pc with
  | push msgs =>
    left
    cases msgs with
    | nil => exact canStep_of_map (by simp only [mapStep, hpc]; rfl)
    | cons msg msgs =>
      have hmap : mapStep cfg s = push s msg (.push msgs) := by simp only [mapStep, hpc]
      refine canStep_of_push (hclosing.before ?_) hmap
      by_contra hret
      have hafter := hclosing.after (Bool.eq_true_of_not_eq_false hret)
      rw [hpc] at hafter
      simp at hafter
  | run =>
    by_cases hhead : s.sys.pc = .head
    · left
      cases hr : mapStep cfg s with
      | some r => exact canStep_of_map hr
      | none =>
        simp only [mapStep, hpc, hhead] at hr
        split at hr <;> cases hr
    · rcases hsys with ⟨action, events, sys, hexit, hstep⟩ | hfinal
      · left
        unfold PlaneSim.reliableStep at hstep
        split_ifs at hstep with hreliable
        cases action with
        | map =>
          have hrun : mapStep cfg s = runStep cfg s .map := by simp only [mapStep, hpc]
          exact canStep_of_map (by rw [hrun, runStep, hstep]; rfl)
        | exit => exact absurd rfl hexit
        | mapFail | listenerFail a => cases hreliable
        | listener a =>
          exact ⟨.system (.listener a), _, _, rfl, by
            show (PlaneSim.step cfg s.sys (.listener a)).map _ = _
            rw [hstep]
            rfl⟩
        | plane a p =>
          exact ⟨.system (.plane a p), _, _, rfl, by
            show (PlaneSim.step cfg s.sys (.plane a p)).map _ = _
            rw [hstep]
            rfl⟩
      · right
        have hafter := hclosing.after (by rw [hfinal.map]; rfl)
        rw [hpc] at hafter
        have hended : s.queue = [] ∧ s.output = .ended := by simpa using hafter
        exact ⟨hfinal, hpc, hended.2⟩
  | wait =>
    left
    by_cases hsem : 0 < s.outputSem
    · exact canStep_of_map (by simp only [mapStep, hpc, if_pos hsem]; rfl)
    · exact canStep_of_wait hinv hclosing hpc hsem
  | woken =>
    left
    cases hr : mapStep cfg s with
    | some r => exact canStep_of_map hr
    | none =>
      simp only [mapStep, hpc] at hr
      split at hr <;> cases hr
  | endOutput =>
    left
    have hmap : mapStep cfg s = push s .endOutput .join := by simp only [mapStep, hpc]
    exact canStep_of_push (hclosing.endOutput hpc) hmap
  | join =>
    left
    by_cases hended : s.output = .ended
    · exact canStep_of_map (by simp only [mapStep, hpc, if_pos hended]; rfl)
    · refine canStep_of_output hended ?_
      rintro hpop hempty
      rcases hclosing.join hpc with ⟨queue, hqueue, -, -⟩ | ⟨-, hshowing⟩
      · rw [hempty] at hqueue
        simp at hqueue
      · rw [hpop] at hshowing
        cases hshowing

end Steps

/-! ## The end -/

section Runs

variable {cfg : Config} {wait : Bool} {map : Map} {airlines : List Airline} {s s' : State}
  {as : List Action} {tr es : List Event} {a : Action}

/-- The steps of all turns, with the display. -/
def showLength (airlines : List Airline) : ℕ :=
  12 * scheduleLength airlines + 5 * airlines.length + 9

theorem rank_init_le (map : Map) (airlines : List Airline) :
    (init map airlines).rank (maxPlanes airlines) ≤ showLength airlines := by
  have hsys := rank_init map airlines
  have hmsgs : (airlinesStatus airlines ++ [sendMapStatus map (getMapStatus map).1]).length =
      airlines.length + 1 := by
    simp [airlinesStatus]
  show 12 * (System.init map airlines).rank (maxPlanes airlines) + (5 * _ + 4) + 4 * 0 + 0 ≤ _
  rw [hmsgs, showLength]
  omega

/-- Raising the exit flag is no work for the display. -/
theorem rank_reliableStep {K : ℕ} (hwaits : Waits s) (hw : s.sys.Within K)
    (h : reliableStep cfg wait s a = some (es, s')) :
    s'.rank K + (if a.counts then 1 else 0) ≤ s.rank K := by
  by_cases hcounts : a.counts = true
  · rw [if_pos hcounts]
    exact rank_lt hwaits hw hcounts h
  · rw [if_neg hcounts]
    obtain ⟨ha, h⟩ := step_of_reliableStep h
    cases a with
    | output | key => exact absurd rfl hcounts
    | system action =>
      have hexit : action = .exit := by
        by_contra hne
        exact hcounts (decide_eq_true hne)
      subst hexit
      cases h
      unfold State.rank
      have hexit : PlaneSim.step cfg s.sys .exit = some ([], { s.sys with exitState := true }) := rfl
      have hsys := rank_exit (K := K) hexit
      dsimp only at hsys ⊢
      omega

/-- When everything has ended, every turn has been shown, acknowledged and released. -/
theorem Over.shown (h : Over s) (hinv : Inv tr s) (hclosing : Closing s) :
    displays tr = sents tr ∧ (displays tr).map Prod.fst = List.range (s.sys.turn + 1) ∧
      posts tr = List.range (s.sys.turn + 1) := by
  have hret : returned s.sys.pc = true := by rw [h.final.map]; rfl
  have hqueue : s.queue = [] := by
    have hafter := hclosing.after hret
    rw [h.map] at hafter
    exact (by simpa using hafter : s.queue = [] ∧ s.output = .ended).1
  have hdue := hinv.due
  have hqueued := hinv.queued
  have hreleased := hinv.released
  rw [h.map, h.final.map] at hdue
  rw [hqueue, List.filterMap_nil, List.append_nil] at hqueued
  rw [h.output] at hreleased
  have hlen : (displays tr).length = (sents tr).length := by
    simpa using (congrArg List.length hqueued).symm
  have hturn : s.turn = (displays tr).length := by
    simpa using (congrArg List.length hinv.shown).symm
  have hturns : s.turn = s.sys.turn + 1 := hturn.trans (hlen.trans hdue)
  have hfst : (displays tr).map Prod.fst = (sents tr).map Prod.fst := by
    rw [hinv.shown, hinv.sent, hturn, hlen]
  refine ⟨?_, hturns ▸ hinv.shown, hturns ▸ hreleased⟩
  rw [← List.zip_unzip (displays tr), ← List.zip_unzip (sents tr), List.unzip_eq_map,
    List.unzip_eq_map, hfst, hqueued]

/-- **The curses build ends.** However far the threads have come, in whatever order, they can go on,
with the keys pressed, until the simulation and the display have ended; in all that takes at most
`showLength` steps, and the status of every turn has been shown. -/
theorem exists_over (h : Setup map airlines) (hlist : Listing map)
    (hcap : ∀ capacity, cfg.capacity = some capacity → 1 ≤ capacity)
    (hexec : exec (reliableStep cfg wait) (init map airlines) as = some (tr, s)) :
    ∃ as' tr' s', exec (reliableStep cfg wait) s as' = some (tr', s') ∧ Over s' ∧
      (as ++ as').countP Action.counts ≤ showLength airlines ∧
      displays (tr ++ tr') = sents (tr ++ tr') ∧
      (displays (tr ++ tr')).map Prod.fst = List.range (s'.sys.turn + 1) ∧
      posts (tr ++ tr') = List.range (s'.sys.turn + 1) := by
  let P : State → Prop := fun s => ∃ tr, Run (reliableStep cfg wait) (init map airlines) tr s
  have hkeep : ∀ s a es s', P s → reliableStep cfg wait s a = some (es, s') → P s' :=
    fun _ _ _ _ ⟨tr, hrun⟩ hstep => ⟨_, hrun.step hstep⟩
  have hrank : ∀ s a es s', P s → reliableStep cfg wait s a = some (es, s') →
      s'.rank (maxPlanes airlines) + (if a.counts then 1 else 0) ≤ s.rank (maxPlanes airlines) := by
    rintro s a es s' ⟨tr, hrun⟩ hstep
    obtain ⟨hrun, hsys⟩ := system_run hrun
    exact rank_reliableStep (waits_run hrun) (within_run hsys).1 hstep
  have hprogress : ∀ s, P s → ¬Over s → ∃ a es s', reliableStep cfg wait s a = some (es, s') ∧
      s'.rank (maxPlanes airlines) < s.rank (maxPlanes airlines) := by
    rintro s ⟨tr, hrun⟩ hnot
    obtain ⟨hrun', hsys⟩ := system_run hrun
    obtain ⟨T, sts, -, hsim⟩ := sim_run h hsys (not_crashed h hlist hsys)
    obtain ⟨a, es, s', hcounts, hstep⟩ := (canStep_or_over (inv_run hrun') (closing_run hrun')
      (hsim.enabled hcap)).resolve_right hnot
    exact ⟨a, es, s', hstep, rank_lt (waits_run hrun') (within_run hsys).1 hcounts hstep⟩
  obtain ⟨as', tr', s', hexec', hover⟩ :=
    exists_exec_of_rank hkeep (State.rank (maxPlanes airlines)) hprogress ⟨tr, run_of_exec hexec⟩
  have hall := exec_append hexec hexec'
  have hcount := exec_countP hkeep (State.rank (maxPlanes airlines)) hrank ⟨[], .refl⟩ hall
  obtain ⟨hrun, -⟩ := system_run (run_of_exec hall)
  refine ⟨as', tr', s', hexec', hover, ?_, hover.shown (inv_run hrun) (closing_run hrun)⟩
  have hinit := rank_init_le map airlines
  omega

/-- The first status is on the screen, and a key has been pressed. -/
def toShown : List Action :=
  [.system .map, .system .map, .output, .output, .key]

theorem exists_over_trio :
    ∃ tr s as tr' s',
      exec (reliableStep tightConfig true) (init trioMap trioAirlines) toShown = some (tr, s) ∧
      exec (reliableStep tightConfig true) s as = some (tr', s') ∧ Over s' := by
  obtain ⟨tr, s, hexec⟩ : ∃ tr s,
      exec (reliableStep tightConfig true) (init trioMap trioAirlines) toShown = some (tr, s) :=
    ⟨_, _, rfl⟩
  obtain ⟨as, tr', s', hrest, hover, -⟩ := exists_over setup_trio listing_trio
    (by rintro capacity ⟨⟩; exact le_rfl) hexec
  exact ⟨tr, s, as, tr', s', hexec, hrest, hover⟩

end Runs

end PlaneSim.Display
