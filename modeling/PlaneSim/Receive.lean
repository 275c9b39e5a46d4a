import PlaneSim.Owed
import Mathlib.Algebra.BigOperators.Group.Finset.Piecewise
import Mathlib.Algebra.Order.BigOperators.Group.Finset

/-!
# Failing receives

`runMap` does not look at what `comm_get_map_message` returns: after a failed receive it acts on
what `msg` still holds. That does nothing exactly when its loop has no branch for such a message
(`mapFailStep_eq_self_iff`).

1. A step of the map takes from its inbox what it acts on, counts the reports of the phase, and tells
   airlines to start (`MapEffect`).
2. Where every failed receive is one that is ignored, the messages acted on are those that were
   sent, each once and in order (`Once`); no airline is counted more often than it was told to start
   (`Ledger`).
3. So a phase is over exactly when every airline was counted once in it (`receives_once`).
-/

namespace PlaneSim

open Lts Update

/-! ## What is sent and acted on -/

/-- A message that enters the inbox of the map, with its airline. -/
def Event.sentFrom : Event → Option (ℕ × PlaneMessage)
  | .sent a msg _ => some (a, msg)
  | _ => none

/-- A message that `runMap` acts on, with the phase. -/
def Event.actedOn : Event → Option (Phase × PlaneMessage)
  | .receive phase _ (some msg) => some (phase, msg)
  | _ => none

/-- The messages sent and what `runMap` acted on, in pairs. -/
def served (tr : List Event) : List ((ℕ × PlaneMessage) × (Phase × PlaneMessage)) :=
  (tr.filterMap Event.sentFrom).zip (tr.filterMap Event.actedOn)

/-- The loop of the phase counts an airline for the message. -/
def counts (x : Phase × PlaneMessage) : Bool := x.2.reports = some x.1

/-- How often airline `a` was counted. -/
def countedFrom (a : ℕ) (tr : List Event) : ℕ :=
  (served tr).countP fun x => x.1.1 = a && counts x.2

/-- The loop that `runMap` is in has no branch for what `msg` holds. -/
def System.ignores (s : System) : Bool :=
  match s.pc, s.msg with
  | .recv phase _, some msg => !handled phase msg
  | _, _ => false

/-- The receives of the listeners may fail anywhere, and those of `runMap` where its loop ignores
what `msg` holds. -/
def ignoringStep (cfg : Config) (s : System) (action : Action) : Option (List Event × System) :=
  match action with
  | .mapFail => if s.ignores then step cfg s .mapFail else none
  | action => step cfg s action

/-! ## The phases so far -/

/-- How many phases are over when a turn comes to this one. -/
def Phase.before (turn : ℕ) : Phase → ℕ
  | .one => 2 * (turn - 1)
  | .two => 2 * (turn - 1) + 1

/-- How many phases are over. -/
def MapPc.phasesDone (turn : ℕ) : MapPc → ℕ
  | .send phase _ | .recv phase _ | .reply phase _ _ _ => phase.before turn
  | _ => 2 * turn

/-- How many airlines are counted in the current phase. -/
def MapPc.counted : MapPc → ℕ
  | .recv _ i => i
  | .reply _ i _ _ => i
  | _ => 0

/-- How many phases airline `a` was told to start. -/
def MapPc.begun (turn a : ℕ) : MapPc → ℕ
  | .send phase i => phase.before turn + if a < i then 1 else 0
  | .recv phase _ | .reply phase _ _ _ => phase.before turn + 1
  | _ => 2 * turn

/-- A phase is one of a turn, and what is written back is not a start message. -/
def MapPc.Sane (turn : ℕ) : MapPc → Prop
  | .send _ _ | .recv _ _ => 1 ≤ turn
  | .reply _ _ _ msg => 1 ≤ turn ∧ msg.isStart = false
  | _ => True

section Fail

variable {cfg : Config} {s s' : System} {action : Action} {es : List Event}

/-- A message without a branch changes nothing. -/
theorem act_unhandled {phase : Phase} {i : ℕ} {msg : PlaneMessage}
    (h : handled phase msg = false) : act cfg s phase i msg = ([.error], s) := by
  cases phase <;> cases msg <;> first | rfl | cases h

/-- Any other takes the map out of the loop, or counts. -/
theorem pc_act_ne {phase : Phase} {i : ℕ} {msg : PlaneMessage} (h : handled phase msg = true) :
    (act cfg s phase i msg).2.pc ≠ .recv phase i := by
  unfold act
  split
  · simp
  · split <;> simp
  · simp
  · split <;> simp
  · rename_i h1 h2 h3 h4
    cases phase with
    | one =>
      cases msg with
      | airlineDone => exact absurd rfl (h1 rfl)
      | unloadStock m => exact absurd rfl (h2 m rfl)
      | airlineStatus _ | checkDestinations _ => cases h
    | two =>
      cases msg with
      | airlineStatus m => exact absurd rfl (h3 m rfl)
      | checkDestinations m => exact absurd rfl (h4 m rfl)
      | airlineDone | unloadStock _ => cases h

/-- **A failed receive** leaves the system as it was exactly when the loop ignores what `msg`
holds. -/
theorem mapFailStep_eq_self_iff (h : mapFailStep cfg s = some (es, s')) :
    s' = s ↔ s.ignores = true := by
  unfold mapFailStep at h
  cases hpc : s.pc with
  | recv phase i =>
    simp only [hpc] at h
    split at h
    · cases h
    have hne : ∀ {s' : System}, s'.pc ≠ .recv phase i → s' ≠ s := by
      rintro s' hne rfl
      exact hne hpc
    cases hmsg : s.msg with
    | none =>
      rw [hmsg] at h
      cases h
      simp only [System.ignores, hpc, hmsg, Bool.false_eq_true, iff_false]
      exact hne (by simp)
    | some msg =>
      rw [hmsg] at h
      have hnew : (act cfg s phase i msg).2 = s' := by
        cases h
        rfl
      rw [← hnew]
      simp only [System.ignores, hpc, hmsg, Bool.not_eq_true']
      constructor
      · intro hsame
        by_contra hhandled
        exact hne (pc_act_ne (by simpa using hhandled)) hsame
      · intro hhandled
        rw [act_unhandled hhandled]
  | head | send _ _ | reply _ _ _ _ | finish _ | halted | crashed =>
    simp only [hpc] at h
    cases h

/-- What a failed receive that is ignored is. -/
theorem mapFailStep_of_ignores (h : mapFailStep cfg s = some (es, s')) (hs : s.ignores = true) :
    s' = s ∧ ∃ phase, es = [.receive phase none none, .error] := by
  refine ⟨(mapFailStep_eq_self_iff h).mpr hs, ?_⟩
  unfold mapFailStep at h
  cases hpc : s.pc with
  | recv phase i =>
    simp only [hpc] at h
    split at h
    · cases h
    cases hmsg : s.msg with
    | none => simp [System.ignores, hpc, hmsg] at hs
    | some msg =>
      simp only [System.ignores, hpc, hmsg, Bool.not_eq_true'] at hs
      rw [hmsg] at h
      simp only [act_unhandled hs, hs] at h
      cases h
      exact ⟨phase, rfl⟩
  | head | send _ _ | reply _ _ _ _ | finish _ | halted | crashed =>
    simp only [hpc] at h
    cases h

/-- A step is one of the map, one of a thread of an airline, or changes nothing but the exit flag. -/
theorem ignoringStep_cases (h : ignoringStep cfg s action = some (es, s')) :
    mapStep cfg s = some (es, s') ∨
    (∃ a A r, s.airlines[a]? = some A ∧ Emission a A r ∧ (A.Locked → Repays a A r.2.1 r.1) ∧
      s.update a r = (es, s')) ∨
    (es = [] ∧ s' = { s with exitState := true }) ∨
    (s' = s ∧ ∃ phase, es = [.receive phase none none, .error]) := by
  unfold ignoringStep at h
  cases action with
  | map => exact .inl h
  | listener a =>
    obtain ⟨A, hA, h⟩ := Option.bind_eq_some_iff.mp h
    obtain ⟨r, hlisten, hnew⟩ := Option.map_eq_some_iff.mp h
    exact .inr (.inl ⟨a, A, r, hA, emission_listenStep hlisten,
      fun hlocked => repays_listenStep hlocked hlisten, hnew⟩)
  | plane a p =>
    obtain ⟨A, hA, h⟩ := Option.bind_eq_some_iff.mp h
    obtain ⟨r, hplane, hnew⟩ := Option.map_eq_some_iff.mp h
    exact .inr (.inl ⟨a, A, r, hA, emission_planeStep hplane,
      fun hlocked => repays_planeStep hlocked hplane, hnew⟩)
  | exit =>
    cases h
    exact .inr (.inr (.inl ⟨rfl, rfl⟩))
  | mapFail =>
    simp only at h
    split at h
    · rename_i hs
      exact .inr (.inr (.inr (mapFailStep_of_ignores h hs)))
    · cases h
  | listenerFail a =>
    obtain ⟨A, hA, h⟩ := Option.bind_eq_some_iff.mp h
    obtain ⟨A', hfail, hnew⟩ := Option.map_eq_some_iff.mp h
    refine .inr (.inl ⟨a, A, ([], A', none), hA, .silent A',
      fun hlocked => repays_listenFail hlocked hfail, ?_⟩)
    rw [← hnew]
    simp [System.update]

end Fail

/-! ## Steps of the map -/

section Map

variable {cfg : Config} {s s' : System} {es : List Event}

/-- A reply is not a start message. -/
theorem isStart_reply {map map' : PlaneSim.Map} {airline : Int} {reply : MapMessage} :
    (∀ msg, serveUnload map msg = some (map', airline, reply) → reply.isStart = false) ∧
    ∀ qsort msg, serveDestinations qsort map msg = some (map', airline, reply) →
      reply.isStart = false := by
  refine ⟨fun msg h => ?_, fun qsort msg h => ?_⟩
  · obtain ⟨⟨plane, map1⟩, -, h⟩ := Option.bind_eq_some_iff.mp h
    obtain ⟨⟨map2, plane'⟩, -, h⟩ := Option.bind_eq_some_iff.mp h
    obtain ⟨reply', hreply, h⟩ := Option.bind_eq_some_iff.mp h
    cases h
    obtain ⟨body, -, rfl⟩ := Option.map_eq_some_iff.mp hreply
    rfl
  · obtain ⟨⟨plane, map1⟩, -, h⟩ := Option.bind_eq_some_iff.mp h
    obtain ⟨body, -, h⟩ := Option.bind_eq_some_iff.mp h
    cases h
    rfl

/-- Where the loop is after a message. -/
theorem pc_act (cfg : Config) (s : System) {phase : Phase} {i : ℕ} (hpc : s.pc = .recv phase i)
    (msg : PlaneMessage) :
    (act cfg s phase i msg).2.pc = .crashed ∨
    (counts (phase, msg) = true ∧ (act cfg s phase i msg).2.pc = .recv phase (i + 1)) ∨
    counts (phase, msg) = false ∧ ((act cfg s phase i msg).2.pc = .recv phase i ∨
      ∃ airline reply, reply.isStart = false ∧
        (act cfg s phase i msg).2.pc = .reply phase i airline reply) := by
  cases phase with
  | one =>
    cases msg with
    | airlineDone => exact .inr (.inl ⟨rfl, rfl⟩)
    | airlineStatus _ | checkDestinations _ => exact .inr (.inr ⟨rfl, .inl hpc⟩)
    | unloadStock m =>
      simp only [act]
      split
      · rename_i hserve
        exact .inr (.inr ⟨rfl, .inr ⟨_, _, isStart_reply.1 m hserve, rfl⟩⟩)
      · exact .inl rfl
  | two =>
    cases msg with
    | airlineStatus _ => exact .inr (.inl ⟨rfl, rfl⟩)
    | airlineDone | unloadStock _ => exact .inr (.inr ⟨rfl, .inl hpc⟩)
    | checkDestinations m =>
      simp only [act]
      split
      · rename_i hserve
        exact .inr (.inr ⟨rfl, .inr ⟨_, _, isStart_reply.2 _ m hserve, rfl⟩⟩)
      · exact .inl rfl

/-- What a step of the map does to what is counted here. -/
structure MapEffect (s : System) (es : List Event) (s' : System) : Prop where
  sane : s'.pc.Sane s'.turn
  unsent : es.filterMap Event.sentFrom = []
  taken : ∃ taken, s.inbox = taken ++ s'.inbox ∧
    taken.map Prod.snd = (es.filterMap Event.actedOn).map Prod.snd
  phases : s'.pc ≠ .crashed →
    s'.pc.phasesDone s'.turn = s.pc.phasesDone s.turn ∧
      s'.pc.counted = s.pc.counted + (es.filterMap Event.actedOn).countP counts ∨
    s'.pc.phasesDone s'.turn = s.pc.phasesDone s.turn + 1 ∧
      s.pc.counted = s.airlines.length ∧ s'.pc.counted = 0 ∧ es = []
  length : s'.airlines.length = s.airlines.length
  told : ∀ a A', s'.airlines[a]? = some A' → ∃ A msgs, s.airlines[a]? = some A ∧
    A' = { A with inbox := A.inbox ++ msgs } ∧
    msgs.countP MapMessage.isStart + s.pc.begun s.turn a ≤ s'.pc.begun s'.turn a

/-- A step that sends nothing. -/
theorem MapEffect.silent {pc : MapPc} {turn : ℕ} (hsane : pc.Sane turn)
    (hphases : pc.phasesDone turn = s.pc.phasesDone s.turn ∧ pc.counted = s.pc.counted ∨
      pc.phasesDone turn = s.pc.phasesDone s.turn + 1 ∧ s.pc.counted = s.airlines.length ∧
        pc.counted = 0)
    (hbegun : ∀ a < s.airlines.length, s.pc.begun s.turn a ≤ pc.begun turn a) :
    MapEffect s [] { s with pc := pc, turn := turn } where
  sane := hsane
  unsent := rfl
  taken := ⟨[], rfl, rfl⟩
  phases _ := by
    rcases hphases with ⟨hdone, hcounted⟩ | ⟨hdone, hall, hcounted⟩
    · exact .inl ⟨hdone, hcounted⟩
    · exact .inr ⟨hdone, hall, hcounted, rfl⟩
  length := rfl
  told a A' hA' := ⟨A', [], hA', by simp,
    (Nat.zero_add _).trans_le (hbegun a (List.getElem?_eq_some_iff.mp hA').1)⟩

/-- A step that writes to an airline. -/
theorem MapEffect.delivers {pc : MapPc} {i : ℕ} {A : AirlineState} {msg : MapMessage}
    (hA : s.airlines[i]? = some A) (hsane : pc.Sane s.turn)
    (hdone : pc.phasesDone s.turn = s.pc.phasesDone s.turn) (hcounted : pc.counted = s.pc.counted)
    (hbegun : ∀ a, (if a = i ∧ msg.isStart then 1 else 0) + s.pc.begun s.turn a ≤
      pc.begun s.turn a) :
    MapEffect s [] { s with pc := pc, airlines := s.airlines.set i { A with
      inbox := A.inbox ++ [msg] } } where
  sane := hsane
  unsent := rfl
  taken := ⟨[], rfl, rfl⟩
  phases _ := .inl ⟨hdone, hcounted⟩
  length := List.length_set
  told a A' hA' := by
    revert a A'
    refine forall_getElem?_set hA (fun a A' hai hA' => ?_) ?_
    · refine ⟨A', [], hA', by simp, (Nat.le_of_eq ?_).trans (hbegun a)⟩
      simp [hai]
    · refine ⟨A, [msg], hA, rfl, (Nat.le_of_eq ?_).trans (hbegun i)⟩
      simp [List.countP_singleton]

/-- A receive. -/
theorem MapEffect.receives {phase : Phase} {i : ℕ} {x : ℕ × PlaneMessage}
    {inbox : List (ℕ × PlaneMessage)} (hturn : 1 ≤ s.turn) (hpc : s.pc = .recv phase i)
    (hinbox : s.inbox = x :: inbox) :
    MapEffect s (.receive phase (some x.2) (some x.2) ::
        (act cfg { s with inbox := inbox, msg := some x.2 } phase i x.2).1)
      (act cfg { s with inbox := inbox, msg := some x.2 } phase i x.2).2 := by
  have hquiet : ∀ e ∈ (act cfg { s with inbox := inbox, msg := some x.2 } phase i x.2).1,
      e.sentFrom = none ∧ e.actedOn = none := by
    intro e he
    rcases events_act rfl he with rfl | ⟨_, _, _, _, rfl⟩ <;> exact ⟨rfl, rfl⟩
  obtain ⟨hturns, hrest, hairlines⟩ :=
    act_frame cfg { s with inbox := inbox, msg := some x.2 } phase i x.2
  have hmoves := pc_act cfg { s with inbox := inbox, msg := some x.2 } hpc x.2
  generalize act cfg { s with inbox := inbox, msg := some x.2 } phase i x.2 = r at *
  have hsent : r.1.filterMap Event.sentFrom = [] :=
    List.filterMap_eq_nil_iff.mpr fun e he => (hquiet e he).1
  have hacted : r.1.filterMap Event.actedOn = [] :=
    List.filterMap_eq_nil_iff.mpr fun e he => (hquiet e he).2
  have hone : (Event.receive phase (some x.2) (some x.2) :: r.1).filterMap Event.actedOn =
      [(phase, x.2)] := by
    show (phase, x.2) :: r.1.filterMap Event.actedOn = _
    rw [hacted]
  have hbefore : phase.before s.turn + 1 ≤ 2 * s.turn := by
    cases phase <;> simp only [Phase.before] <;> omega
  refine ⟨?_, hsent, ⟨[x], by rw [hinbox, hrest]; rfl, by rw [hone]; rfl⟩, fun hcrash => ?_,
    congrArg List.length hairlines, fun a A' hA' => ⟨A', [], by rw [← hairlines]; exact hA',
      by simp, (Nat.zero_add _).trans_le ?_⟩⟩
  · rw [hturns]
    rcases hmoves with hmoves | ⟨-, hmoves⟩ | ⟨-, hmoves | ⟨airline, reply, hreply, hmoves⟩⟩
    · rw [hmoves]
      exact trivial
    · rw [hmoves]
      exact hturn
    · rw [hmoves]
      exact hturn
    · rw [hmoves]
      exact ⟨hturn, hreply⟩
  · rw [hone, hturns, hpc]
    rcases hmoves with hmoves | ⟨hcounts, hmoves⟩ | ⟨hcounts, hmoves | ⟨airline, reply, -, hmoves⟩⟩
    · exact absurd hmoves hcrash
    all_goals
      rw [hmoves]
      simp [MapPc.phasesDone, MapPc.counted, hcounts]
  · rw [hturns, hpc]
    rcases hmoves with hmoves | ⟨-, hmoves⟩ | ⟨-, hmoves | ⟨airline, reply, -, hmoves⟩⟩
    · rw [hmoves]
      exact hbefore
    all_goals simp only [hmoves, MapPc.begun, le_refl]

theorem mapEffect (hsane : s.pc.Sane s.turn) (h : mapStep cfg s = some (es, s')) :
    MapEffect s es s' := by
  cases mapMove_of_mapStep h with
  | turn hpc =>
    refine .silent (Nat.le_add_left 1 _) (.inl (by rw [hpc]; exact ⟨rfl, rfl⟩)) fun a _ => ?_
    rw [hpc]
    exact le_rfl
  | leave hpc =>
    refine .silent trivial (.inl (by rw [hpc]; exact ⟨rfl, rfl⟩)) fun a _ => ?_
    rw [hpc]
    exact le_rfl
  | start hpc hA =>
    rw [hpc] at hsane
    refine .delivers hA hsane (by rw [hpc]; rfl) (by rw [hpc]; rfl) fun a => ?_
    rw [hpc]
    simp only [MapPc.begun, MapMessage.isStart, and_true]
    split_ifs <;> omega
  | listen hpc hall =>
    rw [hpc] at hsane
    refine .silent hsane (.inl (by rw [hpc]; exact ⟨rfl, rfl⟩)) fun a ha => ?_
    rw [hpc]
    simp only [MapPc.begun]
    rw [if_pos (ha.trans_le hall)]
  | @next phase hpc =>
    rw [hpc] at hsane
    have hturn : 1 ≤ s.turn := hsane
    refine .silent ?_ (.inr ?_) fun a ha => ?_
    · cases phase with
      | one => exact hsane
      | two => exact trivial
    · rw [hpc]
      cases phase with
      | one => exact ⟨rfl, rfl, rfl⟩
      | two =>
        refine ⟨?_, rfl, rfl⟩
        simp only [Phase.after, MapPc.phasesDone, Phase.before]
        omega
    · rw [hpc]
      cases phase with
      | one => exact le_rfl
      | two =>
        simp only [Phase.after, MapPc.begun, Phase.before]
        omega
  | receive hpc hinbox =>
    rw [hpc] at hsane
    exact .receives hsane hpc hinbox
  | reply hpc hA =>
    rw [hpc] at hsane
    refine .delivers hA hsane.1 (by rw [hpc]; rfl) (by rw [hpc]; rfl) fun a => ?_
    rw [hpc, hsane.2]
    simp [MapPc.begun]
  | @lost phase i airline msg hpc =>
    rw [hpc] at hsane
    refine ⟨trivial, rfl, ⟨[], rfl, rfl⟩, fun hcrash => absurd rfl hcrash, rfl,
      fun a A' hA' => ⟨A', [], hA', by simp, ?_⟩⟩
    have hturn := hsane.1
    rw [hpc]
    cases phase <;> simp only [MapPc.begun, Phase.before, List.countP_nil] <;> omega
  | finish hpc hA =>
    refine .delivers hA trivial (by rw [hpc]; rfl) (by rw [hpc]; rfl) fun a => ?_
    rw [hpc]
    simp [MapPc.begun, MapMessage.isStart]
  | halt hpc =>
    refine .silent trivial (.inl (by rw [hpc]; exact ⟨rfl, rfl⟩)) fun a ha => ?_
    rw [hpc]
    exact le_rfl

end Map

/-! ## Each message once -/

/-- The messages sent are those acted on and those in the inbox, in that order. -/
def Once (tr : List Event) (s : System) : Prop :=
  ∃ done, tr.filterMap Event.sentFrom = done ++ s.inbox ∧
    done.map Prod.snd = (tr.filterMap Event.actedOn).map Prod.snd

/-- The accounts of a run of `n` airlines. -/
structure Ledger (n : ℕ) (tr : List Event) (s : System) : Prop where
  sane : s.pc.Sane s.turn
  length : s.airlines.length = n
  known : ∀ x ∈ tr.filterMap Event.sentFrom, x.1 < n
  once : Once tr s
  /-- Reported or owed is less than started. -/
  paid : ∀ a A, s.airlines[a]? = some A → A.Locked ∧
    tr.countP (Event.reportedBy a) + A.owed ≤ tr.countP (Event.startedBy a)
  /-- Started or to be started is less than told. -/
  started : ∀ a A, s.airlines[a]? = some A →
    tr.countP (Event.startedBy a) + A.inbox.countP MapMessage.isStart ≤ s.pc.begun s.turn a
  counted : s.pc ≠ .crashed → (tr.filterMap Event.actedOn).countP counts =
    n * s.pc.phasesDone s.turn + s.pc.counted
  floor : s.pc ≠ .crashed → ∀ a < n, s.pc.phasesDone s.turn ≤ countedFrom a tr

section Served

variable {s s' : System} {tr es : List Event} {n a : ℕ}

/-- The pairs so far, and those that come with more events. -/
theorem Once.served_append (h : Once tr s) : ∃ done,
    tr.filterMap Event.sentFrom = done ++ s.inbox ∧
    done.map Prod.snd = (tr.filterMap Event.actedOn).map Prod.snd ∧
    done.length = (tr.filterMap Event.actedOn).length ∧
    served tr = done.zip (tr.filterMap Event.actedOn) ∧
    ∀ es, served (tr ++ es) = served tr ++
      (s.inbox ++ es.filterMap Event.sentFrom).zip (es.filterMap Event.actedOn) := by
  obtain ⟨done, hsent, hacted⟩ := h
  have hlength : done.length = (tr.filterMap Event.actedOn).length := by
    simpa using congrArg List.length hacted
  have happend : ∀ es, served (tr ++ es) = done.zip (tr.filterMap Event.actedOn) ++
      (s.inbox ++ es.filterMap Event.sentFrom).zip (es.filterMap Event.actedOn) := by
    intro es
    unfold served
    rw [List.filterMap_append, List.filterMap_append, hsent, List.append_assoc,
      List.zip_append hlength]
  have hserved : served tr = done.zip (tr.filterMap Event.actedOn) := by
    simpa using happend []
  exact ⟨done, hsent, hacted, hlength, hserved, fun es => hserved ▸ happend es⟩

/-- What is acted on was sent. -/
theorem Once.eq_of_mem (h : Once tr s) : ∀ x ∈ served tr, x.1.2 = x.2.2 := by
  obtain ⟨done, -, hacted, -, hserved, -⟩ := h.served_append
  have hall : List.Forall₂ (fun x y => x.2 = y.2) done (tr.filterMap Event.actedOn) := by
    rw [← List.forall₂_eq_eq_eq, List.forall₂_map_left_iff, List.forall₂_map_right_iff] at hacted
    exact hacted
  rintro ⟨x, y⟩ hx
  rw [hserved] at hx
  exact (List.forall₂_iff_zip.mp hall).2 hx

theorem countedFrom_mono (h : Once tr s) (es : List Event) :
    countedFrom a tr ≤ countedFrom a (tr ++ es) := by
  obtain ⟨-, -, -, -, -, happend⟩ := h.served_append
  unfold countedFrom
  rw [happend, List.countP_append]
  exact Nat.le_add_right _ _

/-- An airline that is counted has reported. -/
theorem Once.countedFrom_le (h : Once tr s) : countedFrom a tr ≤ tr.countP (Event.reportedBy a) := by
  have hsame := h.eq_of_mem
  obtain ⟨done, hsent, -, hlength, hserved, -⟩ := h.served_append
  have hreported : tr.countP (Event.reportedBy a) =
      (tr.filterMap Event.sentFrom).countP fun x => x.1 = a && x.2.reports.isSome := by
    rw [List.countP_filterMap]
    congr 1
    funext e
    cases e <;> rfl
  calc countedFrom a tr
      ≤ (served tr).countP fun x => x.1.1 = a && x.1.2.reports.isSome := by
        refine List.countP_mono_left fun x hx hcounts => ?_
        simp only [counts, Bool.and_eq_true, decide_eq_true_eq] at hcounts ⊢
        rw [hsame x hx, hcounts.2]
        exact ⟨hcounts.1, rfl⟩
    _ = done.countP fun x => x.1 = a && x.2.reports.isSome := by
        rw [hserved]
        conv_rhs => rw [← List.map_fst_zip (Nat.le_of_eq hlength)]
        rw [List.countP_map]
        rfl
    _ ≤ tr.countP (Event.reportedBy a) := by
        rw [hreported, hsent, List.countP_append]
        exact Nat.le_add_right _ _

theorem sum_countP_fiber {α : Type*} (f : α → ℕ) (q : α → Bool) {l : List α}
    (h : ∀ x ∈ l, f x < n) :
    ∑ a ∈ Finset.range n, l.countP (fun x => f x = a && q x) = l.countP q := by
  induction l with
  | nil => simp
  | cons x l ih =>
    have hx : ∑ a ∈ Finset.range n, (if (decide (f x = a) && q x) = true then 1 else 0) =
        if q x = true then 1 else 0 := by
      cases hq : q x with
      | false => simp
      | true => simp [Finset.sum_ite_eq, h x List.mem_cons_self]
    simp only [List.countP_cons]
    rw [Finset.sum_add_distrib, ih fun y hy => h y (List.mem_cons_of_mem _ hy), hx]

/-- Every airline that is counted is one of them. -/
theorem Ledger.sum_countedFrom (h : Ledger n tr s) :
    ∑ a ∈ Finset.range n, countedFrom a tr = (tr.filterMap Event.actedOn).countP counts := by
  obtain ⟨done, hsent, -, hlength, hserved, -⟩ := h.once.served_append
  have hacted : (tr.filterMap Event.actedOn).countP counts =
      (served tr).countP fun x => counts x.2 := by
    rw [hserved]
    conv_lhs => rw [← List.map_snd_zip (Nat.le_of_eq hlength.symm)]
    rw [List.countP_map]
    rfl
  rw [hacted]
  refine sum_countP_fiber (fun x : (ℕ × PlaneMessage) × (Phase × PlaneMessage) => x.1.1)
    (fun x => counts x.2) fun x hx => h.known x.1 (List.of_mem_zip (a := x.1) (b := x.2) hx).1

/-- No airline is told more than it takes for the current phase. -/
theorem MapPc.begun_le (pc : MapPc) (turn a : ℕ) : pc.begun turn a ≤ pc.phasesDone turn + 1 := by
  cases pc with
  | send phase i =>
    simp only [MapPc.begun, MapPc.phasesDone]
    split_ifs <;> omega
  | recv phase i | reply phase i airline msg => exact le_rfl
  | head | finish i | halted | crashed => exact Nat.le_succ _

theorem Ledger.countedFrom_le (h : Ledger n tr s) (ha : a < n) :
    countedFrom a tr ≤ s.pc.phasesDone s.turn + 1 := by
  have hA := List.getElem?_eq_getElem (l := s.airlines) (i := a) (by rw [h.length]; exact ha)
  obtain ⟨-, hpaid⟩ := h.paid a _ hA
  have hstarted := h.started a _ hA
  calc countedFrom a tr
      ≤ tr.countP (Event.reportedBy a) := h.once.countedFrom_le
    _ ≤ tr.countP (Event.startedBy a) := by omega
    _ ≤ s.pc.begun s.turn a := by omega
    _ ≤ s.pc.phasesDone s.turn + 1 := s.pc.begun_le s.turn a

/-- All airlines are counted when each of them is. -/
theorem Ledger.counted_eq_iff (h : Ledger n tr s) (hpc : s.pc ≠ .crashed) :
    s.pc.counted = n ↔ ∀ a < n, countedFrom a tr = s.pc.phasesDone s.turn + 1 := by
  have hsum := h.sum_countedFrom
  rw [h.counted hpc] at hsum
  have hfull : ∑ a ∈ Finset.range n, (s.pc.phasesDone s.turn + 1) =
      n * s.pc.phasesDone s.turn + n := by
    rw [Finset.sum_const_nat fun _ _ => rfl, Finset.card_range]
    ring
  have hiff := Finset.sum_eq_sum_iff_of_le (s := Finset.range n)
    (f := fun a => countedFrom a tr) (g := fun _ => s.pc.phasesDone s.turn + 1)
    fun a ha => h.countedFrom_le (Finset.mem_range.mp ha)
  rw [hsum, hfull] at hiff
  simp only [Finset.mem_range] at hiff
  rw [← hiff]
  omega

end Served

/-! ## Steps and runs -/

section Runs

variable {cfg : Config} {s s' : System} {tr es : List Event} {n : ℕ}

/-- The map takes no start messages and sends no reports. -/
theorem silent_mapStep (h : mapStep cfg s = some (es, s')) (a : ℕ) :
    es.countP (Event.startedBy a) = 0 ∧ es.countP (Event.reportedBy a) = 0 := by
  refine countP_eq_zero_of_quiet fun e he => ?_
  have hof := isOf_mapStep (a := a) h he
  cases e <;> simp_all [Event.isOf, Event.startedBy, Event.reportedBy]

/-- A step of the map. -/
theorem Ledger.map (h : Ledger n tr s) (hstep : mapStep cfg s = some (es, s')) :
    Ledger n (tr ++ es) s' := by
  have heffect := mapEffect h.sane hstep
  have hsilent := silent_mapStep hstep
  have hpc : s.pc ≠ .crashed := by
    intro hpc
    simp [mapStep, hpc] at hstep
  have hsent : (tr ++ es).filterMap Event.sentFrom = tr.filterMap Event.sentFrom := by
    rw [List.filterMap_append, heffect.unsent, List.append_nil]
  refine ⟨heffect.sane, heffect.length.trans h.length, by rw [hsent]; exact h.known, ?_,
    fun a A' hA' => ?_, fun a A' hA' => ?_, fun hcrash => ?_, fun hcrash a ha => ?_⟩
  · obtain ⟨done, hdone, hacted⟩ := h.once
    obtain ⟨taken, htaken, hnew⟩ := heffect.taken
    refine ⟨done ++ taken, ?_, ?_⟩
    · rw [hsent, hdone, htaken, List.append_assoc]
    · rw [List.map_append, hacted, hnew, List.filterMap_append, List.map_append]
  · obtain ⟨A, msgs, hA, rfl, -⟩ := heffect.told a A' hA'
    obtain ⟨hlocked, hpaid⟩ := h.paid a A hA
    refine ⟨hlocked, ?_⟩
    rw [List.countP_append, List.countP_append, (hsilent a).1, (hsilent a).2]
    exact hpaid
  · obtain ⟨A, msgs, hA, rfl, htold⟩ := heffect.told a A' hA'
    have hstarted := h.started a A hA
    dsimp only
    rw [List.countP_append, List.countP_append, (hsilent a).1]
    omega
  · rw [List.filterMap_append, List.countP_append, h.counted hpc]
    rcases heffect.phases hcrash with ⟨hdone, hcounted⟩ | ⟨hdone, hall, hzero, rfl⟩
    · rw [hdone, hcounted]
      omega
    · rw [hdone, hall, hzero, h.length, List.filterMap_nil, List.countP_nil]
      ring
  · refine le_trans ?_ (countedFrom_mono h.once es)
    rcases heffect.phases hcrash with ⟨hdone, -⟩ | ⟨hdone, hall, -, -⟩
    · rw [hdone]
      exact h.floor hpc a ha
    · rw [hdone, (h.counted_eq_iff hpc).mp (hall.trans h.length) a ha]

section Thread

variable {b : ℕ} {A A' : AirlineState} {sent : Option PlaneMessage}

/-- A thread sends what its step writes, and acts on nothing. -/
theorem Emission.messages (h : Emission b A (es, A', sent)) :
    es.filterMap Event.sentFrom = sent.toList.map (fun msg => (b, msg)) ∧
      es.filterMap Event.actedOn = [] := by
  cases h with
  | silent A' => exact ⟨rfl, rfl⟩
  | sent A' msg => exact ⟨rfl, rfl⟩
  | other A' e not_sent not_receive =>
    cases e with
    | sent c msg flags => exact absurd rfl (not_sent c msg flags)
    | receive ph got acted => exact absurd rfl (not_receive ph got acted)
    | applied _ _ _ _ | got _ _ _ | stored _ _ | ready _ _ _ | ended _ _ | error => exact ⟨rfl, rfl⟩

/-- Nothing changes for the other airlines. -/
theorem Repays.others (h : Repays b A A' es) {a : ℕ} (hab : a ≠ b) (tr : List Event) :
    (tr ++ es).countP (Event.startedBy a) = tr.countP (Event.startedBy a) ∧
      (tr ++ es).countP (Event.reportedBy a) = tr.countP (Event.reportedBy a) := by
  obtain ⟨hstarted, hreported⟩ := countP_eq_zero_of_quiet (h.own a hab)
  rw [List.countP_append, List.countP_append, hstarted, hreported]
  exact ⟨rfl, rfl⟩

/-- A step of a thread of airline `b`. -/
theorem Ledger.thread (h : Ledger n tr s) (hA : s.airlines[b]? = some A)
    (hemission : Emission b A (es, A', sent)) (hrepays : Repays b A A' es) :
    Ledger n (tr ++ es) (s.update b (es, A', sent)).2 := by
  obtain ⟨hsent, hacted⟩ := hemission.messages
  have hactedAll : (tr ++ es).filterMap Event.actedOn = tr.filterMap Event.actedOn := by
    rw [List.filterMap_append, hacted, List.append_nil]
  refine ⟨h.sane, List.length_set.trans h.length, fun x hx => ?_, ?_, forall_getElem?_set hA ?_ ?_,
    forall_getElem?_set hA ?_ ?_, fun hcrash => ?_, fun hcrash a ha =>
      (h.floor hcrash a ha).trans (countedFrom_mono h.once es)⟩
  · rw [List.filterMap_append, hsent] at hx
    rcases List.mem_append.mp hx with hx | hx
    · exact h.known x hx
    · obtain ⟨msg, -, rfl⟩ := List.mem_map.mp hx
      rw [← h.length]
      exact (List.getElem?_eq_some_iff.mp hA).1
  · obtain ⟨done, hdone, hdoneActed⟩ := h.once
    refine ⟨done, ?_, by rw [hactedAll, hdoneActed]⟩
    rw [List.filterMap_append, hdone, hsent, List.append_assoc]
    rfl
  · intro a X hab hX
    rw [(hrepays.others hab tr).1, (hrepays.others hab tr).2]
    exact h.paid a X hX
  · have hpaid := (h.paid b A hA).2
    have howed := hrepays.owed
    refine ⟨hrepays.locked, ?_⟩
    rw [List.countP_append, List.countP_append]
    omega
  · intro a X hab hX
    rw [(hrepays.others hab tr).1]
    exact h.started a X hX
  · have hstarted := h.started b A hA
    have hinbox := hrepays.inbox
    rw [List.countP_append]
    show _ ≤ s.pc.begun s.turn b
    omega
  · rw [hactedAll]
    exact h.counted hcrash

end Thread

/-- A failed receive that is ignored. -/
theorem Ledger.ignored (h : Ledger n tr s) (phase : Phase) :
    Ledger n (tr ++ [Event.receive phase none none, .error]) s := by
  have hstarted : ∀ a, (tr ++ [Event.receive phase none none, .error]).countP (Event.startedBy a) =
      tr.countP (Event.startedBy a) := fun a => List.countP_append
  have hreported : ∀ a, (tr ++ [Event.receive phase none none, .error]).countP (Event.reportedBy a) =
      tr.countP (Event.reportedBy a) := fun a => List.countP_append
  have hsent : (tr ++ [Event.receive phase none none, .error]).filterMap Event.sentFrom =
      tr.filterMap Event.sentFrom := by simp [Event.sentFrom]
  have hacted : (tr ++ [Event.receive phase none none, .error]).filterMap Event.actedOn =
      tr.filterMap Event.actedOn := by simp [Event.actedOn]
  refine ⟨h.sane, h.length, by rw [hsent]; exact h.known, ?_, fun a A hA => ?_, fun a A hA => ?_,
    by rw [hacted]; exact h.counted, fun hcrash a ha =>
      (h.floor hcrash a ha).trans (countedFrom_mono h.once _)⟩
  · obtain ⟨done, hdone, hdoneActed⟩ := h.once
    exact ⟨done, by rw [hsent, hdone], by rw [hacted, hdoneActed]⟩
  · rw [hstarted, hreported]
    exact h.paid a A hA
  · rw [hstarted]
    exact h.started a A hA

theorem ledger_step {action : Action} (h : Ledger n tr s)
    (hstep : ignoringStep cfg s action = some (es, s')) : Ledger n (tr ++ es) s' := by
  rcases ignoringStep_cases hstep with hmap | ⟨b, A, r, hA, hemission, hrepays, hnew⟩ |
    ⟨rfl, rfl⟩ | ⟨rfl, phase, rfl⟩
  · exact h.map hmap
  · obtain ⟨rfl, rfl⟩ := Prod.mk.inj hnew
    exact h.thread hA hemission (hrepays (h.paid b A hA).1)
  · rw [List.append_nil]
    exact ⟨h.sane, h.length, h.known, h.once, h.paid, h.started, h.counted, h.floor⟩
  · exact h.ignored phase

theorem ledger_init (map : Map) (airlines : List Airline) :
    Ledger airlines.length [] (System.init map airlines) where
  sane := trivial
  length := List.length_map _
  known x hx := by cases hx
  once := ⟨[], rfl, rfl⟩
  paid a A hA := by
    obtain ⟨airline, -, rfl⟩ := List.mem_map.mp (List.mem_of_getElem? hA)
    refine ⟨held_bootstrapPlanes rfl rfl, Nat.le_of_eq ?_⟩
    have hnone : (bootstrapPlanes airline).planes.countP (·.reporting) = 0 := by
      simp [bootstrapPlanes, PlaneThread.reporting, PlanePc.station]
    show 0 + ((bootstrapPlanes airline).planes.countP (·.reporting) + 0 + 0) = 0
    rw [hnone]
  started a A hA := by
    obtain ⟨airline, -, rfl⟩ := List.mem_map.mp (List.mem_of_getElem? hA)
    exact Nat.zero_le _
  counted _ := rfl
  floor _ _ _ := Nat.zero_le _

theorem ledger_run {map : Map} {airlines : List Airline}
    (hrun : Run (ignoringStep cfg) (System.init map airlines) tr s) :
    Ledger airlines.length tr s :=
  hrun.history (P := Ledger airlines.length) (ledger_init map airlines)
    fun _ _ _ _ _ h hstep => ledger_step h hstep

/-- **A failed receive is not a message** where the loop ignores what `msg` holds, and nowhere else:
a failed receive leaves the system as it was exactly there. Where all are such, what `runMap` acts on
is what was written to its inbox, each message once and in order; every airline has been counted once
in each phase that is over and once at the most in this one, and the phase is over exactly when all
have been counted in it. -/
theorem receives_once {map : Map} {airlines : List Airline}
    (hrun : Run (ignoringStep cfg) (System.init map airlines) tr s) :
    (∃ done, tr.filterMap Event.sentFrom = done ++ s.inbox ∧
      done.map Prod.snd = (tr.filterMap Event.actedOn).map Prod.snd) ∧
    (∀ es s', mapFailStep cfg s = some (es, s') → (s' = s ↔ s.ignores = true)) ∧
    ∀ phase i, s.pc = .recv phase i →
      (∀ a < airlines.length, countedFrom a tr = phase.before s.turn ∨
        countedFrom a tr = phase.before s.turn + 1) ∧
      (i = airlines.length ↔
        ∀ a < airlines.length, countedFrom a tr = phase.before s.turn + 1) := by
  have h := ledger_run hrun
  refine ⟨h.once, fun es s' => mapFailStep_eq_self_iff, fun phase i hpc => ?_⟩
  have hcrash : s.pc ≠ .crashed := by simp [hpc]
  have hiff := h.counted_eq_iff hcrash
  have hdone : s.pc.phasesDone s.turn = phase.before s.turn := by rw [hpc]; rfl
  rw [hdone, hpc] at hiff
  refine ⟨fun a ha => ?_, hiff⟩
  have hle := h.countedFrom_le ha
  have hge := h.floor hcrash a ha
  rw [hdone] at hle hge
  omega

end Runs

/-- A receive fails after `AirlineDone`, in the second phase. -/
theorem receives_once_trio :
    ∃ tr s, Run (ignoringStep someConfig) (System.init trioMap trioAirlines) tr s ∧
      .receive .two none none ∈ tr ∧ s.pc = .recv .two 0 ∧ countedFrom 0 tr = 1 := by
  obtain ⟨tr, s, hexec, hfail, hpc, hturn⟩ : ∃ tr s,
      exec (ignoringStep someConfig) (System.init trioMap trioAirlines) (toCheck ++ [.mapFail]) =
        some (tr, s) ∧ .receive .two none none ∈ tr ∧ s.pc = .recv .two 0 ∧ s.turn = 1 := by
    refine ⟨_, _, rfl, ?_, rfl, rfl⟩
    decide
  have hrun := run_of_exec hexec
  obtain ⟨-, -, hphase⟩ := receives_once hrun
  obtain ⟨hcounted, hiff⟩ := hphase .two 0 hpc
  refine ⟨tr, s, hrun, hfail, hpc, ?_⟩
  have hnot : countedFrom 0 tr ≠ Phase.two.before s.turn + 1 := by
    intro htwo
    have hall := hiff.mpr fun a ha => by
      obtain rfl : a = 0 := Nat.lt_one_iff.mp ha
      exact htwo
    cases hall
  rcases hcounted 0 (by decide) with hone | htwo
  · rw [hone, hturn]
    rfl
  · exact absurd htwo hnot

/-- After the first unload another receive fails, and the map serves the request again. -/
theorem acts_twice_trio :
    ∃ tr s msg first second, Run (step someConfig) (System.init trioMap trioAirlines) tr s ∧
      tr.filterMap Event.sentFrom = [(0, msg)] ∧
      tr.filterMap Event.actedOn = [(.one, msg), (.one, msg)] ∧
      s.airlines.map (·.inbox) = [[first]] ∧ s.pc = .reply .one 0 0 second ∧ ¬Once tr s := by
  obtain ⟨tr, s, msg, first, second, hexec, hsent, hacted, hfirst, hsecond⟩ :
      ∃ tr s msg first second, exec (step someConfig) (System.init trioMap trioAirlines)
        (toUnload ++ [.map, .map, .mapFail]) = some (tr, s) ∧
        tr.filterMap Event.sentFrom = [(0, msg)] ∧
        tr.filterMap Event.actedOn = [(.one, msg), (.one, msg)] ∧
        s.airlines.map (·.inbox) = [[first]] ∧ s.pc = .reply .one 0 0 second :=
    ⟨_, _, _, _, _, rfl, rfl, rfl, rfl, rfl⟩
  refine ⟨tr, s, msg, first, second, run_of_exec hexec, hsent, hacted, hfirst, hsecond, ?_⟩
  rintro ⟨done, hdone, hmsgs⟩
  have hlength := congrArg List.length hmsgs
  have hle := congrArg List.length hdone
  rw [hsent, List.length_append] at hle
  rw [hacted, List.length_map] at hlength
  simp only [List.length_cons, List.length_nil, List.map_cons, List.map_nil] at hle hlength
  omega

end PlaneSim
