import PlaneSim.MapSteps
import PlaneSim.Service

/-!
# The system simulates the turns

`Sim s T sts` ties a state of the system to a state of the abstract turn and to how far every
airline has come. Every step of the system is some steps of the abstract turn that lead to related
states (`Sim.step`), and what it means for each airline is `Follows`.
-/

namespace PlaneSim

open Lts Update Lock

/-! ## The relation -/

/-- The messages of airline `a` in the inbox of the map. -/
def System.out (s : System) (a : ℕ) : List PlaneMessage :=
  s.inbox.filterMap fun x => if x.1 = a then some x.2 else none

/-- The reply that the map is about to write to airline `a`. -/
def MapPc.pend (a : ℕ) : MapPc → List MapMessage
  | .reply _ _ airline msg => if airline = (a : Int) then [msg] else []
  | _ => []

/-- The map counts a turn when it begins, the abstract turn when it is over. -/
def MapPc.turns : MapPc → ℕ
  | .send _ _ => 1
  | .recv _ _ => 1
  | .reply _ _ _ _ => 1
  | _ => 0

/-- Has been told to start, and not been counted. -/
def Status.Underway (st : Status) : Prop := st = .told ∨ st = .busy ∨ st = .reported

def Status.Leaving (st : Status) : Prop := st = .toldEnd ∨ st = .ending

/-- How far the airlines have come, by what the map is doing. -/
def MapOk (ph : Phase) (sts : List Status) : MapPc → Prop
  | .head => ph = .one ∧ ∀ st ∈ sts, st = .waiting
  | .send w i => w = ph ∧ i ≤ sts.length ∧
      ∀ a st, sts[a]? = some st → if a < i then st.Underway else st = .waiting
  | .recv w i => w = ph ∧ (∀ st ∈ sts, st.Underway ∨ st = .counted) ∧ sts.count .counted = i
  | .reply w i airline _ => w = ph ∧ (∀ st ∈ sts, st.Underway ∨ st = .counted) ∧
      sts.count .counted = i ∧ ∃ a < sts.length, airline = (a : ℕ)
  | .finish i => ph = .one ∧ i ≤ sts.length ∧
      ∀ a st, sts[a]? = some st → if a < i then st.Leaving else st = .waiting
  | .halted => ph = .one ∧ ∀ st ∈ sts, st.Leaving
  | .crashed => False

/-- Airline `a` in the three states. -/
structure At (s : System) (T : Turn) (sts : List Status) (a : ℕ) (A : AirlineState)
    (ts : List TurnPlane) (st : Status) : Prop where
  system : s.airlines[a]? = some A
  turn : T.airlines[a]? = some ts
  status : sts[a]? = some st

structure Sim (s : System) (T : Turn) (sts : List Status) : Prop where
  map : s.map = T.map
  valid : Valid T
  turn : s.turn = T.turn + s.pc.turns
  length : T.airlines.length = s.airlines.length
  statuses : sts.length = s.airlines.length
  airline : ∀ a A ts st, At s T sts a A ts st → AirlineOk a T.phase st A ts (s.out a) (s.pc.pend a)
  inbox : ∀ x ∈ s.inbox, x.1 < s.airlines.length
  pc : MapOk T.phase sts s.pc

/-! ## What a step is -/

/-- All airlines go on in the phase, or all begin the next one. -/
inductive Steps (s : System) (T : Turn) (sts : List Status) (es : List Event) (s' : System)
    (T' : Turn) (sts' : List Status) : Prop where
  | within (phase : T'.phase = T.phase) (turn : T'.turn = T.turn)
      (follows : ∀ a A ts st A' ts' st', At s T sts a A ts st → At s' T' sts' a A' ts' st' →
        Follows a T.phase es st A ts st' A' ts')
  | next (events : es = []) (counted : ∀ st ∈ sts, st = .counted)
      (waiting : ∀ st ∈ sts', st = .waiting) (airlines : s'.airlines = s.airlines)
      (phase : T'.phase = T.phase.next)
      (turn : T'.turn = if T.phase = .two then T.turn + 1 else T.turn)

/-- The errors, and the messages that the map takes. -/
structure EventsOk (T : Turn) (es : List Event) : Prop where
  error : .error ∈ es → ∃ a p t, T.get a p = some t ∧ 10 < p
  receive : ∀ ph got acted, .receive ph got acted ∈ es →
    ∃ msg, got = some msg ∧ acted = some msg ∧ handled ph msg = true

/-- A step of the system is matched. -/
def Simulated (qsort : Qsort) (s : System) (T : Turn) (sts : List Status) (es : List Event)
    (s' : System) : Prop :=
  ∃ T' sts', Run (turnStep qsort) T (es.filterMap Event.unload) T' ∧ Sim s' T' sts' ∧
    Steps s T sts es s' T' sts' ∧ EventsOk T es

section Simulation

variable {cfg : Config} {qsort : Qsort} {s s' : System} {T T' : Turn} {sts sts' : List Status}
  {a : ℕ} {A A' : AirlineState} {ts ts' : List TurnPlane} {st st' : Status} {es : List Event}

theorem Sim.exists_at (h : Sim s T sts) (ha : a < s.airlines.length) :
    ∃ A ts st, At s T sts a A ts st :=
  ⟨_, _, _, List.getElem?_eq_getElem ha, List.getElem?_eq_getElem (by rw [h.length]; exact ha),
    List.getElem?_eq_getElem (by rw [h.statuses]; exact ha)⟩

theorem Sim.exists_at_of_system (h : Sim s T sts) (hA : s.airlines[a]? = some A) :
    ∃ ts st, At s T sts a A ts st := by
  obtain ⟨A', ts, st, hat⟩ := h.exists_at (List.getElem?_eq_some_iff.mp hA).1
  cases hA.symm.trans hat.system
  exact ⟨ts, st, hat⟩

/-- Airline `a` changes; every other one is what it was. -/
theorem At.set_cases (hat : At s T sts a A ts st) (hs : s'.airlines = s.airlines.set a A')
    (hT : T'.airlines = T.airlines.set a ts') {b : ℕ} {B : AirlineState} {bs : List TurnPlane}
    {sb : Status} (h : At s' T' (sts.set a st') b B bs sb) :
    (b = a ∧ B = A' ∧ bs = ts' ∧ sb = st') ∨ (b ≠ a ∧ At s T sts b B bs sb) := by
  obtain ⟨hB, hbs, hsb⟩ := h
  rw [hs] at hB
  rw [hT] at hbs
  by_cases hb : a = b
  · subst hb
    rw [List.getElem?_set_self (List.getElem?_eq_some_iff.mp hat.system).1] at hB
    rw [List.getElem?_set_self (List.getElem?_eq_some_iff.mp hat.turn).1] at hbs
    rw [List.getElem?_set_self (List.getElem?_eq_some_iff.mp hat.status).1] at hsb
    cases hB
    cases hbs
    cases hsb
    exact .inl ⟨rfl, rfl, rfl, rfl⟩
  · rw [List.getElem?_set_ne hb] at hB hbs hsb
    exact .inr ⟨Ne.symm hb, hB, hbs, hsb⟩

theorem valid_run {qsort : Qsort} {tr : List (List Stock × List Stock)} (h : Valid T)
    (hrun : Run (turnStep qsort) T tr T') : Valid T' :=
  hrun.invariant h fun _ _ _ _ => valid_step

/-- A step that changes airline `a` only. -/
theorem Sim.set (h : Sim s T sts) (hat : At s T sts a A ts st) (map : Map) (ts' : List TurnPlane)
    (st' : Status)
    (hrun : Run (turnStep qsort) T (es.filterMap Event.unload)
      { T with map := map, airlines := T.airlines.set a ts' })
    (hmap : s'.map = map) (hturn : s'.turn = T.turn + s'.pc.turns)
    (hairlines : s'.airlines = s.airlines.set a A')
    (hok : AirlineOk a T.phase st' A' ts' (s'.out a) (s'.pc.pend a))
    (hothers : ∀ b ≠ a, s'.out b = s.out b ∧ s'.pc.pend b = s.pc.pend b)
    (hinbox : ∀ x ∈ s'.inbox, x.1 < s.airlines.length)
    (hpc : MapOk T.phase (sts.set a st') s'.pc)
    (hfollows : Follows a T.phase es st A ts st' A' ts')
    (hes : ∀ e ∈ es, ∀ b ≠ a, e.isOf b = false) (hevents : EventsOk T es) :
    Simulated qsort s T sts es s' := by
  refine ⟨_, sts.set a st', hrun, ⟨hmap, valid_run h.valid hrun, hturn, ?_, ?_, ?_, ?_, hpc⟩,
    .within rfl rfl ?_, hevents⟩
  · rw [hairlines, List.length_set, List.length_set, h.length]
  · rw [hairlines, List.length_set, List.length_set, h.statuses]
  · intro b B bs sb hb
    rcases hat.set_cases hairlines rfl hb with ⟨rfl, rfl, rfl, rfl⟩ | ⟨hne, hb⟩
    · exact hok
    · obtain ⟨hout, hpend⟩ := hothers b hne
      rw [hout, hpend]
      exact h.airline b B bs sb hb
  · rw [hairlines, List.length_set]
    exact hinbox
  · intro b B bs sb B' bs' sb' hb hb'
    rcases hat.set_cases hairlines rfl hb' with ⟨rfl, rfl, rfl, rfl⟩ | ⟨hne, hb'⟩
    · cases hat.system.symm.trans hb.system
      cases hat.turn.symm.trans hb.turn
      cases hat.status.symm.trans hb.status
      exact hfollows
    · cases hb'.system.symm.trans hb.system
      cases hb'.turn.symm.trans hb.turn
      cases hb'.status.symm.trans hb.status
      exact Follows.of_silent (fun e he => hes e he b hne) rfl rfl

theorem EventsOk.nil : EventsOk T [] := ⟨by simp, by simp⟩

/-- A step of the map that changes no airline. -/
theorem Sim.stay (h : Sim s T sts) (hmap : s'.map = s.map) (hturn : s'.turn = T.turn + s'.pc.turns)
    (hairlines : s'.airlines = s.airlines) (hinbox : s'.inbox = s.inbox)
    (hpend : ∀ b, s'.pc.pend b = s.pc.pend b) (hpc : MapOk T.phase sts s'.pc) :
    Simulated qsort s T sts [] s' := by
  have hout : ∀ b, s'.out b = s.out b := fun b => by rw [System.out, System.out, hinbox]
  have hat : ∀ {a A ts st}, At s' T sts a A ts st → At s T sts a A ts st :=
    fun hat => ⟨hairlines ▸ hat.system, hat.turn, hat.status⟩
  refine ⟨T, sts, .refl, ⟨hmap.trans h.map, h.valid, hturn, by rw [hairlines]; exact h.length,
    by rw [hairlines]; exact h.statuses, fun b B bs sb hb => ?_, ?_, hpc⟩,
    .within rfl rfl fun b B bs sb B' bs' sb' hb hb' => ?_, .nil⟩
  · rw [hout, hpend]
    exact h.airline b B bs sb (hat hb)
  · rw [hairlines, hinbox]
    exact h.inbox
  · cases (hat hb').system.symm.trans hb.system
    cases hb'.turn.symm.trans hb.turn
    cases hb'.status.symm.trans hb.status
    exact Follows.of_silent (by simp) rfl rfl

/-! ## Steps of the airlines -/

/-- What a thread does to its airline's planes is a step of the abstract turn. -/
theorem TurnStep.run (h : TurnStep T.phase ts ts') (hts : T.airlines[a]? = some ts) :
    Run (turnStep qsort) T [] { T with airlines := T.airlines.set a ts' } := by
  have hset : ∀ {p : ℕ} {t : TurnPlane} (t' : TurnPlane), ts[p]? = some t →
      T.get a p = some t ∧ T.set a p t' = { T with airlines := T.airlines.set a (ts.set p t') } := by
    intro p t t' ht
    refine ⟨get2_eq_some.mpr ⟨ts, hts, ht⟩, ?_⟩
    unfold Turn.set
    rw [set2_eq_set hts]
  cases h with
  | stay same =>
    rw [same, set_self hts]
    exact .refl
  | skip p t at_p todo air phase new =>
    obtain ⟨hget, hnew⟩ := hset { t with todo := false } at_p
    rw [new, ← hnew]
    refine Run.single (a := .skip a p) ?_
    simp [turnStep, hget, Turn.may, phase, todo, air, guard]
  | fly p t at_p todo air phase new =>
    obtain ⟨hget, hnew⟩ := hset
      { t with plane := { t.plane with distance := t.plane.distance - 1 }, todo := false } at_p
    rw [new, ← hnew]
    refine Run.single (a := .fly a p) ?_
    simp [turnStep, hget, Turn.may, phase, todo, air, guard]

theorem Status.Goes.underway (h : st.Goes st') (hst : st.Underway) : st'.Underway := by
  cases h with
  | stay => exact hst
  | start => exact .inr (.inl rfl)
  | report => exact .inr (.inr rfl)
  | finish => simp [Status.Underway] at hst

theorem Status.Goes.leaving (h : st.Goes st') (hst : st.Leaving) : st'.Leaving := by
  cases h with
  | stay => exact hst
  | start | report => simp [Status.Leaving] at hst
  | finish => exact .inr rfl

theorem Status.Goes.waiting (h : st.Goes st') (hst : st = .waiting) : st' = .waiting := by
  cases h with
  | stay => exact hst
  | start | report | finish => cases hst

theorem Status.Goes.inPhase (h : st.Goes st') (hst : st.Underway ∨ st = .counted) :
    st'.Underway ∨ st' = .counted := by
  rcases hst with hst | rfl
  · exact .inl (h.underway hst)
  · cases h
    exact .inr rfl

theorem Status.Goes.counted (h : st.Goes st') : st' = .counted ↔ st = .counted := by
  cases h <;> simp

theorem count_set_of_iff {α : Type*} [DecidableEq α] {l : List α} {i : ℕ} {x y z : α}
    (h : l[i]? = some x) (hz : y = z ↔ x = z) : (l.set i y).count z = l.count z := by
  refine countP_set_of_eq (· == z) h ?_
  by_cases hx : x = z
  · simp [hx, hz.mpr hx]
  · have hy : y ≠ z := fun hy => hx (hz.mp hy)
    simp [hx, hy]

/-- A step of an airline does not disturb the map. -/
theorem MapOk.goes {ph : Phase} {pc : MapPc} (h : MapOk ph sts pc) (hst : sts[a]? = some st)
    (hgoes : st.Goes st') : MapOk ph (sts.set a st') pc := by
  have hall : ∀ {Q : Status → Prop}, (∀ x ∈ sts, Q x) → (Q st → Q st') →
      ∀ x ∈ sts.set a st', Q x :=
    fun h hq => forall_mem_set h (hq (h st (List.mem_of_getElem? hst)))
  have hpart : ∀ {i : ℕ} {Q Q' : Status → Prop}, (Q st → Q st') → (Q' st → Q' st') →
      (∀ b x, sts[b]? = some x → if b < i then Q x else Q' x) →
        ∀ b x, (sts.set a st')[b]? = some x → if b < i then Q x else Q' x := by
    intro i Q Q' hq hq' h b x hx
    by_cases hb : a = b
    · subst hb
      rw [List.getElem?_set_self (List.getElem?_eq_some_iff.mp hst).1] at hx
      cases hx
      have := h a st hst
      split at this
      · rename_i hlt
        rw [if_pos hlt]
        exact hq this
      · rename_i hlt
        rw [if_neg hlt]
        exact hq' this
    · rw [List.getElem?_set_ne hb] at hx
      exact h b x hx
  cases pc with
  | head => exact ⟨h.1, hall h.2 hgoes.waiting⟩
  | send w i =>
    exact ⟨h.1, by rw [List.length_set]; exact h.2.1, hpart hgoes.underway hgoes.waiting h.2.2⟩
  | recv w i =>
    exact ⟨h.1, hall h.2.1 hgoes.inPhase, by rw [count_set_of_iff hst hgoes.counted]; exact h.2.2⟩
  | reply w i airline msg =>
    exact ⟨h.1, hall h.2.1 hgoes.inPhase,
      by rw [count_set_of_iff hst hgoes.counted]; exact h.2.2.1,
      by rw [List.length_set]; exact h.2.2.2⟩
  | finish i =>
    exact ⟨h.1, by rw [List.length_set]; exact h.2.1, hpart hgoes.leaving hgoes.waiting h.2.2⟩
  | halted => exact ⟨h.1, hall h.2 hgoes.leaving⟩
  | crashed => exact h

theorem Event.unload_of_isOf {e : Event} (h : e.isOf a = true) : e.unload = none := by
  cases e with
  | applied _ _ _ _ => cases h
  | sent _ _ _ | receive _ _ _ | got _ _ _ | stored _ _ | ready _ _ _ | ended _ _ | error => rfl

/-- A step of a thread of airline `a`. -/
theorem Sim.thread (h : Sim s T sts) (hat : At s T sts a A ts st) {sent : Option PlaneMessage}
    (hstep : Stepped a T.phase st A ts (s.out a) (s.pc.pend a) es A' sent) :
    Simulated qsort s T sts es (s.update a (es, A', sent)).2 := by
  obtain ⟨st', ts', hok, hturn, hemits⟩ := hstep
  have hout : ∀ b, (s.update a (es, A', sent)).2.out b =
      s.out b ++ if b = a then sent.toList else [] := by
    intro b
    show (s.inbox ++ sent.toList.map fun msg => (a, msg)).filterMap _ = _
    rw [List.filterMap_append]
    congr 1
    cases sent with
    | none => simp
    | some msg =>
      by_cases hb : b = a
      · simp [hb]
      · simp [hb, Ne.symm hb]
  refine h.set hat T.map ts' st' ?_ h.map h.turn rfl ?_ (fun b hb => ⟨?_, rfl⟩) (fun x hx => ?_)
    (h.pc.goes hat.status hemits.goes) hemits.toFollows
    (fun e he b hb => isOf_of_ne (hemits.own e he) hb) ⟨fun he => ?_, fun ph got acted he => ?_⟩
  · rw [List.filterMap_eq_nil_iff.mpr fun e he => Event.unload_of_isOf (hemits.own e he)]
    exact hturn.run hat.turn
  · rw [hout, if_pos rfl]
    exact hok
  · rw [hout, if_neg hb, List.append_nil]
  · rcases List.mem_append.mp hx with hx | hx
    · exact h.inbox x hx
    · obtain ⟨msg, -, rfl⟩ := List.mem_map.mp hx
      exact (List.getElem?_eq_some_iff.mp hat.system).1
  · cases hemits.own _ he
  · cases hemits.own _ he

/-- The planes can ask. -/
theorem Valid.carries (h : Valid T) (hts : T.airlines[a]? = some ts) : Carries ts := by
  intro p t ht
  obtain ⟨hid, hpack, -⟩ := h.plane a p t (get2_eq_some.mpr ⟨ts, hts, ht⟩)
  exact ⟨hid, hpack.length_le⟩

/-! ## Steps of the map -/

/-- The map does what it does in a city that lists nothing. -/
def Unset (s s' : System) : Prop := s'.pc = .crashed ∧ ¬Listing s.map

theorem deliver_eq_some {msg : MapMessage} (h : s.deliver cfg a msg = some s') :
    ∃ A, s.airlines[a]? = some A ∧
      s' = { s with airlines := s.airlines.set a { A with inbox := A.inbox ++ [msg] } } := by
  unfold System.deliver at h
  obtain ⟨A, hA, h⟩ := Option.bind_eq_some_iff.mp h
  split at h
  · cases h
    exact ⟨A, hA, rfl⟩
  · cases h

/-- One more airline is told. -/
theorem forall_lt_succ_set {Q Q' : Status → Prop} {i : ℕ}
    (h : ∀ b x, sts[b]? = some x → if b < i then Q x else Q' x) (hst : Q st') :
    ∀ b x, (sts.set i st')[b]? = some x → if b < i + 1 then Q x else Q' x := by
  intro b x hx
  by_cases hb : i = b
  · subst hb
    have hlt : i < sts.length := by simpa using (List.getElem?_eq_some_iff.mp hx).1
    rw [List.getElem?_set_self hlt] at hx
    cases hx
    rw [if_pos (Nat.lt_succ_self i)]
    exact hst
  · rw [List.getElem?_set_ne hb] at hx
    have := h b x hx
    split at this
    · rw [if_pos (by omega)]
      exact this
    · rw [if_neg (by omega)]
      exact this

/-- The map tells airline `a` to start, or to end. -/
theorem Sim.tell (h : Sim s T sts) (hat : At s T sts a A ts .waiting) (st' : Status)
    (hst : st' = .told ∨ st' = .toldEnd ∧ T.phase = .one) {pc : MapPc}
    (hpend : ∀ b, pc.pend b = s.pc.pend b) (hturns : pc.turns = s.pc.turns)
    (hpc : MapOk T.phase (sts.set a st') pc) :
    Simulated qsort s T sts []
      { s with
        airlines := s.airlines.set a { A with inbox := A.inbox ++ st'.inbox T.phase }
        pc := pc } := by
  obtain ⟨-, hok, hfollows⟩ := (h.airline a A ts _ hat).tell hst
  refine h.set hat T.map ts st' ?_ h.map ?_ rfl ?_ (fun b _ => ⟨rfl, hpend b⟩) h.inbox hpc hfollows
    (by simp) .nil
  · rw [set_self hat.turn]
    exact .refl
  · show s.turn = T.turn + pc.turns
    rw [hturns]
    exact h.turn
  · show AirlineOk _ _ _ _ _ _ (pc.pend a)
    rw [hpend]
    exact hok

theorem Sim.send (h : Sim s T sts) {w : Phase} {i : ℕ} (hpc : s.pc = .send w i)
    (hi : i < s.airlines.length) (hstep : s.deliver cfg i (.start w) = some s') :
    Simulated qsort s T sts [] { s' with pc := .send w (i + 1) } := by
  have hmap := h.pc
  rw [hpc] at hmap
  obtain ⟨rfl, -, hpart⟩ := hmap
  obtain ⟨A, ts, st, hat⟩ := h.exists_at hi
  obtain ⟨A', hA', rfl⟩ := deliver_eq_some hstep
  cases hA'.symm.trans hat.system
  have hst := hpart i st hat.status
  rw [if_neg (lt_irrefl i)] at hst
  subst hst
  refine h.tell hat .told (.inl rfl) (fun b => by rw [hpc]; rfl) (by rw [hpc]; rfl)
    ⟨rfl, by rw [List.length_set, h.statuses]; omega, forall_lt_succ_set hpart (.inl rfl)⟩

theorem Sim.finish (h : Sim s T sts) {i : ℕ} (hpc : s.pc = .finish i)
    (hi : i < s.airlines.length) (hstep : s.deliver cfg i .finish = some s') :
    Simulated qsort s T sts [] { s' with pc := .finish (i + 1) } := by
  have hmap := h.pc
  rw [hpc] at hmap
  obtain ⟨hphase, -, hpart⟩ := hmap
  obtain ⟨A, ts, st, hat⟩ := h.exists_at hi
  obtain ⟨A', hA', rfl⟩ := deliver_eq_some hstep
  cases hA'.symm.trans hat.system
  have hst := hpart i st hat.status
  rw [if_neg (lt_irrefl i)] at hst
  subst hst
  refine h.tell hat .toldEnd (.inr ⟨rfl, hphase⟩) (fun b => by rw [hpc]; rfl)
    (by rw [hpc]; rfl)
    ⟨hphase, by rw [List.length_set, h.statuses]; omega, forall_lt_succ_set hpart (.inl rfl)⟩

/-- With every airline told, none has been counted. -/
theorem count_of_underway {i : ℕ} (hi : sts.length ≤ i)
    (h : ∀ a st, sts[a]? = some st → if a < i then st.Underway else st = .waiting) :
    (∀ st ∈ sts, st.Underway ∨ st = .counted) ∧ sts.count .counted = 0 := by
  have hall : ∀ st ∈ sts, st.Underway := by
    intro st hst
    obtain ⟨a, ha⟩ := List.mem_iff_getElem?.mp hst
    have hlt := (List.getElem?_eq_some_iff.mp ha).1
    have := h a st ha
    rwa [if_pos (by omega)] at this
  refine ⟨fun st hst => .inl (hall st hst), List.count_eq_zero.mpr fun hmem => ?_⟩
  have := hall _ hmem
  simp [Status.Underway] at this

/-- Every airline has been counted: the next phase begins. -/
theorem Sim.nextPhase (h : Sim s T sts) {w : Phase} {i : ℕ} (hpc : s.pc = .recv w i)
    (hi : i = s.airlines.length) : Simulated qsort s T sts [] { s with pc := w.after } := by
  have hmap := h.pc
  rw [hpc] at hmap
  obtain ⟨rfl, -, hcount⟩ := hmap
  have hcounted : ∀ st ∈ sts, st = .counted := by
    have := List.count_eq_length.mp (hcount.trans (hi.trans h.statuses.symm))
    exact fun st hst => (this st hst).symm
  have hok : ∀ a A ts st, At s T sts a A ts st →
      AirlineOk a T.phase .counted A ts (s.out a) [] := by
    intro a A ts st hat
    have := h.airline a A ts st hat
    rw [hcounted st (List.mem_of_getElem? hat.status), hpc] at this
    exact this
  have htodo : (T.airlines.all fun planes => planes.all fun t => !t.todo) = true := by
    rw [List.all_eq_true]
    intro ts hts
    obtain ⟨a, ha⟩ := List.mem_iff_getElem?.mp hts
    obtain ⟨A, ts', st, hat⟩ := h.exists_at (a := a)
      (by rw [← h.length]; exact (List.getElem?_eq_some_iff.mp ha).1)
    cases ha.symm.trans hat.turn
    rw [List.all_eq_true]
    intro t ht
    obtain ⟨p, hp⟩ := List.mem_iff_getElem?.mp ht
    have hairline := hok a A ts st hat
    have hP := List.getElem?_eq_getElem (l := A.planes) (i := p)
      (by rw [← hairline.length]; exact (List.getElem?_eq_some_iff.mp hp).1)
    have hquiet : Quiet T.phase .counted A ts (s.out a) [] := hairline.status
    rw [(hquiet.calm p _ t hP hp).todo]
    rfl
  have hrun : Run (turnStep qsort) T [] { T with
      phase := T.phase.next
      turn := if T.phase = .two then T.turn + 1 else T.turn
      airlines := T.airlines.map renew } := by
    refine Run.single (a := .next) ?_
    rw [turnStep, if_pos htodo]
    rfl
  refine ⟨_, sts.map fun _ => .waiting, hrun, ⟨h.map, valid_run h.valid hrun, ?_, ?_, ?_, ?_,
    h.inbox, ?_⟩, .next rfl hcounted (by simp) rfl rfl rfl, .nil⟩
  · have hturn := h.turn
    rw [hpc] at hturn
    show s.turn = (if T.phase = .two then T.turn + 1 else T.turn) + T.phase.after.turns
    cases hphase : T.phase <;> simpa [MapPc.turns, Phase.after, hphase] using hturn
  · show (T.airlines.map renew).length = s.airlines.length
    rw [List.length_map, h.length]
  · rw [List.length_map, h.statuses]
  · rintro a A ts st ⟨hA, hts, hst⟩
    rw [List.getElem?_map] at hts hst
    obtain ⟨old, hold, rfl⟩ := Option.map_eq_some_iff.mp hts
    obtain ⟨st', hst', rfl⟩ := Option.map_eq_some_iff.mp hst
    have hpend : (T.phase.after).pend a = [] := by cases T.phase <;> rfl
    show AirlineOk a T.phase.next .waiting A (renew old) (s.out a) (T.phase.after.pend a)
    rw [hpend]
    exact (hok a A old st' ⟨hA, hold, hst'⟩).next
  · show MapOk T.phase.next (sts.map fun _ => .waiting) T.phase.after
    cases T.phase with
    | one =>
      refine ⟨rfl, Nat.zero_le _, fun a st hst => ?_⟩
      rw [List.getElem?_map] at hst
      obtain ⟨-, -, rfl⟩ := Option.map_eq_some_iff.mp hst
      rfl
    | two => exact ⟨rfl, by simp⟩

/-- The first message in the inbox of the map. -/
theorem out_cons {b : ℕ} {msg : PlaneMessage} {inbox : List (ℕ × PlaneMessage)}
    (hinbox : s.inbox = (b, msg) :: inbox) (s' : System) (hs' : s'.inbox = inbox) (a : ℕ) :
    s.out a = if a = b then msg :: s'.out a else s'.out a := by
  unfold System.out
  rw [hinbox, hs', List.filterMap_cons]
  by_cases ha : b = a
  · simp [ha]
  · simp [ha, Ne.symm ha]

theorem handled_of_reports {msg : PlaneMessage} {ph : Phase} (h : msg.reports = some ph) :
    handled ph msg = true := by
  cases msg with
  | airlineDone | airlineStatus _ =>
    cases h
    rfl
  | unloadStock _ | checkDestinations _ => cases h

/-- A report has come in. -/
theorem Sim.report (h : Sim s T sts) {w : Phase} {i b : ℕ} (hpc : s.pc = .recv w i)
    {msg : PlaneMessage} {inbox : List (ℕ × PlaneMessage)} (hinbox : s.inbox = (b, msg) :: inbox)
    {w' : Phase} (hmsg : msg.reports = some w') :
    w' = w ∧ Simulated qsort s T sts [.receive w (some msg) (some msg)]
      { s with inbox := inbox, msg := some msg, pc := .recv w (i + 1) } := by
  have hmap := h.pc
  rw [hpc] at hmap
  obtain ⟨rfl, hall, hcount⟩ := hmap
  let s' : System := { s with inbox := inbox, msg := some msg, pc := .recv T.phase (i + 1) }
  have hout := out_cons hinbox s' rfl
  have hb : b < s.airlines.length := h.inbox (b, msg) (by simp [hinbox])
  obtain ⟨A, ts, st, hat⟩ := h.exists_at hb
  have hok := h.airline b A ts st hat
  rw [hout, if_pos rfl, hpc] at hok
  obtain ⟨rfl, rfl, hnil, hok⟩ := hok.count_report hmsg
  refine ⟨rfl, h.set hat T.map ts .counted ?_ h.map ?_ (set_self hat.system).symm ?_
    (fun a ha => ?_)
    (fun x hx => h.inbox x (by simp [hinbox, show x ∈ inbox from hx])) ?_
    (Follows.of_silent (by simp [Event.isOf]) rfl rfl) (by simp [Event.isOf]) ⟨by simp, ?_⟩⟩
  · rw [set_self hat.turn]
    exact .refl
  · have := h.turn
    rwa [hpc] at this
  · rw [hnil]
    exact hok
  · refine ⟨?_, by rw [hpc]; rfl⟩
    rw [hout, if_neg ha]
  · refine ⟨rfl, forall_mem_set hall (.inr rfl), ?_⟩
    have := countP_set (· == Status.counted) hat.status .counted
    rw [← hcount]
    simpa [List.count] using this
  · intro ph got acted he
    cases List.mem_singleton.mp he
    refine ⟨msg, rfl, rfl, ?_⟩
    exact handled_of_reports hmsg

theorem Event.isOf_of_isService {e : Event} {p b : ℕ} (h : e.isService a p) : e.isOf b = false := by
  cases e with
  | error | applied _ _ _ _ => rfl
  | sent _ _ _ | receive _ _ _ | got _ _ _ | stored _ _ | ready _ _ _ | ended _ _ => exact h.elim

theorem request_phase {plane : Plane} {ph : Phase} {msg : PlaneMessage}
    (h : request a plane ph = some msg) : handled ph msg = true := by
  cases ph with
  | one =>
    obtain ⟨m, -, rfl⟩ := Option.map_eq_some_iff.mp h
    rfl
  | two =>
    obtain ⟨m, -, rfl⟩ := Option.map_eq_some_iff.mp h
    rfl

/-- A request has come in. -/
theorem Sim.request (h : Sim s T sts) {w : Phase} {i b : ℕ} (hpc : s.pc = .recv w i)
    {msg : PlaneMessage} {inbox : List (ℕ × PlaneMessage)} (hinbox : s.inbox = (b, msg) :: inbox)
    {id : Int} (hmsg : msg.owner = some id)
    (hact : act cfg { s with inbox := inbox, msg := some msg } w i msg = (es, s')) :
    Simulated cfg.qsort s T sts (.receive w (some msg) (some msg) :: es) s' ∨ Unset s s' := by
  have hmap := h.pc
  rw [hpc] at hmap
  obtain ⟨rfl, hall, hcount⟩ := hmap
  let s1 : System := { s with inbox := inbox, msg := some msg }
  have hout := out_cons hinbox s1 rfl
  have hb : b < s.airlines.length := h.inbox (b, msg) (by simp [hinbox])
  obtain ⟨A, ts, st, hat⟩ := h.exists_at hb
  have hok := h.airline b A ts st hat
  rw [hout, if_pos rfl, hpc] at hok
  obtain ⟨p, t, rfl, ht, -, hground, htodo, hdone, hreq, rfl, hserve⟩ := hok.serve hmsg
  have hget : T.get b p = some t := get2_eq_some.mpr ⟨ts, hat.turn, ht⟩
  by_cases hsearch : T.phase = .one → Searchable T.map t.plane
  swap
  · -- the unload has no need to work on
    right
    push Not at hsearch
    obtain ⟨hphase, hsearch⟩ := hsearch
    rw [hphase] at hreq hact
    have hcrash := act_unset cfg (s := s1) h.valid h.map hget hsearch hreq i
    rw [hact] at hcrash
    refine ⟨hcrash, fun hlist => hsearch ?_⟩
    rw [← h.map]
    exact hlist.searchable t.plane
  left
  obtain ⟨map, t', reply, m, es', hrun, htodo', hredirect, htake, hact', hservice, happlied⟩ :=
    act_request cfg (s := s1) h.valid h.map hget hground htodo hdone hsearch hreq i
  rw [hact'] at hact
  cases hact
  obtain ⟨hok', hfollows⟩ := hserve t' reply m htodo' hredirect htake
  have hes : ∀ e ∈ Event.receive T.phase (some msg) (some msg) :: es, ∀ c, e.isOf c = false := by
    intro e he c
    rcases List.mem_cons.mp he with rfl | he
    · rfl
    · exact Event.isOf_of_isService (hservice e he)
  refine h.set hat map (ts.set p t') .busy ?_ rfl ?_ (set_self hat.system).symm ?_ (fun c hc => ?_)
    (fun x hx => h.inbox x (by simp [hinbox, show x ∈ inbox from hx])) ?_
    (hfollows _ (fun e he => hes e he b) fun hphase => ?_) (fun e he c _ => hes e he c)
    ⟨fun he => ?_, fun ph got acted he => ?_⟩
  · have hset : ({ T with map := map } : Turn).set b p t' =
        { T with map := map, airlines := T.airlines.set b (ts.set p t') } := by
      unfold Turn.set
      rw [set2_eq_set hat.turn]
    rw [← hset]
    exact hrun
  · have := h.turn
    rwa [hpc] at this
  · have hpend : (MapPc.reply T.phase i b reply).pend b = [reply] := by simp [MapPc.pend]
    show AirlineOk _ _ _ _ _ (s1.out b) ((MapPc.reply T.phase i b reply).pend b)
    rw [hpend]
    exact hok'
  · refine ⟨?_, ?_⟩
    · rw [hout, if_neg hc]
      rfl
    · rw [hpc]
      simp [MapPc.pend, Ne.symm hc]
  · rw [set_self hat.status]
    exact ⟨rfl, hall, hcount, b, (List.getElem?_eq_some_iff.mp hat.status).1, rfl⟩
  · obtain ⟨city, stocks, hmem⟩ := happlied hphase
    exact ⟨city, stocks, List.mem_cons_of_mem _ hmem⟩
  · rcases List.mem_cons.mp he with he | he
    · cases he
    · exact ⟨b, p, t, hget, hservice _ he⟩
  · rcases List.mem_cons.mp he with he | he
    · cases he
      exact ⟨msg, rfl, rfl, request_phase hreq⟩
    · exact (hservice _ he).elim

/-- A reply goes out. -/
theorem Sim.reply (h : Sim s T sts) {w : Phase} {i : ℕ} {airline : Int} {msg : MapMessage}
    (hpc : s.pc = .reply w i airline msg) (hstep : s.deliver cfg airline.toNat msg = some s') :
    Simulated qsort s T sts [] { s' with pc := .recv w i } := by
  have hmap := h.pc
  rw [hpc] at hmap
  obtain ⟨rfl, hall, hcount, b, hb, rfl⟩ := hmap
  rw [Int.toNat_natCast] at hstep
  obtain ⟨A, ts, st, hat⟩ := h.exists_at (by rw [← h.statuses]; exact hb)
  obtain ⟨A', hA', rfl⟩ := deliver_eq_some hstep
  cases hA'.symm.trans hat.system
  have hok := h.airline b A ts st hat
  rw [hpc, show (MapPc.reply T.phase i b msg).pend b = [msg] by simp [MapPc.pend]] at hok
  obtain ⟨hok, hfollows⟩ := hok.deliver
  refine h.set hat T.map ts st ?_ h.map ?_ rfl hok (fun c hc => ⟨rfl, ?_⟩) h.inbox ?_ hfollows
    (by simp) .nil
  · rw [set_self hat.turn]
    exact .refl
  · have := h.turn
    rwa [hpc] at this
  · rw [hpc]
    simp [MapPc.pend, Ne.symm hc]
  · rw [set_self hat.status]
    exact ⟨rfl, hall, hcount⟩

/-! ## All steps -/

/-- A step of the map. -/
theorem Sim.mapStep (h : Sim s T sts) (hstep : mapStep cfg s = some (es, s')) :
    Simulated cfg.qsort s T sts es s' ∨ Unset s s' := by
  have hmap := h.pc
  have hturn := h.turn
  unfold PlaneSim.mapStep at hstep
  cases hpc : s.pc with
  | head =>
    rw [hpc] at hmap hturn
    simp only [hpc] at hstep
    left
    split at hstep
    · cases hstep
      refine h.stay rfl (by rw [hturn]; rfl) rfl rfl (fun b => by rw [hpc]; rfl)
        ⟨hmap.1.symm, Nat.zero_le _, fun a st hst => ?_⟩
      rw [if_neg (Nat.not_lt_zero a)]
      exact hmap.2 st (List.mem_of_getElem? hst)
    · cases hstep
      refine h.stay rfl hturn rfl rfl (fun b => by rw [hpc]; rfl)
        ⟨hmap.1, Nat.zero_le _, fun a st hst => ?_⟩
      rw [if_neg (Nat.not_lt_zero a)]
      exact hmap.2 st (List.mem_of_getElem? hst)
  | send w i =>
    rw [hpc] at hmap hturn
    simp only [hpc] at hstep
    left
    split at hstep
    · rename_i hi
      obtain ⟨s1, hdeliver, hnew⟩ := Option.map_eq_some_iff.mp hstep
      cases hnew
      exact h.send hpc hi hdeliver
    · rename_i hi
      cases hstep
      obtain ⟨hall, hcount⟩ := count_of_underway (by rw [h.statuses]; omega) hmap.2.2
      exact h.stay rfl hturn rfl rfl (fun b => by rw [hpc]; rfl) ⟨hmap.1, hall, hcount⟩
  | recv w i =>
    simp only [hpc] at hstep
    split at hstep
    · rename_i hi
      cases hstep
      exact .inl (h.nextPhase hpc hi)
    · cases hinbox : s.inbox with
      | nil =>
        rw [hinbox] at hstep
        cases hstep
      | cons x inbox =>
        obtain ⟨b, msg⟩ := x
        rw [hinbox] at hstep
        simp only [Option.some.injEq, Prod.mk.injEq] at hstep
        obtain ⟨rfl, rfl⟩ := hstep
        cases msg with
        | airlineDone =>
          have hreports : PlaneMessage.airlineDone.reports = some .one := rfl
          obtain ⟨rfl, hsim⟩ := h.report hpc hinbox hreports
          exact .inl hsim
        | airlineStatus status =>
          have hreports : (PlaneMessage.airlineStatus status).reports = some .two := rfl
          obtain ⟨rfl, hsim⟩ := h.report hpc hinbox hreports
          exact .inl hsim
        | unloadStock m => exact h.request hpc hinbox rfl (by rw [hpc])
        | checkDestinations m => exact h.request hpc hinbox rfl (by rw [hpc])
  | reply w i airline msg =>
    rw [hpc] at hmap
    obtain ⟨-, -, -, b, hb, rfl⟩ := hmap
    simp only [hpc] at hstep
    rw [getFromVector_natCast, List.getElem?_eq_getElem (by rw [← h.statuses]; exact hb)] at hstep
    obtain ⟨s1, hdeliver, hnew⟩ := Option.map_eq_some_iff.mp hstep
    cases hnew
    exact .inl (h.reply hpc hdeliver)
  | finish i =>
    rw [hpc] at hmap hturn
    simp only [hpc] at hstep
    left
    split at hstep
    · rename_i hi
      obtain ⟨s1, hdeliver, hnew⟩ := Option.map_eq_some_iff.mp hstep
      cases hnew
      exact h.finish hpc hi hdeliver
    · rename_i hi
      cases hstep
      refine h.stay rfl hturn rfl rfl (fun b => by rw [hpc]; rfl) ⟨hmap.1, fun st hst => ?_⟩
      obtain ⟨a, ha⟩ := List.mem_iff_getElem?.mp hst
      have hlt := (List.getElem?_eq_some_iff.mp ha).1
      have := hmap.2.2 a st ha
      rwa [if_pos (by have := h.statuses; omega)] at this
  | halted | crashed =>
    simp only [hpc] at hstep
    cases hstep

/-- **Every step of the system is some steps of the abstract turn**, unless the map unloads in a
city that lists nothing. -/
theorem Sim.step (h : Sim s T sts) {action : Action}
    (hstep : reliableStep cfg s action = some (es, s')) :
    Simulated cfg.qsort s T sts es s' ∨ Unset s s' := by
  unfold reliableStep at hstep
  split at hstep
  swap
  · cases hstep
  cases action with
  | map => exact h.mapStep hstep
  | listener a =>
    obtain ⟨A, hA, hstep⟩ := Option.bind_eq_some_iff.mp hstep
    obtain ⟨⟨es1, A', sent⟩, hlisten, hnew⟩ := Option.map_eq_some_iff.mp hstep
    cases hnew
    obtain ⟨ts, st, hat⟩ := h.exists_at_of_system hA
    exact .inl (h.thread hat (listen_stepped (h.airline a A ts st hat) hlisten))
  | plane a p =>
    obtain ⟨A, hA, hstep⟩ := Option.bind_eq_some_iff.mp hstep
    obtain ⟨⟨es1, A', sent⟩, hplane, hnew⟩ := Option.map_eq_some_iff.mp hstep
    cases hnew
    obtain ⟨ts, st, hat⟩ := h.exists_at_of_system hA
    exact .inl (h.thread hat
      (plane_stepped (h.airline a A ts st hat) (h.valid.carries hat.turn) hplane))
  | exit =>
    cases hstep
    exact .inl (h.stay rfl h.turn rfl rfl (fun _ => rfl) h.pc)
  | mapFail => rename_i hrel; cases hrel
  | listenerFail a => rename_i hrel; cases hrel

end Simulation

/-! ## Runs -/

/-- At the beginning the locks are free. -/
theorem held_bootstrapPlanes {airline : Airline} {listener : ListenPc → Bool}
    {plane : PlanePc → Bool} (hrecv : listener .recv = false) (htop : plane .top = false) :
    Lock.Held none (holds listener plane .recv (bootstrapPlanes airline).planes) := by
  intro x
  constructor
  · rintro ⟨⟩
  · cases x with
    | listener =>
      intro hlock
      rw [holds, hrecv] at hlock
      cases hlock
    | plane p =>
      rintro ⟨P, hP, hlock⟩
      obtain ⟨plane', -, rfl⟩ := List.mem_map.mp (List.mem_of_getElem? hP)
      rw [htop] at hlock
      cases hlock

theorem sim_init {map : Map} {airlines : List Airline} (h : Setup map airlines) :
    Sim (System.init map airlines) (Turn.init map airlines)
      (airlines.map fun _ => .waiting) where
  map := rfl
  valid := h.valid
  turn := rfl
  length := by simp [Turn.init, System.init]
  statuses := by simp [System.init]
  inbox := by simp [System.init]
  pc := ⟨rfl, by simp⟩
  airline := by
    rintro a A ts st ⟨hA, hts, hst⟩
    simp only [System.init, Turn.init, List.getElem?_map] at hA hts hst
    obtain ⟨airline, hairline, rfl⟩ := Option.map_eq_some_iff.mp hA
    rw [hairline] at hts hst
    cases hts
    cases hst
    have hplane : ∀ (p : ℕ) (P : PlaneThread) (t : TurnPlane), (bootstrapPlanes airline).planes[p]? = some P →
        (airline.planes.map fun plane => ({ plane := plane, done := false, todo := true } : TurnPlane))[p]?
          = some t →
        P.pc = .top ∧ P.queue = [] ∧ P.done = false ∧ t = ⟨P.plane, false, true⟩ := by
      intro p P t hP ht
      simp only [bootstrapPlanes, List.getElem?_map] at hP ht
      obtain ⟨plane, hplane, rfl⟩ := Option.map_eq_some_iff.mp hP
      rw [hplane] at ht
      cases ht
      exact ⟨rfl, rfl, rfl, rfl⟩
    refine ⟨by simp [bootstrapPlanes], fun p P t hP ht => ?_, held_bootstrapPlanes rfl rfl,
      held_bootstrapPlanes rfl rfl, ⟨.inl rfl, rfl, rfl, ?_, rfl, fun h => by cases h⟩⟩
    · obtain ⟨hpc, hqueue, hdone, rfl⟩ := hplane p P t hP ht
      refine ⟨?_, fun _ => hdone⟩
      rw [hpc]
      exact ⟨rfl, rfl, rfl, hdone.symm, .waiting hdone hqueue rfl⟩
    · intro p P t hP ht
      obtain ⟨hpc, hqueue, hdone, rfl⟩ := hplane p P t hP ht
      exact ⟨by simp [PlaneThread.active, hpc, hqueue, PlanePc.station],
        by simp [PlaneThread.reporting, hpc, PlanePc.station], by rw [hdone]; rfl⟩

/-- A crashed map stays so. -/
theorem crashed_step {cfg : Config} {s s' : System} {action : Action} {es : List Event}
    (h : s.pc = .crashed) (hstep : reliableStep cfg s action = some (es, s')) :
    s'.pc = .crashed := by
  unfold reliableStep at hstep
  split at hstep
  swap
  · cases hstep
  cases action with
  | map =>
    simp only [step, mapStep, h] at hstep
    cases hstep
  | listener a | plane a p =>
    obtain ⟨A, -, hstep⟩ := Option.bind_eq_some_iff.mp hstep
    obtain ⟨⟨es1, A', sent⟩, -, hnew⟩ := Option.map_eq_some_iff.mp hstep
    cases hnew
    exact h
  | exit =>
    cases hstep
    exact h
  | mapFail => rename_i hrel; cases hrel
  | listenerFail a => rename_i hrel; cases hrel

/-- Every run of the system is a run of the turns, with the same unloads. -/
theorem Sim.run {cfg : Config} {s s' : System} {T : Turn} {sts : List Status} (h : Sim s T sts)
    {tr : List Event} (hrun : Run (reliableStep cfg) s tr s') (hpc : s'.pc ≠ .crashed) :
    ∃ T' sts', Run (turnStep cfg.qsort) T (tr.filterMap Event.unload) T' ∧ Sim s' T' sts' := by
  induction hrun with
  | refl => exact ⟨T, sts, .refl, h⟩
  | step run last ih =>
    obtain ⟨T1, sts1, hturns, hsim⟩ := ih fun hcrash => hpc (crashed_step hcrash last)
    rcases hsim.step last with ⟨T', sts', hturns', hsim', -⟩ | ⟨hcrash, -⟩
    · refine ⟨T', sts', ?_, hsim'⟩
      rw [List.filterMap_append]
      exact hturns.trans hturns'
    · exact absurd hcrash hpc

/-- **Simulation.** A state that a run reaches is related to one that the turns reach, with the
unloads of the run. -/
theorem sim_run {cfg : Config} {map : Map} {airlines : List Airline} (h : Setup map airlines)
    {tr : List Event} {s : System} (hrun : Run (reliableStep cfg) (System.init map airlines) tr s)
    (hpc : s.pc ≠ .crashed) :
    ∃ T sts, Run (turnStep cfg.qsort) (Turn.init map airlines) (tr.filterMap Event.unload) T ∧
      Sim s T sts :=
  (sim_init h).run hrun hpc

/-- Where every city lists a need, the map never crashes. -/
theorem not_crashed {cfg : Config} {map : Map} {airlines : List Airline} (h : Setup map airlines)
    (hlist : Listing map) {tr : List Event} {s : System}
    (hrun : Run (reliableStep cfg) (System.init map airlines) tr s) : s.pc ≠ .crashed := by
  induction hrun with
  | refl => simp [System.init]
  | step run last ih =>
    obtain ⟨T, sts, hturns, hsim⟩ := sim_run h run ih
    have hlist' : Listing T.map := Listing.mono (T := Turn.init map airlines) hlist
      (turnOk_run h.valid.ok hturns).2
    rcases hsim.step last with ⟨T', sts', -, hsim', -⟩ | ⟨-, hunset⟩
    · intro hcrash
      have := hsim'.pc
      rw [hcrash] at this
      exact this
    · rw [hsim.map] at hunset
      exact absurd hlist' hunset

end PlaneSim
