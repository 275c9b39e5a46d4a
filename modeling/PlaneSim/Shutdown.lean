import PlaneSim.Delivery

/-!
# Shutting an airline down

After End `run_airline` joins its planes one after the other, and frees the record and the queue of
each plane that it has joined.

1. No thread of the airline touches a record that is freed, not even the planes that go through all
   records to count who is flying (`freed_untouched`).
2. When everything is over no message is left anywhere, and no lock is held (`final_clean`).
-/

namespace PlaneSim

open Lts Update Lock

/-! ## Freed records -/

/-- The records below this one are freed. -/
def AirlineState.freed (A : AirlineState) : ℕ :=
  match A.pc with
  | .join i => i
  | .stopped => A.planes.length
  | _ => 0

/-- The record that `send_ready_message` reads next. -/
def ReportPc.reads : ReportPc → List ℕ
  | .count i _ => [i]
  | _ => []

/-- The records in `planeThreads` that the next step of a thread reads or writes. -/
def AirlineState.touches (A : AirlineState) : Thread → List ℕ
  | .listener =>
    match A.pc with
    | .scan _ i => [i]
    | .bcast _ i => [i]
    | .finish i => [i]
    | .join i => [i]
    | .report pc => pc.reads
    | .push id _ => [id.toNat]
    | _ => []
  | .plane p =>
    match A.planes[p]? with
    | some P =>
      match P.pc with
      | .exited => []
      | .report _ pc => p :: pc.reads
      | _ => [p]
    | none => []

section Freed

variable {a : ℕ} {ph : Phase} {st : Status} {A : AirlineState} {ts : List TurnPlane}
  {out : List PlaneMessage} {pend : List MapMessage} {p q : ℕ} {P : PlaneThread}

theorem AirlineState.freed_cases (A : AirlineState) :
    A.freed = 0 ∨ (∃ i, A.pc = .join i ∧ A.freed = i) ∨ A.pc = .stopped := by
  unfold AirlineState.freed
  cases A.pc with
  | join i => exact .inr (.inl ⟨i, rfl, rfl⟩)
  | stopped => exact .inr (.inr rfl)
  | recv | lockLeft _ | scan _ _ | report _ | bcast _ _ | unlockLeft | push _ _ | finish _ =>
    exact .inl rfl

/-- The listener is past the records it has freed. -/
theorem AirlineState.freed_le_listener (hq : q ∈ A.touches .listener) : A.freed ≤ q := by
  rcases A.freed_cases with hzero | ⟨i, hpc, hfreed⟩ | hpc
  · rw [hzero]
    exact Nat.zero_le q
  · simp only [AirlineState.touches, hpc, List.mem_singleton] at hq
    rw [hfreed, hq]
  · simp [AirlineState.touches, hpc] at hq

/-- A plane touches its own record, and others only while it reports. -/
theorem touches_plane (hP : A.planes[p]? = some P) (hq : q ∈ A.touches (.plane p)) :
    P.pc ≠ .exited ∧ (q = p ∨ P.reporting = true) := by
  simp only [AirlineState.touches, hP] at hq
  cases hpc : P.pc with
  | exited => simp [hpc] at hq
  | report w pc =>
    refine ⟨by simp, ?_⟩
    simp only [hpc, List.mem_cons] at hq
    refine hq.imp_right fun hreads => ?_
    cases pc with
    | count i flying => exact reporting_of_report hpc (by simp)
    | stage | lockConn _ | send _ | unlockConn => simp [ReportPc.reads] at hreads
  | top | safe _ | lockConn _ | send _ | unlockConn _ | reply _ | cont | lockLeft _ | dec _
  | unlockLeft _ =>
    simp only [hpc, List.mem_singleton] at hq
    exact ⟨by simp, .inl hq⟩

theorem AirlineOk.freed_le (h : AirlineOk a ph st A ts out pend) {thread : Thread}
    (hq : q ∈ A.touches thread) : A.freed ≤ q := by
  cases thread with
  | listener => exact AirlineState.freed_le_listener hq
  | plane p =>
    rcases A.freed_cases with hzero | hover
    · rw [hzero]
      exact Nat.zero_le q
    have hpc : (∃ i, A.pc = .join i) ∨ A.pc = .stopped :=
      hover.imp_left fun ⟨i, hpc, _⟩ => ⟨i, hpc⟩
    obtain ⟨-, -, -, -, -, hidle, hending⟩ := h.ending_of_pc (.inr hpc)
    cases hP : A.planes[p]? with
    | none => simp [AirlineState.touches, hP] at hq
    | some P =>
      obtain ⟨hrunning, hown⟩ := touches_plane hP hq
      have hmem := List.mem_of_getElem? hP
      obtain rfl : q = p := hown.resolve_right (by rw [(hidle P hmem).2]; simp)
      rcases hover with ⟨i, hpc, hfreed⟩ | hpc
      · rw [hpc] at hending
        rw [hfreed]
        by_contra hlt
        exact hrunning (hending.2.2 q P (not_le.mp hlt) hP)
      · rw [hpc] at hending
        exact absurd (hending P hmem) hrunning

end Freed

/-! ## Over -/

section Over

variable {cfg : Config} {map : Map} {airlines : List Airline} {s : System} {tr : List Event}
  {T : Turn} {sts : List Status}

/-- **No use after free.** In every state that a run reaches, no thread of an airline is about to
touch the record of a plane that has been joined and freed. -/
theorem freed_untouched (h : Setup map airlines) (hlist : Listing map)
    (hrun : Run (reliableStep cfg) (System.init map airlines) tr s) :
    ∀ A ∈ s.airlines, ∀ thread, ∀ q ∈ A.touches thread, A.freed ≤ q := by
  obtain ⟨T, sts, -, hsim⟩ := sim_run h hrun (not_crashed h hlist hrun)
  intro A hA thread q hq
  obtain ⟨a, ha⟩ := List.mem_iff_getElem?.mp hA
  obtain ⟨ts, st, hat⟩ := hsim.exists_at_of_system ha
  exact (hsim.airline a A ts st hat).freed_le hq

/-- An airline that is over: nothing is on its way, and nobody holds a lock. -/
structure Over (A : AirlineState) : Prop where
  inbox : A.inbox = []
  leftLock : A.leftLock = none
  conn : A.conn = none
  plane : ∀ P ∈ A.planes, P.queue = [] ∧ P.done = true

theorem Sim.over (h : Sim s T sts) (hfinal : Final s) {a : ℕ} {A : AirlineState}
    (hA : s.airlines[a]? = some A) : Over A ∧ s.out a = [] := by
  obtain ⟨ts, st, hat⟩ := h.exists_at_of_system hA
  have hok := h.airline a A ts st hat
  have hmem := List.mem_of_getElem? hA
  have hpc := hfinal.listener A hmem
  have hexited := hfinal.plane A hmem
  obtain ⟨-, -, hinbox, hout, -⟩ := hok.ending_of_pc (.inr (.inr hpc))
  have hnobody : ∀ {listener : ListenPc → Bool} {plane : PlanePc → Bool},
      listener .stopped = false → plane .exited = false →
        ∀ i, ¬holds listener plane A.pc A.planes i := by
    intro listener plane hl hp i hi
    cases i with
    | listener =>
      rw [holds, hpc, hl] at hi
      cases hi
    | plane p =>
      obtain ⟨P, hP, hlock⟩ := hi
      rw [hexited P (List.mem_of_getElem? hP), hp] at hlock
      cases hlock
  refine ⟨⟨hinbox, hok.left.free (hnobody rfl rfl), hok.conn.free (hnobody rfl rfl),
    fun P hP => ?_⟩, hout⟩
  obtain ⟨p, hp⟩ := List.mem_iff_getElem?.mp hP
  obtain ⟨t, ht⟩ := hok.exists_abstract hp
  have hstation := (hok.planeOk hp ht).station
  rw [hexited P hP] at hstation
  exact ⟨hstation.2.2.2.1, hstation.2.2.2.2.1⟩

/-- **A clean end.** When all threads have ended, every message has been taken, every plane is
retired or has been told to end, and every lock is free. -/
theorem final_clean (h : Setup map airlines) (hlist : Listing map)
    (hrun : Run (reliableStep cfg) (System.init map airlines) tr s) (hfinal : Final s) :
    s.inbox = [] ∧ ∀ A ∈ s.airlines, Over A := by
  obtain ⟨T, sts, -, hsim⟩ := sim_run h hrun (not_crashed h hlist hrun)
  refine ⟨hsim.inbox_eq_nil fun a ha => (hsim.over hfinal (List.getElem?_eq_getElem ha)).2,
    fun A hA => ?_⟩
  obtain ⟨a, ha⟩ := List.mem_iff_getElem?.mp hA
  exact (hsim.over hfinal ha).1

end Over

theorem freed_untouched_solo :
    ∃ tr s, Run (reliableStep someConfig) (System.init soloMap soloAirlines) tr s ∧
      s.airlines.map (·.pc) = [.stopped] ∧
      ∀ A ∈ s.airlines, ∀ thread, ∀ q ∈ A.touches thread, A.freed ≤ q := by
  obtain ⟨tr, s, hexec, hfinal, -⟩ := exec_solo
  have hrun := run_of_exec hexec
  refine ⟨tr, s, hrun, ?_, freed_untouched setup_solo listing_solo hrun⟩
  have hlen : s.airlines.length = 1 := (within_run hrun).2
  obtain ⟨A, hA⟩ := List.length_eq_one_iff.mp hlen
  rw [hA, List.map_singleton, hfinal.listener A (by rw [hA]; simp)]

theorem final_clean_solo :
    ∃ tr s, Run (reliableStep someConfig) (System.init soloMap soloAirlines) tr s ∧ Final s ∧
      s.inbox = [] ∧ ∀ A ∈ s.airlines, Over A := by
  obtain ⟨tr, s, hexec, hfinal, -⟩ := exec_solo
  have hrun := run_of_exec hexec
  exact ⟨tr, s, hrun, hfinal, final_clean setup_solo listing_solo hrun hfinal⟩

end PlaneSim
