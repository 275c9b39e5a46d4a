import PlaneSim.Reporting

/-!
# No report without a start message

What an airline owes are the reports that its threads have ahead of them. Taking a start message
makes it owe one more at the most, and a report is one less (`Repays`), whatever the other
processes do and even when its listener has failed (`repays_listenStep`, `repays_planeStep`,
`repays_listenFail`).
-/

namespace PlaneSim

open Lts Update Lock

/-! ## What is owed -/

def MapMessage.isStart : MapMessage → Bool
  | .start _ => true
  | _ => false

/-- Airline `a` takes a start message. -/
def Event.startedBy (a : ℕ) : Event → Bool
  | .got b msg _ => b = a && msg.isStart
  | _ => false

/-- Airline `a` reports. -/
def Event.reportedBy (a : ℕ) : Event → Bool
  | .sent b msg _ => b = a && msg.reports.isSome
  | _ => false

/-- The messages ahead of a thread in `send_ready_message`. -/
def ahead : Option ReportPc → ℕ
  | none => 0
  | some .unlockConn => 0
  | some _ => 1

/-- The reports ahead of the listener, and those of the planes that it has to start. -/
def ListenPc.owes : ListenPc → ℕ
  | .lockLeft _ => 1
  | .scan _ _ => 1
  | .report pc => ahead (some pc)
  | _ => 0

/-- Counting down `planesLeft` leads to one report. -/
def AirlineState.countdown (A : AirlineState) : ℕ :=
  match A.pc with
  | .scan _ _ => 0
  | _ => if 0 < A.planesLeft then 1 else 0

/-- The reports that the threads have ahead of them. -/
def AirlineState.owed (A : AirlineState) : ℕ :=
  A.planes.countP (·.reporting) + A.pc.owes + A.countdown

/-- The lock of `planesLeft` is with the thread that says so. -/
def AirlineState.Locked (A : AirlineState) : Prop := Held A.leftLock (holdsLeft A.pc A.planes)

/-- A step of airline `a`, with its events, that keeps the lock and the accounts. -/
structure Repays (a : ℕ) (A A' : AirlineState) (es : List Event) : Prop where
  locked : A'.Locked
  inbox : es.countP (Event.startedBy a) + A'.inbox.countP MapMessage.isStart =
    A.inbox.countP MapMessage.isStart
  owed : es.countP (Event.reportedBy a) + A'.owed ≤ es.countP (Event.startedBy a) + A.owed
  own : ∀ b, b ≠ a → ∀ e ∈ es, e.startedBy b = false ∧ e.reportedBy b = false

/-- Events that are neither start messages nor reports of the airline. -/
theorem countP_eq_zero_of_quiet {a : ℕ} {es : List Event}
    (h : ∀ e ∈ es, e.startedBy a = false ∧ e.reportedBy a = false) :
    es.countP (Event.startedBy a) = 0 ∧ es.countP (Event.reportedBy a) = 0 :=
  ⟨List.countP_eq_zero.mpr fun e he => by simp [(h e he).1],
    List.countP_eq_zero.mpr fun e he => by simp [(h e he).2]⟩

theorem AirlineState.countdown_le (A : AirlineState) : A.countdown ≤ 1 := by
  unfold AirlineState.countdown
  split
  · exact Nat.zero_le 1
  · split <;> omega

/-- While the listener counts the planes, none of them holds the lock. -/
theorem AirlineState.Locked.not_scan {A : AirlineState} {p : ℕ} {P : PlaneThread} (h : A.Locked)
    (hP : A.planes[p]? = some P) (hpc : P.pc.holdsLeft = true) (phase : Phase) (i : ℕ) :
    A.pc ≠ .scan phase i := by
  intro hscan
  have hlistener : holdsLeft A.pc A.planes .listener := by
    rw [hscan]
    rfl
  cases h.unique hlistener ((holds_plane hP).mpr hpc)

theorem AirlineState.countdown_eq {A : AirlineState} (h : ∀ phase i, A.pc ≠ .scan phase i) :
    A.countdown = if 0 < A.planesLeft then 1 else 0 := by
  unfold AirlineState.countdown
  split
  · rename_i phase i hpc
    exact absurd hpc (h phase i)
  · rfl

/-- A listener that has nothing ahead of it owes no more than before. -/
theorem AirlineState.owes_countdown_le {A A' : AirlineState} (hleft : A'.planesLeft = A.planesLeft)
    (hscan : ∀ phase i, A.pc ≠ .scan phase i) (howes : A'.pc.owes = 0) :
    A'.pc.owes + A'.countdown ≤ A.pc.owes + A.countdown := by
  have hscan' : ∀ phase i, A'.pc ≠ .scan phase i := by
    intro phase i hpc
    rw [hpc] at howes
    cases howes
  rw [AirlineState.countdown_eq hscan, AirlineState.countdown_eq hscan', hleft, howes]
  omega

/-! ## Planes -/

section Steps

variable {a : ℕ} {room : Bool} {A A' : AirlineState} {p : ℕ} {P P' : PlaneThread}
  {es : List Event} {sent : Option PlaneMessage}

/-- A request is not a report. -/
theorem reports_request {plane : Plane} {phase : Phase} {msg : PlaneMessage}
    (h : request a plane phase = some msg) : msg.reports = none := by
  cases phase with
  | one | two =>
    obtain ⟨body, -, rfl⟩ := Option.map_eq_some_iff.mp h
    rfl

theorem startedBy_sentEvents : (sentEvents a A sent).countP (Event.startedBy a) = 0 := by
  cases sent <;> rfl

theorem own_sentEvents {b : ℕ} (hb : b ≠ a) {e : Event} (he : e ∈ sentEvents a A sent) :
    e.startedBy b = false ∧ e.reportedBy b = false := by
  cases sent with
  | none => cases he
  | some msg =>
    rw [List.mem_singleton.mp he]
    simp [Event.startedBy, Event.reportedBy, Ne.symm hb]

theorem reportedBy_sentEvents :
    (sentEvents a A sent).countP (Event.reportedBy a) ≤ sent.toList.length := by
  cases sent with
  | none => exact le_rfl
  | some msg => exact List.countP_le_length

/-- A plane goes on, with `planesLeft` as it was. -/
theorem Repays.plane (hP : A.planes[p]? = some P)
    (hA : A' = { A with leftLock := A'.leftLock, conn := A'.conn, planes := A.planes.set p P' })
    (hlocked : Held A'.leftLock (holdsLeft A.pc (A.planes.set p P')))
    (hstart : es.countP (Event.startedBy a) = 0)
    (hreport : es.countP (Event.reportedBy a) + (if P'.reporting then 1 else 0) ≤
      if P.reporting then 1 else 0)
    (hown : ∀ b, b ≠ a → ∀ e ∈ es, e.startedBy b = false ∧ e.reportedBy b = false) :
    Repays a A A' es where
  own := hown
  locked := by
    rw [hA]
    exact hlocked
  inbox := by rw [hstart, hA, Nat.zero_add]
  owed := by
    have hcount := countP_set (·.reporting) hP P'
    have howed : A'.owed = (A.planes.set p P').countP (·.reporting) + A.pc.owes + A.countdown := by
      rw [hA]
      rfl
    rw [howed, hstart]
    unfold AirlineState.owed
    omega

/-- It does so without touching the lock. -/
theorem Repays.move (h : A.Locked) (hP : A.planes[p]? = some P)
    (hA : A' = { A with conn := A'.conn, planes := A.planes.set p P' })
    (hpc : P'.pc.holdsLeft = P.pc.holdsLeft) (hreporting : P'.reporting = false)
    (hes : ∀ b, ∀ e ∈ es, e.startedBy b = false ∧ e.reportedBy b = false) : Repays a A A' es := by
  obtain ⟨hstart, hreport⟩ := countP_eq_zero_of_quiet (hes a)
  have hlock : A'.leftLock = A.leftLock := by rw [hA]
  have hheld : Held A'.leftLock (holdsLeft A.pc (A.planes.set p P')) := by
    rw [hlock]
    exact held_keep h hP hpc
  refine .plane hP ?_ hheld hstart ?_ fun b _ => hes b
  · rw [hlock]
    exact hA
  · rw [hreport, hreporting]
    exact Nat.zero_le _

theorem reporting_of_pc (hpc : ∀ ph pc, P.pc ≠ .report ph pc) : P.reporting = false := by
  by_contra h
  obtain ⟨ph, pc, hP, -⟩ := exists_report_of_reporting (by simpa using h)
  exact hpc ph pc hP

theorem reporting_report {ph : Phase} {pc : ReportPc} (hpc : P.pc = .report ph pc) :
    (if P.reporting then 1 else 0) = ahead (some pc) := by
  unfold PlaneThread.reporting
  rw [hpc]
  cases pc <;> rfl

/-- A message sent is one less ahead. -/
theorem ahead_reportStep {thread : Thread} {pc : ReportPc} {r : ReportStep}
    (h : reportStep a room A thread pc = some r) :
    r.sent.toList.length + ahead r.next = ahead (some pc) := by
  cases pc with
  | stage =>
    simp only [reportStep] at h
    split at h <;> cases h <;> rfl
  | count i flying =>
    simp only [reportStep] at h
    split at h <;> cases h <;> rfl
  | lockConn msg | send msg =>
    simp only [reportStep] at h
    split at h <;> cases h
    rfl
  | unlockConn =>
    cases h
    rfl

/-- The plane that counts `planesLeft` down to zero goes on to report. -/
theorem Repays.countdown {phase : Phase} {pc' : PlanePc} (h : A.Locked) (hP : A.planes[p]? = some P)
    (hpc : P.pc = .dec phase)
    (hpc' : pc' = if A.planesLeft - 1 = 0 then .report phase .stage else .unlockLeft phase) :
    Repays a A ({ A with planesLeft := A.planesLeft - 1 }.setPlane p { P with pc := pc' })
      [.ready a p phase] where
  locked := held_keep h hP (by
    rw [hpc, hpc']
    split <;> rfl)
  inbox := Nat.zero_add _
  own b hb e he := by
    rw [List.mem_singleton.mp he]
    exact ⟨rfl, rfl⟩
  owed := by
    have hscan := h.not_scan hP (by rw [hpc]; rfl)
    have hcount := countP_set (·.reporting) hP { P with pc := pc' }
    have hold : P.reporting = false := reporting_of_pc (by simp [hpc])
    have hnew : (if ({ P with pc := pc' } : PlaneThread).reporting then 1 else 0) =
        if A.planesLeft - 1 = 0 then 1 else 0 := by
      rw [hpc']
      split <;> rfl
    simp only [hold, hnew] at hcount
    have hcountdown : ({ A with planesLeft := A.planesLeft - 1 }.setPlane p
        { P with pc := pc' }).countdown = if 0 < A.planesLeft - 1 then 1 else 0 :=
      AirlineState.countdown_eq hscan
    show 0 + AirlineState.owed _ ≤ 0 + A.owed
    unfold AirlineState.owed
    rw [AirlineState.countdown_eq hscan, hcountdown]
    dsimp only [AirlineState.setPlane]
    have hstep : (if A.planesLeft - 1 = 0 then 1 else 0) + (if 0 < A.planesLeft - 1 then 1 else 0) =
        if 0 < A.planesLeft then 1 else 0 := by
      split_ifs <;> omega
    omega

theorem repays_planeStep {r : AirlineStep} (h : A.Locked) (hstep : planeStep a room A p = some r) :
    Repays a A r.2.1 r.1 := by
  unfold planeStep at hstep
  obtain ⟨P, hP, hstep⟩ := Option.bind_eq_some_iff.mp hstep
  have hnothing : ∀ b, ∀ e ∈ ([] : List Event), e.startedBy b = false ∧ e.reportedBy b = false := by
    simp
  have herror : ∀ b, ∀ e ∈ [Event.error], e.startedBy b = false ∧ e.reportedBy b = false := by
    simp [Event.startedBy, Event.reportedBy]
  cases hpc : P.pc with
  | top =>
    simp only [hpc] at hstep
    split at hstep
    · cases hstep
      exact .move h hP rfl (by rw [hpc]; rfl) rfl hnothing
    · split at hstep <;> cases hstep
      · refine .move h hP rfl ?_ ?_ hnothing
        · rw [hpc]
          dsimp only
          split <;> rfl
        · refine reporting_of_pc fun ph pc => ?_
          dsimp only
          split <;> simp
      · exact .move h hP rfl (by rw [hpc]; rfl) rfl hnothing
      · exact .move h hP rfl (by rw [hpc]; rfl) rfl herror
  | safe action =>
    simp only [hpc] at hstep
    split at hstep <;> cases hstep
    · exact .move h hP rfl (by rw [hpc]; rfl) rfl hnothing
    · refine .move h hP rfl ?_ (reporting_of_pc ?_) hnothing
      · rw [hpc]
        cases action <;> rfl
      · cases action <;> simp [Safe.enter]
  | lockConn phase =>
    simp only [hpc] at hstep
    split at hstep <;> cases hstep
    exact .move h hP rfl (by rw [hpc]; rfl) rfl hnothing
  | send phase =>
    simp only [hpc] at hstep
    split at hstep
    · cases hstep
      exact .move h hP rfl (by rw [hpc]; rfl) rfl herror
    · rename_i msg hrequest
      split at hstep <;> cases hstep
      refine .move h hP rfl (by rw [hpc]; rfl) rfl ?_
      simp [Event.startedBy, Event.reportedBy, reports_request hrequest]
  | unlockConn phase =>
    simp only [hpc] at hstep
    cases hstep
    exact .move h hP rfl (by rw [hpc]; rfl) rfl hnothing
  | reply phase =>
    simp only [hpc] at hstep
    split at hstep
    · cases hstep
    · split at hstep <;> cases hstep
      · exact .move h hP rfl (by rw [hpc]; rfl) rfl (by simp [Event.startedBy, Event.reportedBy])
      · exact .move h hP rfl (by rw [hpc]; rfl) rfl herror
      · exact .move h hP rfl (by rw [hpc]; rfl) rfl herror
  | cont =>
    simp only [hpc] at hstep
    split at hstep
    · cases hstep
    · split at hstep <;> cases hstep <;> exact .move h hP rfl (by rw [hpc]; rfl) rfl hnothing
    · cases hstep
      exact .move h hP rfl (by rw [hpc]; rfl) rfl herror
  | lockLeft phase =>
    simp only [hpc] at hstep
    split at hstep <;> cases hstep
    rename_i hfree
    refine .plane hP rfl (held_acquire (hfree ▸ h) hP rfl) rfl ?_ fun b _ => hnothing b
    exact Nat.zero_le _
  | dec phase =>
    simp only [hpc] at hstep
    cases hstep
    exact .countdown h hP hpc rfl
  | report phase pc =>
    simp only [hpc] at hstep
    obtain ⟨r, hreport, rfl⟩ := Option.map_eq_some_iff.mp hstep
    have hahead := ahead_reportStep hreport
    have hold := reporting_report hpc
    refine .plane hP rfl (held_keep h hP ?_) startedBy_sentEvents ?_ fun b hb e he =>
      own_sentEvents hb he
    · rw [hpc]
      cases r.next <;> rfl
    · refine (Nat.add_le_add_right reportedBy_sentEvents _).trans ?_
      rw [hold, ← hahead]
      cases hnext : r.next with
      | none => exact le_rfl
      | some pc =>
        rw [← reporting_report (P := { P with pc := .report phase pc }) rfl]
  | unlockLeft phase =>
    simp only [hpc] at hstep
    cases hstep
    refine .plane hP rfl (held_release h hP (by rw [hpc]; rfl) ?_) rfl ?_ fun b _ => hnothing b
    · cases phase <;> simp only [afterReady]
      · split <;> rfl
      · rfl
    · rw [reporting_of_pc]
      · exact Nat.zero_le _
      · cases phase <;> simp only [afterReady]
        · split <;> simp
        · simp
  | exited =>
    simp only [hpc] at hstep
    cases hstep

/-! ## The listener -/

/-- The listener goes on, and pushes a message to a plane at the most. -/
theorem Repays.listener (hcount : A'.planes.countP (·.reporting) = A.planes.countP (·.reporting))
    (hinbox : A'.inbox = A.inbox) (hlocked : A'.Locked)
    (hstart : es.countP (Event.startedBy a) = 0)
    (howed : es.countP (Event.reportedBy a) + (A'.pc.owes + A'.countdown) ≤
      A.pc.owes + A.countdown)
    (hown : ∀ b, b ≠ a → ∀ e ∈ es, e.startedBy b = false ∧ e.reportedBy b = false) :
    Repays a A A' es where
  own := hown
  locked := hlocked
  inbox := by rw [hstart, hinbox, Nat.zero_add]
  owed := by
    unfold AirlineState.owed
    omega

/-- It does so without touching the lock. -/
theorem Repays.listen (h : A.Locked)
    (hA : A'.leftLock = A.leftLock ∧ A'.inbox = A.inbox ∧ A'.pc.holdsLeft = A.pc.holdsLeft)
    (hplanes : A'.planes = A.planes ∨ ∃ p P P' msg, A.planes[p]? = some P ∧
      pushMessage P msg = some P' ∧ A'.planes = A.planes.set p P')
    (hes : ∀ b, ∀ e ∈ es, e.startedBy b = false ∧ e.reportedBy b = false)
    (howed : A'.pc.owes + A'.countdown ≤ A.pc.owes + A.countdown) : Repays a A A' es := by
  obtain ⟨hlock, hinbox, hpc⟩ := hA
  obtain ⟨hstart, hreport⟩ := countP_eq_zero_of_quiet (hes a)
  have hheld : Held A'.leftLock (holdsLeft A'.pc A.planes) := by
    rw [hlock]
    exact held_listen_keep h hpc
  rw [← Nat.zero_add (A'.pc.owes + _), ← hreport] at howed
  rcases hplanes with hplanes | ⟨p, P, P', msg, hP, hpush, hplanes⟩
  · refine .listener (by rw [hplanes]) hinbox ?_ hstart howed fun b _ => hes b
    unfold AirlineState.Locked
    rw [hplanes]
    exact hheld
  · have hsame : P'.pc = P.pc ∧ P'.reporting = P.reporting := by
      unfold pushMessage at hpush
      split at hpush <;> cases hpush
      exact ⟨rfl, rfl⟩
    refine .listener ?_ hinbox ?_ hstart howed fun b _ => hes b
    · rw [hplanes]
      exact countP_set_of_eq (·.reporting) hP hsame.2
    · unfold AirlineState.Locked
      rw [hplanes]
      exact held_keep hheld hP (by rw [hsame.1])

/-- The listener goes on with nothing ahead of it. -/
theorem Repays.pass {pc' : ListenPc} (h : A.Locked) (hpc : pc'.holdsLeft = A.pc.holdsLeft)
    (hscan : ∀ phase i, A.pc ≠ .scan phase i) (howes : pc'.owes = 0)
    (hes : ∀ b, ∀ e ∈ es, e.startedBy b = false ∧ e.reportedBy b = false) :
    Repays a A { A with pc := pc' } es :=
  .listen h ⟨rfl, rfl, hpc⟩ (.inl rfl) hes (AirlineState.owes_countdown_le rfl hscan howes)

/-- It pushes a message on its way. -/
theorem Repays.push {pc' : ListenPc} {msg : Message} {P' : PlaneThread} (h : A.Locked)
    (hP : A.planes[p]? = some P) (hpush : pushMessage P msg = some P')
    (hpc : pc'.holdsLeft = A.pc.holdsLeft) (hscan : ∀ phase i, A.pc ≠ .scan phase i)
    (howes : pc'.owes = 0)
    (hes : ∀ b, ∀ e ∈ es, e.startedBy b = false ∧ e.reportedBy b = false) :
    Repays a A ({ A with pc := pc' }.setPlane p P') es :=
  .listen h ⟨rfl, rfl, hpc⟩ (.inr ⟨p, P, P', msg, hP, hpush, rfl⟩) hes
    (AirlineState.owes_countdown_le rfl hscan howes)

theorem countP_got (a : ℕ) (msg : MapMessage) (planes : List (Bool × Int)) :
    [Event.got a msg planes].countP (Event.startedBy a) = if msg.isStart then 1 else 0 := by
  simp [Event.startedBy, List.countP_singleton]

/-- It takes a message. -/
theorem Repays.receive {msg : MapMessage} {inbox : List MapMessage} {planes : List (Bool × Int)}
    (h : A.Locked) (hpc : A.pc = .recv) (hinbox : A.inbox = msg :: inbox)
    (hA : A' = { A with inbox := inbox, stage := A'.stage, pc := A'.pc })
    (hheld : A'.pc.holdsLeft = false) (hscan : ∀ phase i, A'.pc ≠ .scan phase i)
    (howes : A'.pc.owes = if msg.isStart then 1 else 0) : Repays a A A' [.got a msg planes] where
  locked := by
    rw [hA]
    exact held_listen_keep h (by rw [hheld, hpc]; rfl)
  inbox := by
    have hinbox' : A'.inbox = inbox := by rw [hA]
    rw [hinbox, hinbox', countP_got, List.countP_cons]
    exact Nat.add_comm _ _
  own b hb e he := by
    rw [List.mem_singleton.mp he]
    simp [Event.startedBy, Event.reportedBy, Ne.symm hb]
  owed := by
    have hplanes : A'.planes = A.planes := by rw [hA]
    have hleft : A'.planesLeft = A.planesLeft := by rw [hA]
    unfold AirlineState.owed
    rw [AirlineState.countdown_eq hscan, AirlineState.countdown_eq (by simp [hpc]), hplanes, hleft,
      howes, hpc, countP_got]
    show 0 + _ ≤ _ + (_ + 0 + _)
    omega

theorem repays_listenStep {r : AirlineStep} (h : A.Locked)
    (hstep : listenStep a room A = some r) : Repays a A r.2.1 r.1 := by
  have hnothing : ∀ b, ∀ e ∈ ([] : List Event), e.startedBy b = false ∧ e.reportedBy b = false := by
    simp
  unfold listenStep at hstep
  cases hpc : A.pc with
  | recv =>
    simp only [hpc] at hstep
    cases hinbox : A.inbox with
    | nil =>
      rw [hinbox] at hstep
      cases hstep
    | cons msg inbox =>
      rw [hinbox] at hstep
      cases msg <;> cases hstep <;>
        exact .receive h hpc hinbox rfl rfl (by simp) rfl
  | lockLeft phase =>
    simp only [hpc] at hstep
    split at hstep <;> cases hstep
    rename_i hfree
    have hheld : Held A.leftLock (holdsLeft A.pc A.planes) := h
    rw [hfree] at hheld
    refine .listener rfl rfl (held_listen_acquire hheld rfl) rfl ?_ fun b _ => hnothing b
    rw [hpc]
    exact Nat.le_add_right 1 _
  | scan phase i =>
    simp only [hpc] at hstep
    split at hstep <;> cases hstep
    · refine .listen h ⟨rfl, rfl, by rw [hpc]; rfl⟩ (.inl rfl) hnothing ?_
      rw [hpc]
      exact Nat.le_add_right 1 _
    · refine .listen h ⟨rfl, rfl, ?_⟩ (.inl rfl) hnothing ?_
      · rw [hpc]
        dsimp only
        split <;> rfl
      · rw [hpc]
        dsimp only
        split
        · rename_i hzero
          simp [AirlineState.countdown, ListenPc.owes, ahead, hzero]
        · exact (Nat.add_le_add_left (AirlineState.countdown_le _) 0).trans (Nat.le_add_right 1 _)
  | report pc =>
    simp only [hpc] at hstep
    obtain ⟨r, hreport, rfl⟩ := Option.map_eq_some_iff.mp hstep
    have hahead := ahead_reportStep hreport
    refine .listener rfl rfl (held_listen_keep h ?_) startedBy_sentEvents ?_ fun b hb e he =>
      own_sentEvents hb he
    · rw [hpc]
      cases r.next <;> rfl
    · refine (Nat.add_le_add_right reportedBy_sentEvents _).trans ?_
      rw [hpc, show A.countdown = _ from AirlineState.countdown_eq (by simp [hpc]),
        AirlineState.countdown_eq (by cases r.next <;> simp)]
      show _ ≤ ahead (some pc) + _
      rw [← hahead, ← Nat.add_assoc]
      cases r.next <;> exact le_rfl
  | bcast phase i =>
    simp only [hpc] at hstep
    have hscan : ∀ phase i, A.pc ≠ .scan phase i := by simp [hpc]
    split at hstep
    · rename_i P hP
      split at hstep
      · cases hstep
        exact .pass h (by rw [hpc]; rfl) hscan rfl hnothing
      · obtain ⟨P', hpush, rfl⟩ := Option.map_eq_some_iff.mp hstep
        exact .push h hP hpush (by rw [hpc]; rfl) hscan rfl hnothing
    · cases hstep
      exact .pass h (by rw [hpc]; rfl) hscan rfl hnothing
  | unlockLeft =>
    simp only [hpc] at hstep
    cases hstep
    refine .listener rfl rfl (held_listen_release h (by rw [hpc]; rfl) rfl) rfl ?_ fun b _ =>
      hnothing b
    simp [AirlineState.countdown, hpc, ListenPc.owes]
  | push id msg =>
    simp only [hpc] at hstep
    have hscan : ∀ phase i, A.pc ≠ .scan phase i := by simp [hpc]
    split at hstep
    · rename_i P hP
      obtain ⟨P', hpush, rfl⟩ := Option.map_eq_some_iff.mp hstep
      obtain ⟨p, rfl, hP⟩ := getFromVector_eq_some hP
      exact .push h hP hpush (by rw [hpc]; rfl) hscan rfl hnothing
    · cases hstep
      exact .pass h (by rw [hpc]; rfl) hscan rfl (by simp [Event.startedBy, Event.reportedBy])
  | finish i =>
    simp only [hpc] at hstep
    have hscan : ∀ phase i, A.pc ≠ .scan phase i := by simp [hpc]
    split at hstep
    · rename_i P hP
      split at hstep
      · cases hstep
        exact .pass h (by rw [hpc]; rfl) hscan rfl hnothing
      · obtain ⟨P', hpush, rfl⟩ := Option.map_eq_some_iff.mp hstep
        exact .push h hP hpush (by rw [hpc]; rfl) hscan rfl
          (by simp [Event.startedBy, Event.reportedBy])
    · cases hstep
      exact .pass h (by rw [hpc]; rfl) hscan rfl hnothing
  | join i =>
    simp only [hpc] at hstep
    have hscan : ∀ phase i, A.pc ≠ .scan phase i := by simp [hpc]
    split at hstep
    · split at hstep <;> cases hstep
      exact .pass h (by rw [hpc]; rfl) hscan rfl hnothing
    · cases hstep
      exact .pass h (by rw [hpc]; rfl) hscan rfl hnothing
  | stopped =>
    simp only [hpc] at hstep
    cases hstep

/-- A failing receive of the listener ends it. -/
theorem repays_listenFail (h : A.Locked) (hfail : listenFail A = some A') : Repays a A A' [] := by
  unfold listenFail at hfail
  split at hfail <;> cases hfail
  rename_i hpc
  exact .pass h (by rw [hpc]; rfl) (by simp [hpc]) rfl (by simp)

end Steps

end PlaneSim
