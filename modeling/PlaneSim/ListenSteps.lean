import PlaneSim.PlaneSteps

/-!
# The steps of the listener

Every step of the listener keeps its airline in order (`listen_stepped`): it takes what the map
sent, counts the planes, starts them or reports for them, hands replies on, and tells every plane
that is not retired to end.
-/

namespace PlaneSim

open Lts Update Lock

section Steps

variable {a : ℕ} {ph : Phase} {st : Status} {A A' : AirlineState} {ts : List TurnPlane}
  {out : List PlaneMessage} {pend : List MapMessage} {p : ℕ} {P P' : PlaneThread}
  {t t' : TurnPlane}

/-- Where the listener is tells how far the airline has come. -/
theorem AirlineOk.listener_cases (h : AirlineOk a ph st A ts out pend) :
    (st = .busy ∧ A.stage = ph ∧ Owned A out pend ∧ Busy a ph A ts A.pc) ∨
      (st = .ending ∧ ph = .one ∧ A.inbox = [] ∧ out = [] ∧ pend = [] ∧
        (∀ P ∈ A.planes, P.active = false ∧ P.reporting = false) ∧ Ending A ts A.pc) ∨
      (st ≠ .busy ∧ st ≠ .ending ∧ Quiet ph st A ts out pend) := by
  have hs := h.status
  cases st with
  | busy => exact .inl ⟨rfl, hs⟩
  | ending => exact .inr (.inl ⟨rfl, hs⟩)
  | waiting | told | reported | counted | toldEnd => exact .inr (.inr ⟨by simp, by simp, hs⟩)

theorem Quiet.statusOk (h : Quiet ph st A ts out pend) (hbusy : st ≠ .busy)
    (hending : st ≠ .ending) : StatusOk a ph A ts out pend st := by
  cases st with
  | busy => exact absurd rfl hbusy
  | ending => exact absurd rfl hending
  | waiting | told | reported | counted | toldEnd => exact h

/-- The listener goes on; no message moves and no plane changes. -/
theorem AirlineOk.listen (h : AirlineOk a ph st A ts out pend) (hplanes : A'.planes = A.planes)
    (hinbox : A'.inbox = A.inbox) (hpushed : pushed A'.pc = pushed A.pc)
    (hleft : Held A'.leftLock (holdsLeft A'.pc A.planes))
    (hconn : Held A'.conn (holdsConn A'.pc A.planes))
    (hstatus : StatusOk a ph A' ts out pend st) : Stepped a ph st A ts out pend [] A' none := by
  refine ⟨st, ts, ?_, .stay rfl, ⟨Follows.of_planes hplanes (by simp) (by simp) (by simp), by simp,
    .stay⟩⟩
  rw [Option.toList_none, List.append_nil]
  have hcarried : A'.carried pend = A.carried pend := by
    unfold AirlineState.carried
    rw [hpushed, hinbox]
  refine ⟨by rw [hplanes]; exact h.length, ?_, by rw [hplanes]; exact hleft,
    by rw [hplanes]; exact hconn, hstatus⟩
  intro p P t hP ht
  rw [hplanes] at hP
  rw [hcarried]
  exact h.planes p P t hP ht

theorem Owned.listen (h : Owned A out pend) (hplanes : A'.planes = A.planes)
    (hinbox : A'.inbox = A.inbox) (hpushed : pushed A'.pc = pushed A.pc) : Owned A' out pend where
  out := by rw [hplanes]; exact h.out
  reply := by rw [hinbox]; exact h.reply
  carried := by
    unfold AirlineState.carried
    rw [hpushed, hinbox, hplanes]
    exact h.carried

theorem Flying.congr (h : Flying a ph A ts) (hplanes : A'.planes = A.planes)
    (hleft : A'.planesLeft = A.planesLeft) : Flying a ph A' ts := by
  have hflags : A'.done = A.done := by
    unfold AirlineState.done
    rw [hplanes]
  refine ⟨?_, ?_, ?_, ?_⟩
  · intro p P t hP ht
    rw [hplanes] at hP
    exact h.todo p P t hP ht
  · rw [hleft, hplanes]
    exact h.left
  · rw [hleft, hplanes]
    exact h.reporter
  · rw [hleft, hplanes, hflags]
    exact h.report

/-! ## Taking a message -/

/-- A calm plane has an empty queue. -/
theorem PlaneOk.queue_of_calm {rq : List PlaneMessage} {rp : List Message} {fresh : Bool}
    (h : PlaneOk a ph false P t rq rp) (hc : Calm fresh P t) : P.queue = [] := by
  have hs := h.station
  have hactive := hc.active
  have hreporting := hc.reporting
  unfold PlaneThread.active at hactive
  unfold PlaneThread.reporting at hreporting
  cases hst : P.pc.station with
  | rest w =>
    rw [hst] at hs hactive
    cases hs.2.2.2.2 with
    | retired _ queue _ | waiting _ queue _ => exact queue
    | started _ queue _ _ => simp [queue] at hactive
    | leaving _ _ _ _ _ ending => cases ending
  | gone =>
    rw [hst] at hs
    exact hs.2.2.2.1
  | work w | asked w | finished w => simp [hst] at hactive
  | reporting w => simp [hst] at hreporting

/-- Once the airline is ending, a plane may leave. -/
theorem PlaneOk.ending_mono {rq : List PlaneMessage} {rp : List Message}
    (h : PlaneOk a ph false P t rq rp) : PlaneOk a ph true P t rq rp := by
  refine ⟨?_, h.awake⟩
  have hs := h.station
  cases hst : P.pc.station with
  | rest w =>
    rw [hst] at hs
    refine ⟨hs.1, hs.2.1, hs.2.2.1, hs.2.2.2.1, ?_⟩
    cases hs.2.2.2.2 with
    | retired done queue todo => exact .retired done queue todo
    | waiting done queue todo => exact .waiting done queue todo
    | started done queue todo phase => exact .started done queue todo phase
    | leaving _ _ _ _ _ ending => cases ending
  | gone =>
    rw [hst] at hs
    obtain ⟨h1, h2, h3, h4, h5, h6⟩ := hs
    exact ⟨h1, h2, h3, h4, h5, .inr rfl⟩
  | work w | asked w | finished w | reporting w =>
    rw [hst] at hs
    exact hs

theorem AirlineOk.take (h : AirlineOk a ph st A ts out pend) (hpc : A.pc = .recv)
    {msg : MapMessage} {inbox : List MapMessage} (hinbox : A.inbox = msg :: inbox) {pc' : ListenPc}
    {stage : Phase}
    (hnew : (∃ w, msg = .start w ∧ stage = w ∧ pc' = .lockLeft w) ∨
      (msg = .finish ∧ stage = A.stage ∧ pc' = .finish 0) ∨
      ∃ x, redirect msg = some x ∧ stage = A.stage ∧ pc' = .push x.1 x.2) :
    Stepped a ph st A ts out pend [.got a msg A.snapshot]
      { A with inbox := inbox, stage := stage, pc := pc' } none := by
  have hleft : ∀ pc', pc'.holdsLeft = false → Held A.leftLock (holdsLeft pc' A.planes) :=
    fun pc' hpc' => held_listen_keep h.left (by rw [hpc]; exact hpc')
  have hconn : ∀ pc', pc'.holdsConn = false → Held A.conn (holdsConn pc' A.planes) :=
    fun pc' hpc' => held_listen_keep h.conn (by rw [hpc]; exact hpc')
  rcases h.listener_cases with ⟨rfl, hstage, hown, hbusy⟩ | ⟨-, -, hempty, -⟩ | ⟨-, -, hquiet⟩
  · -- a reply
    obtain ⟨x, hx⟩ := hown.reply msg (by rw [hinbox]; simp)
    obtain ⟨y, hy, rfl, rfl⟩ : ∃ y, redirect msg = some y ∧ stage = A.stage ∧ pc' = .push y.1 y.2 := by
      rcases hnew with ⟨w, rfl, -, -⟩ | ⟨rfl, -, -⟩ | hnew
      · cases hx
      · cases hx
      · exact hnew
    rw [hpc] at hbusy
    have hcarried : ({ A with inbox := inbox, pc := .push y.1 y.2 } : AirlineState).carried pend =
        A.carried pend := by
      unfold AirlineState.carried
      rw [hpc, hinbox, List.cons_append, List.filterMap_cons_some hy]
      rfl
    refine ⟨.busy, ts, ?_, .stay rfl, ⟨Follows.of_planes rfl ?_ (by simp) ?_,
      by simp [Event.isOf], .stay⟩⟩
    · rw [Option.toList_none, List.append_nil]
      refine ⟨h.length, ?_, hleft _ rfl, hconn _ rfl, hstage, ⟨hown.out, ?_, ?_⟩,
        Flying.congr hbusy rfl rfl⟩
      · rw [hcarried]
        exact h.planes
      · intro m hm
        refine hown.reply m ?_
        rw [hinbox]
        exact List.mem_cons_of_mem _ hm
      · rw [hcarried]
        exact hown.carried
    · cases msg with
      | start _ | finish => cases hy
      | destinations _ | stock _ => rfl
    · intro m planes hm
      simp only [List.mem_singleton, Event.got.injEq, true_and] at hm
      obtain ⟨rfl, rfl⟩ := hm
      refine ⟨rfl, fun w hw => ?_, fun hw => ?_⟩
      · subst hw
        cases hy
      · subst hw
        cases hy
  · rw [hempty] at hinbox
    cases hinbox
  · have hout : st = .told ∨ st = .toldEnd → out = [] := by
      intro hst
      have := hquiet.out
      rcases hst with rfl | rfl <;> simpa using this
    have hin := hquiet.inbox
    rw [hinbox] at hin
    obtain ⟨rfl⟩ : pend = [] := hquiet.pend
    cases st with
    | waiting | reported | counted | busy | ending => cases hin
    | told =>
      cases hin
      obtain rfl : out = [] := hout (.inl rfl)
      obtain ⟨rfl, rfl⟩ : stage = ph ∧ pc' = .lockLeft ph := by
        rcases hnew with ⟨w, hw, h1, h2⟩ | ⟨hw, -, -⟩ | ⟨x, hw, -, -⟩
        · cases hw
          exact ⟨h1, h2⟩
        · cases hw
        · cases hw
      have hcarried : A.carried [] = [] := by
        unfold AirlineState.carried
        rw [hpc, hinbox]
        rfl
      refine ⟨.busy, ts, ?_, .stay rfl, ⟨Follows.of_planes rfl ?_ (by simp) ?_,
        by simp [Event.isOf], .start⟩⟩
      · refine ⟨h.length, ?_, hleft _ rfl, hconn _ rfl, rfl, ⟨by simp, by simp, ?_⟩, rfl,
          hquiet.calm⟩
        · have := h.planes
          rw [hcarried] at this
          exact this
        · intro x hx
          cases hx
      · simp [Status.signals, Event.signal]
      · intro m planes hm
        simp only [List.mem_singleton, Event.got.injEq, true_and] at hm
        obtain ⟨rfl, rfl⟩ := hm
        exact ⟨rfl, fun _ _ => rfl, fun h => by cases h⟩
    | toldEnd =>
      cases hin
      obtain rfl : out = [] := hout (.inr rfl)
      obtain ⟨rfl, rfl⟩ : stage = A.stage ∧ pc' = .finish 0 := by
        rcases hnew with ⟨w, hw, -, -⟩ | ⟨-, h1, h2⟩ | ⟨x, hw, -, -⟩
        · cases hw
        · exact ⟨h1, h2⟩
        · cases hw
      have hcarried : A.carried [] = [] := by
        unfold AirlineState.carried
        rw [hpc, hinbox]
        rfl
      refine ⟨.ending, ts, ?_, .stay rfl, ⟨Follows.of_planes rfl ?_ (by simp) ?_,
        by simp [Event.isOf], .finish⟩⟩
      · refine ⟨h.length, fun p P t hP ht => ?_, hleft _ rfl, hconn _ rfl, hquiet.phase rfl, rfl,
          rfl, rfl, fun P hP => ?_, Nat.zero_le _, fun _ _ _ _ _ hlt => absurd hlt (by omega),
          fun p P t hP ht _ => ?_⟩
        · have := h.planes p P t hP ht
          rw [hcarried] at this
          exact this.ending_mono
        · obtain ⟨p, hp⟩ := List.mem_iff_getElem?.mp hP
          obtain ⟨t, ht⟩ := h.exists_abstract hp
          have := hquiet.calm p P t hp ht
          exact ⟨this.active, this.reporting⟩
        · have hcalm := hquiet.calm p P t hP ht
          exact ⟨(h.planes p P t hP ht).queue_of_calm hcalm, hcalm.todo⟩
      · simp [Status.signals, Event.signal]
      · intro m planes hm
        simp only [List.mem_singleton, Event.got.injEq, true_and] at hm
        obtain ⟨rfl, rfl⟩ := hm
        exact ⟨rfl, fun _ h => (by cases h), fun _ => rfl⟩

/-! ## Counting the planes -/

theorem AirlineOk.busy_of_pc (h : AirlineOk a ph st A ts out pend)
    (hpc : A.pc ≠ .recv ∧ A.pc ≠ .report .unlockConn ∧ A.pc ≠ .unlockLeft)
    (hnot : ¬Ending A ts A.pc) :
    st = .busy ∧ A.stage = ph ∧ Owned A out pend ∧ Busy a ph A ts A.pc := by
  rcases h.listener_cases with hbusy | ⟨-, -, -, -, -, -, hend⟩ | ⟨-, -, hquiet⟩
  · exact hbusy
  · exact absurd hend hnot
  · rcases hquiet.listener with hr | hr | hr
    · exact absurd hr hpc.1
    · exact absurd hr hpc.2.1
    · exact absurd hr hpc.2.2

/-- With no plane active the planes to start are those that are not done. -/
theorem countP_calm (h : AirlineOk a ph st A ts out pend) (hcalm : Planes A ts fun _ => Calm true) :
    A.planes.countP (fun P => P.active || !P.done) = A.done.count false := by
  rw [AirlineState.done, List.count, List.countP_map]
  refine List.countP_congr fun P hP => ?_
  obtain ⟨p, hp⟩ := List.mem_iff_getElem?.mp hP
  obtain ⟨t, ht⟩ := h.exists_abstract hp
  simp [(hcalm p P t hp ht).active]

theorem AirlineOk.scanStart (h : AirlineOk a ph st A ts out pend) {w : Phase}
    (hpc : A.pc = .lockLeft w) (hfree : A.leftLock = none) :
    Stepped a ph st A ts out pend []
      { A with leftLock := some .listener, planesLeft := 0, pc := .scan w 0 } none := by
  obtain ⟨rfl, hstage, hown, hbusy⟩ := h.busy_of_pc (by simp [hpc]) (by rw [hpc]; exact id)
  rw [hpc] at hbusy
  obtain ⟨rfl, hcalm⟩ := hbusy
  have hleft := h.left
  rw [hfree] at hleft
  exact h.listen rfl rfl (by rw [hpc]; rfl) (held_listen_acquire hleft rfl)
    (held_listen_keep h.conn (by rw [hpc]; rfl))
    ⟨hstage, hown.listen rfl rfl (by rw [hpc]; rfl), rfl, Nat.zero_le _, hcalm, by simp⟩

theorem AirlineOk.scanPlane (h : AirlineOk a ph st A ts out pend) {w : Phase} {i : ℕ}
    (hpc : A.pc = .scan w i) (hP : A.planes[i]? = some P) :
    Stepped a ph st A ts out pend []
      { A with planesLeft := if P.done then A.planesLeft else A.planesLeft + 1
               pc := .scan w (i + 1) } none := by
  obtain ⟨rfl, hstage, hown, hbusy⟩ := h.busy_of_pc (by simp [hpc]) (by rw [hpc]; exact id)
  rw [hpc] at hbusy
  obtain ⟨rfl, -, hcalm, hcount⟩ := hbusy
  have hlt := (List.getElem?_eq_some_iff.mp hP).1
  refine h.listen rfl rfl (by rw [hpc]; rfl) (held_listen_keep h.left (by rw [hpc]; rfl))
    (held_listen_keep h.conn (by rw [hpc]; rfl))
    ⟨hstage, hown.listen rfl rfl (by rw [hpc]; rfl), rfl, hlt, hcalm, ?_⟩
  have hget : A.done[i]? = some P.done := by simp [AirlineState.done, hP]
  show (if P.done then A.planesLeft else A.planesLeft + 1) = (((A.done.take (i + 1)).count false : ℕ) : Int)
  rw [List.take_add_one, hget, List.count_append, hcount]
  cases P.done <;> simp

theorem AirlineOk.scanEnd (h : AirlineOk a ph st A ts out pend) {w : Phase} {i : ℕ}
    (hpc : A.pc = .scan w i) (hP : A.planes[i]? = none) :
    Stepped a ph st A ts out pend []
      { A with pc := if A.planesLeft = 0 then .report .stage else .bcast w 0 } none := by
  obtain ⟨rfl, hstage, hown, hbusy⟩ := h.busy_of_pc (by simp [hpc]) (by rw [hpc]; exact id)
  rw [hpc] at hbusy
  obtain ⟨rfl, -, hcalm, hcount⟩ := hbusy
  have hge := List.getElem?_eq_none_iff.mp hP
  rw [List.take_of_length_le (by simpa [AirlineState.done] using hge)] at hcount
  by_cases hzero : A.planesLeft = 0
  · rw [if_pos hzero]
    refine h.listen rfl rfl (by rw [hpc]; rfl) (held_listen_keep h.left (by rw [hpc]; rfl))
      (held_listen_keep h.conn (by rw [hpc]; rfl))
      ⟨hstage, hown.listen rfl rfl (by rw [hpc]; rfl), hcalm, fun P hP => ?_, trivial⟩
    have hnone : A.done.count false = 0 := by omega
    have hmem : P.done ∈ A.done := List.mem_map_of_mem hP
    by_contra hdone
    rw [show P.done = false by simpa using hdone] at hmem
    exact List.count_eq_zero.mp hnone hmem
  · rw [if_neg hzero]
    refine h.listen rfl rfl (by rw [hpc]; rfl) (held_listen_keep h.left (by rw [hpc]; rfl))
      (held_listen_keep h.conn (by rw [hpc]; rfl))
      ⟨hstage, hown.listen rfl rfl (by rw [hpc]; rfl), rfl, Nat.zero_le _, ?_, ?_,
        fun _ _ _ _ _ hlt => absurd hlt (by omega), fun p P t hP ht _ => hcalm p P t hP ht⟩
    · show 0 < A.planesLeft
      omega
    · show A.planesLeft = _
      rw [hcount]
      exact congrArg Nat.cast (countP_calm h hcalm).symm

/-! ## Starting the planes -/

/-- A plane that is not started and not done waits for this phase. -/
theorem PlaneOk.waiting {rq : List PlaneMessage} {rp : List Message} {ending : Bool}
    (h : PlaneOk a ph ending P t rq rp) (hactive : P.active = false)
    (hreporting : P.reporting = false) (htodo : t.todo = !P.done) (hdone : P.done = false)
    (hqueue : P.queue = []) :
    P.pc.station = .rest ph ∧ rq = [] ∧ rp = [] ∧ t.plane = P.plane ∧ t.done = P.done := by
  have hs := h.station
  unfold PlaneThread.active at hactive
  unfold PlaneThread.reporting at hreporting
  rw [hdone] at htodo
  cases hst : P.pc.station with
  | rest w =>
    rw [hst] at hs
    obtain ⟨h1, h2, h3, h4, hrest⟩ := hs
    cases hrest with
    | retired done _ _ =>
      rw [hdone] at done
      cases done
    | waiting _ _ todo =>
      obtain rfl : ph = w := by
        rw [htodo] at todo
        simpa using todo
      exact ⟨rfl, h1, h2, h3, h4⟩
    | started _ queue _ _ | leaving _ queue _ _ _ _ =>
      rw [hqueue] at queue
      cases queue
  | gone =>
    rw [hst] at hs
    obtain ⟨-, -, -, -, h5, -⟩ := hs
    rw [hdone] at h5
    cases h5
  | work w | asked w | finished w => simp [hst] at hactive
  | reporting w => simp [hst] at hreporting

theorem AirlineOk.startPlane (h : AirlineOk a ph st A ts out pend) {w : Phase} {i : ℕ}
    (hpc : A.pc = .bcast w i) (hP : A.planes[i]? = some P) (hdone : P.done = false) :
    P.queue = [] ∧ Stepped a ph st A ts out pend []
      ({ A with pc := .bcast w (i + 1) }.setPlane i { P with queue := P.queue ++ [Message.start w] })
      none := by
  obtain ⟨rfl, hstage, hown, hbusy⟩ := h.busy_of_pc (by simp [hpc]) (by rw [hpc]; exact id)
  rw [hpc] at hbusy
  obtain ⟨rfl, -, hpos, hcount, hlow, hhigh⟩ := hbusy
  obtain ⟨t, ht⟩ := h.exists_abstract hP
  have hcalm := hhigh i P t hP ht le_rfl
  have hok := h.planeOk hP ht
  have hqueue := hok.queue_of_calm hcalm
  obtain ⟨hstation, hrq, hrp, hplane, htdone⟩ :=
    hok.waiting hcalm.active hcalm.reporting hcalm.todo hdone hqueue
  have htodo : t.todo = true := by rw [hcalm.todo, hdone]; rfl
  refine ⟨hqueue, ?_⟩
  rw [hqueue, List.nil_append]
  let P' : PlaneThread := { P with queue := [.start w] }
  let A' : AirlineState := { A with pc := .bcast w (i + 1) }.setPlane i P'
  have hplanes : A'.planes = A.planes.set i P' := rfl
  have hactive : P'.active = true := active_of_started hstation rfl
  have hcarried : A'.carried pend = A.carried pend := by
    unfold AirlineState.carried
    rw [hpc]
    rfl
  have hlt := (List.getElem?_eq_some_iff.mp hP).1
  refine ⟨.busy, ts, ?_, .stay rfl, ?_⟩
  · rw [Option.toList_none, List.append_nil, ← set_self ht]
    refine ⟨?_, ?_, held_listen_keep (held_keep h.left hP rfl) (by rw [hpc]; rfl),
      held_listen_keep (held_keep h.conn hP rfl) (by rw [hpc]; rfl), hstage, ⟨?_, hown.reply, ?_⟩,
      rfl, ?_, hpos, ?_, ?_, ?_⟩
    · rw [hplanes, List.length_set, List.length_set, h.length]
    · rw [hcarried]
      refine h.planes.set hP ht hplanes ⟨?_, fun _ => hdone⟩ fun _ _ _ _ h => h
      show StationOk _ _ _ _ _ _ _ P.pc.station
      rw [hstation]
      exact ⟨hrq, hrp, hplane, htdone, .started hdone rfl htodo rfl⟩
    · rw [hplanes, List.length_set]
      exact hown.out
    · rw [hcarried, hplanes, List.length_set]
      exact hown.carried
    · rw [hplanes, List.length_set]
      exact hlt
    · rw [hplanes, countP_set_of_eq _ hP (by rw [hactive, hdone]; simp)]
      exact hcount
    · refine hlow.set hP ht hplanes (fun _ => .inl hactive) fun q X x hq h hle => h (by omega)
    · refine hhigh.set hP ht hplanes (fun hle => absurd hle (by omega)) fun q X x hq h hle =>
        h (by omega)
  · have hemits : Emits a w [] .busy A ts .busy A' (ts.set i t) := Emits.of_set .stay hP ht hplanes (by simp) (by simp)
      (fun grounded hg => ⟨hg, by rw [doneSoFar_todo htodo]; simp⟩) (.inl rfl)
      (fun _ h => by cases h) (by simp) (by simp)
    rwa [set_self ht] at hemits

theorem AirlineOk.skipPlane (h : AirlineOk a ph st A ts out pend) {w : Phase} {i : ℕ}
    (hpc : A.pc = .bcast w i) (hP : A.planes[i]? = some P) (hdone : P.done = true) :
    Stepped a ph st A ts out pend [] { A with pc := .bcast w (i + 1) } none := by
  obtain ⟨rfl, hstage, hown, hbusy⟩ := h.busy_of_pc (by simp [hpc]) (by rw [hpc]; exact id)
  rw [hpc] at hbusy
  obtain ⟨rfl, -, hpos, hcount, hlow, hhigh⟩ := hbusy
  have hlt := (List.getElem?_eq_some_iff.mp hP).1
  refine h.listen rfl rfl (by rw [hpc]; rfl) (held_listen_keep h.left (by rw [hpc]; rfl))
    (held_listen_keep h.conn (by rw [hpc]; rfl))
    ⟨hstage, hown.listen rfl rfl (by rw [hpc]; rfl), rfl, hlt, hpos, hcount,
      fun p X x hX hx hle => ?_, fun p X x hX hx hle => hhigh p X x hX hx (by omega)⟩
  by_cases hp : p = i
  · subst hp
    rw [show P = X from Option.some.inj (hP.symm.trans hX)] at hdone
    have hcalm := hhigh p X x hX hx le_rfl
    exact .inr ⟨hdone, by rw [hcalm.todo, hdone]; rfl⟩
  · exact hlow p X x hX hx (by omega)

theorem AirlineOk.startEnd (h : AirlineOk a ph st A ts out pend) {w : Phase} {i : ℕ}
    (hpc : A.pc = .bcast w i) (hP : A.planes[i]? = none) :
    Stepped a ph st A ts out pend [] { A with pc := .unlockLeft } none := by
  obtain ⟨rfl, hstage, hown, hbusy⟩ := h.busy_of_pc (by simp [hpc]) (by rw [hpc]; exact id)
  rw [hpc] at hbusy
  obtain ⟨rfl, -, hpos, hcount, hlow, -⟩ := hbusy
  have hge := List.getElem?_eq_none_iff.mp hP
  have hstarted : ∀ (p : ℕ) (X : PlaneThread) (x : TurnPlane), A.planes[p]? = some X → ts[p]? = some x →
      X.active = true ∨ X.done = true ∧ x.todo = false := fun p X x hX hx =>
    hlow p X x hX hx (lt_of_lt_of_le (List.getElem?_eq_some_iff.mp hX).1 hge)
  have hfly : Flying a w { A with pc := .unlockLeft } ts := by
    refine ⟨fun p X x hX hx hin => ?_, ?_, fun hzero => ?_, fun X hX ph' pc hXpc hne => ?_⟩
    · rcases hstarted p X x hX hx with hact | ⟨-, htodo⟩
      · rw [hact] at hin
        cases hin
      · exact htodo
    · show A.planesLeft = _
      rw [hcount]
      refine congrArg Nat.cast (List.countP_congr fun X hX => ?_)
      obtain ⟨p, hp⟩ := List.mem_iff_getElem?.mp hX
      obtain ⟨x, hx⟩ := h.exists_abstract hp
      rcases hstarted p X x hp hx with hact | ⟨hd, -⟩
      · simp [hact]
      · simp [hd]
    · exact absurd hpos (by rw [show A.planesLeft = 0 from hzero]; simp)
    · -- the listener holds `planesLeftLock`
      obtain ⟨p, hp⟩ := List.mem_iff_getElem?.mp hX
      cases h.left.unique (i := .listener) (j := .plane p) (show A.pc.holdsLeft = true by rw [hpc]; rfl)
        ((holds_plane hp).mpr (by rw [hXpc]; rfl))
  exact h.listen rfl rfl (by rw [hpc]; rfl) (held_listen_keep h.left (by rw [hpc]; rfl))
    (held_listen_keep h.conn (by rw [hpc]; rfl))
    ⟨hstage, hown.listen rfl rfl (by rw [hpc]; rfl), hfly⟩

theorem AirlineOk.unlock (h : AirlineOk a ph st A ts out pend) (hpc : A.pc = .unlockLeft) :
    Stepped a ph st A ts out pend [] { A with leftLock := none, pc := .recv } none := by
  refine h.listen rfl rfl (by rw [hpc]; rfl) (held_listen_release h.left (by rw [hpc]; rfl) rfl)
    (held_listen_keep h.conn (by rw [hpc]; rfl)) ?_
  rcases h.listener_cases with ⟨rfl, hstage, hown, hbusy⟩ | ⟨-, -, -, -, -, -, hend⟩ |
    ⟨hne, hne', hquiet⟩
  · rw [hpc] at hbusy
    exact ⟨hstage, hown.listen rfl rfl (by rw [hpc]; rfl), Flying.congr hbusy rfl rfl⟩
  · rw [hpc] at hend
    exact hend.elim
  · have hq : Quiet ph st { A with leftLock := none, pc := .recv } ts out pend :=
      ⟨.inl rfl, hquiet.inbox, hquiet.pend, hquiet.calm, hquiet.out, hquiet.phase⟩
    exact hq.statusOk hne hne'

/-! ## Reporting for planes that are all retired -/

theorem AirlineOk.listenReport {room : Bool} (h : AirlineOk a ph st A ts out pend) {pc : ReportPc}
    (hpc : A.pc = .report pc) {r : ReportStep} (hr : reportStep a room A .listener pc = some r)
    {pc' : ListenPc}
    (hnew : pc' = match r.next with
      | some pc => .report pc
      | none => .unlockLeft) :
    Stepped a ph st A ts out pend (sentEvents a A r.sent) { A with conn := r.conn, pc := pc' }
      r.sent := by
  have hleft : ∀ pc', pc'.holdsLeft = true → Held A.leftLock (holdsLeft pc' A.planes) :=
    fun pc' hpc' => held_listen_keep h.left (by rw [hpc]; exact hpc')
  rcases h.listener_cases with ⟨rfl, hstage, hown, hbusy⟩ | ⟨-, -, -, -, -, -, hend⟩ |
    ⟨hne, hne', hquiet⟩
  · rw [hpc] at hbusy
    obtain ⟨hcalm, hdone, hreport⟩ := hbusy
    rcases reportStep_cases hr hstage hreport with
      ⟨next, hnext, -, hok, hsent, hconn⟩ | ⟨msg, rfl, -, hnext, hconn, hsent, hmsg⟩
    · rw [hnext] at hnew
      subst hnew
      rw [hsent]
      refine h.listen rfl rfl (by rw [hpc]; rfl) (hleft _ rfl) ?_
        ⟨hstage, hown.listen rfl rfl (by rw [hpc]; rfl), hcalm, hdone, hok⟩
      rcases hconn with ⟨hconn, hsame⟩ | ⟨hfree, hconn, htaken⟩
      · rw [hconn]
        exact held_listen_keep h.conn (by rw [hpc]; exact hsame)
      · have hold := h.conn
        rw [hfree] at hold
        rw [hconn]
        exact held_listen_acquire hold htaken
    · -- no plane is active, so the report is all there is
      have hinactive : ∀ P ∈ A.planes, P.active = false := by
        intro P hP
        obtain ⟨p, hp⟩ := List.mem_iff_getElem?.mp hP
        obtain ⟨t, ht⟩ := h.exists_abstract hp
        exact (hcalm p P t hp ht).active
      obtain ⟨rfl, hinbox, rfl, -⟩ := h.nothing hown hinactive
      have hspec := reportMessage_spec a A.done ph
      rw [← hmsg] at hspec
      have hnone : ∀ q, requestsOf q [msg] = requestsOf q [] := by
        intro q
        unfold requestsOf
        simp [hspec.2]
      rw [hnext] at hnew
      subst hnew
      rw [hsent, hconn]
      refine ⟨.reported, ts, ?_, .stay rfl, ⟨Follows.of_planes rfl
        (by simp [sentEvents, Event.signal, hspec.1, Status.signals]) (fun m flags hm _ => ?_)
        (by simp [sentEvents]), by simp [sentEvents, Event.isOf], .report⟩⟩
      · refine ⟨h.length, ?_, hleft _ rfl, held_listen_keep h.conn (by rw [hpc]; rfl),
          quiet_reported (.inr rfl) hinbox (fun p P t hP ht => ?_) hspec.1⟩
        · intro p P t hP ht
          have := h.planes p P t hP ht
          rw [show A.carried [] = ({ A with pc := .report .unlockConn } : AirlineState).carried [] by
            unfold AirlineState.carried; rw [hpc]; rfl] at this
          rw [List.nil_append, Option.toList_some, hnone p]
          exact this
        · have := hcalm p P t hP ht
          exact ⟨this.active, this.reporting,
            by rw [this.todo, hdone P (List.mem_of_getElem? hP)]; rfl⟩
      · simp only [sentEvents, List.mem_singleton, Event.sent.injEq, true_and] at hm
        obtain ⟨rfl, rfl⟩ := hm
        exact ⟨rfl, hmsg⟩
  · rw [hpc] at hend
    exact hend.elim
  · obtain rfl : pc = .unlockConn := by
      rcases hquiet.listener with hl | hl | hl
      · rw [hpc] at hl
        cases hl
      · rw [hpc] at hl
        cases hl
        rfl
      · rw [hpc] at hl
        cases hl
    cases hr
    subst hnew
    have hq : Quiet ph st { A with conn := none, pc := .unlockLeft } ts out pend :=
      ⟨.inr (.inr rfl), hquiet.inbox, hquiet.pend, hquiet.calm, hquiet.out, hquiet.phase⟩
    exact h.listen rfl rfl (by rw [hpc]; rfl) (hleft _ rfl)
      (held_listen_release h.conn (by rw [hpc]; rfl) rfl) (hq.statusOk hne hne')

/-! ## Handing on a reply -/

theorem repliesTo_cons (q : ℕ) (id : Int) (msg : Message) (l : List (Int × Message)) :
    repliesTo q ((id, msg) :: l) = if id = q then msg :: repliesTo q l else repliesTo q l := by
  unfold repliesTo
  rw [List.filterMap_cons]
  by_cases h : id = q
  · simp [h]
  · simp [h]

theorem AirlineOk.handOn (h : AirlineOk a ph st A ts out pend) {id : Int} {msg : Message}
    (hpc : A.pc = .push id msg) :
    ∃ (p : ℕ) (P : PlaneThread), id = p ∧ A.planes[p]? = some P ∧ P.queue = [] ∧
      Stepped a ph st A ts out pend []
        ({ A with pc := .recv }.setPlane p { P with queue := P.queue ++ [msg] }) none := by
  obtain ⟨rfl, hstage, hown, hbusy⟩ := h.busy_of_pc (by simp [hpc]) (by rw [hpc]; exact fun h => h)
  rw [hpc] at hbusy
  have hsplit : A.carried pend = (id, msg) :: (A.inbox ++ pend).filterMap redirect := by
    unfold AirlineState.carried
    rw [hpc]
    rfl
  obtain ⟨p, hp, hid⟩ := hown.carried (id, msg) (by rw [hsplit]; simp)
  have hid : id = p := hid
  have hP := List.getElem?_eq_getElem hp
  generalize A.planes[p] = P at hP
  obtain ⟨t, ht⟩ := h.exists_abstract hP
  have hok := h.planeOk hP ht
  have hrp : repliesTo p (A.carried pend) =
      msg :: repliesTo p ((A.inbox ++ pend).filterMap redirect) := by
    rw [hsplit, repliesTo_cons, if_pos hid]
  have hs := hok.station
  rw [hrp] at hs
  obtain ⟨w, hstation⟩ : ∃ w, P.pc.station = .asked w := by
    cases hst : P.pc.station with
    | asked w => exact ⟨w, rfl⟩
    | rest w | work w | finished w | reporting w | gone =>
      rw [hst] at hs
      cases hs.2.1
  rw [hstation] at hs
  obtain ⟨rfl, hdone, hasked⟩ := hs
  cases hasked with
  | request _ _ _ _ _ _ _ rp => cases rp
  | reply m htodo take hrq rp =>
    rw [List.cons_append] at rp
    obtain ⟨rfl, hrest⟩ := List.cons.inj rp
    obtain ⟨hrest, hqueue⟩ := List.append_eq_nil_iff.mp hrest
    refine ⟨p, P, hid, hP, hqueue, ?_⟩
    rw [hqueue, List.nil_append]
    let P' : PlaneThread := { P with queue := [msg] }
    let A' : AirlineState := { A with pc := .recv }.setPlane p P'
    have hplanes : A'.planes = A.planes.set p P' := rfl
    have hactive : P.active = true := by simp [PlaneThread.active, hstation]
    have hactive' : P'.active = true := by simp [P', PlaneThread.active, hstation]
    have hk : Keeps a ph A (A.setPlane p P') p P P' t t := by
      refine ⟨rfl, rfl, rfl, rfl, rfl, hactive'.trans hactive.symm, fun _ => rfl, rfl,
        fun ph' pc hP'pc hne => ?_, fun _ => rfl, fun h => ?_, ?_⟩
      · have hPpc : P.pc = .report ph' pc := hP'pc
        have := reporting_of_report hPpc hne
        simp [PlaneThread.reporting, hstation] at this
      · rw [hactive] at h
        cases h
      · intro hexit
        rw [hexit] at hstation
        cases hstation
    have hcarried : A'.carried pend = (A.inbox ++ pend).filterMap redirect := by
      unfold AirlineState.carried
      rfl
    refine ⟨.busy, ts, ?_, .stay rfl, ?_⟩
    · rw [Option.toList_none, List.append_nil, ← set_self ht]
      refine ⟨?_, ?_, held_listen_keep (held_keep h.left hP rfl) (by rw [hpc]; rfl),
        held_listen_keep (held_keep h.conn hP rfl) (by rw [hpc]; rfl), hstage,
        ⟨?_, hown.reply, ?_⟩, Flying.congr (Flying.keep hbusy hP ht hk) rfl rfl⟩
      · rw [hplanes, List.length_set, List.length_set, h.length]
      · rw [hcarried]
        refine h.planes.set hP ht hplanes ⟨?_, hok.awake⟩ fun q X x hq hXok => ?_
        · show StationOk _ _ _ _ _ _ _ P.pc.station
          rw [hstation, hrest]
          exact ⟨rfl, hdone, .reply msg htodo take hrq rfl⟩
        · rw [hsplit, repliesTo_cons, if_neg (by omega)] at hXok
          exact hXok
      · rw [hplanes, List.length_set]
        exact hown.out
      · rw [hcarried, hplanes, List.length_set]
        intro x hx
        refine hown.carried x ?_
        rw [hsplit]
        exact List.mem_cons_of_mem _ hx
    · have hemits : Emits a ph [] .busy A ts .busy A' (ts.set p t) := Emits.of_set .stay hP ht hplanes (by simp) (by simp)
        (fun grounded hg => ⟨hg, ?_⟩) (.inl rfl) (fun _ h => ?_) (by simp) (by simp)
      · rwa [set_self ht] at hemits
      · unfold doneSoFar
        rw [hactive, hactive', htodo]
        simp [P']
      · -- a reply is not End
        have hmsg : msg = .finish := by simpa [P'] using h
        subst hmsg
        unfold takeReply at take
        cases ph <;> simp at take

/-! ## Ending -/

theorem AirlineOk.ending_of_pc (h : AirlineOk a ph st A ts out pend)
    (hpc : (∃ i, A.pc = .finish i) ∨ (∃ i, A.pc = .join i) ∨ A.pc = .stopped) :
    st = .ending ∧ ph = .one ∧ A.inbox = [] ∧ out = [] ∧ pend = [] ∧
      (∀ P ∈ A.planes, P.active = false ∧ P.reporting = false) ∧ Ending A ts A.pc := by
  rcases h.listener_cases with ⟨-, -, -, hbusy⟩ | hend | ⟨-, -, hquiet⟩
  · rcases hpc with ⟨i, hpc⟩ | ⟨i, hpc⟩ | hpc <;>
      · rw [hpc] at hbusy
        exact hbusy.elim
  · exact hend
  · rcases hquiet.listener with hl | hl | hl <;> rw [hl] at hpc <;> simp at hpc

theorem AirlineOk.tellPlane (h : AirlineOk a ph st A ts out pend) {i : ℕ} (hpc : A.pc = .finish i)
    (hP : A.planes[i]? = some P) (hdone : P.done = false) :
    P.queue = [] ∧ Stepped a ph st A ts out pend [.ended a i]
      ({ A with pc := .finish (i + 1) }.setPlane i { P with queue := P.queue ++ [Message.finish] })
      none := by
  obtain ⟨rfl, rfl, hinbox, rfl, rfl, hcalm, hend⟩ := h.ending_of_pc (.inl ⟨i, hpc⟩)
  rw [hpc] at hend
  obtain ⟨-, hlow, hhigh⟩ := hend
  obtain ⟨t, ht⟩ := h.exists_abstract hP
  obtain ⟨hqueue, htodo⟩ := hhigh i P t hP ht le_rfl
  obtain ⟨hactive, hreporting⟩ := hcalm P (List.mem_of_getElem? hP)
  obtain ⟨hstation, hrq, hrp, hplane, htdone⟩ :=
    (h.planeOk hP ht).waiting hactive hreporting htodo hdone hqueue
  refine ⟨hqueue, ?_⟩
  rw [hqueue, List.nil_append]
  let P' : PlaneThread := { P with queue := [.finish] }
  let A' : AirlineState := { A with pc := .finish (i + 1) }.setPlane i P'
  have hplanes : A'.planes = A.planes.set i P' := rfl
  have htodo : t.todo = true := by rw [htodo, hdone]; rfl
  have hcarried : A'.carried [] = A.carried [] := by
    unfold AirlineState.carried
    rw [hpc]
    rfl
  have hlt := (List.getElem?_eq_some_iff.mp hP).1
  refine ⟨.ending, ts, ?_, .stay rfl, ?_⟩
  · rw [Option.toList_none, List.append_nil, ← set_self ht]
    refine ⟨?_, ?_, held_listen_keep (held_keep h.left hP rfl) (by rw [hpc]; rfl),
      held_listen_keep (held_keep h.conn hP rfl) (by rw [hpc]; rfl), rfl, hinbox, rfl, rfl,
      forall_mem_set hcalm ⟨?_, hreporting⟩, ?_, ?_, ?_⟩
    · rw [hplanes, List.length_set, List.length_set, h.length]
    · rw [hcarried]
      refine h.planes.set hP ht hplanes ⟨?_, fun _ => hdone⟩ fun _ _ _ _ h => h
      show StationOk _ _ _ _ _ _ _ P.pc.station
      rw [hstation]
      exact ⟨hrq, hrp, hplane, htdone, .leaving hdone rfl htodo rfl rfl rfl⟩
    · simp [PlaneThread.active, hstation]
    · rw [hplanes, List.length_set]
      exact hlt
    · refine hlow.set hP ht hplanes (fun _ => .inr rfl) fun q X x hq h hle => h (by omega)
    · refine hhigh.set hP ht hplanes (fun hle => absurd hle (by omega)) fun q X x hq h hle =>
        h (by omega)
  · have hemits : Emits a .one [.ended a i] .ending A ts .ending A' (ts.set i t) :=
      Emits.of_set .stay hP ht hplanes (by simp [Event.isOf]) (by simp [Event.signal])
      (fun grounded hg => ⟨hg, by rw [doneSoFar_todo htodo]; simp⟩) (.inl rfl)
      (fun _ _ => by simp) (by simp) (by simp)
    rwa [set_self ht] at hemits

/-- The listener goes on while the airline ends. -/
theorem AirlineOk.endStep (h : AirlineOk a ph st A ts out pend)
    (hpc : (∃ i, A.pc = .finish i) ∨ (∃ i, A.pc = .join i)) {pc' : ListenPc}
    (hpc' : (∃ i, pc' = .finish i) ∨ (∃ i, pc' = .join i) ∨ pc' = .stopped)
    (hnew : (∀ P ∈ A.planes, P.active = false ∧ P.reporting = false) → Ending A ts A.pc →
      Ending { A with pc := pc' } ts pc') :
    Stepped a ph st A ts out pend [] { A with pc := pc' } none := by
  obtain ⟨rfl, rfl, hinbox, rfl, rfl, hcalm, hend⟩ :=
    h.ending_of_pc (hpc.elim .inl fun h => .inr (.inl h))
  refine h.listen rfl rfl ?_ (held_listen_keep h.left ?_) (held_listen_keep h.conn ?_)
    ⟨rfl, hinbox, rfl, rfl, hcalm, hnew hcalm hend⟩
  all_goals
    rcases hpc with ⟨i, hpc⟩ | ⟨i, hpc⟩ <;> rcases hpc' with ⟨j, rfl⟩ | ⟨j, rfl⟩ | rfl <;>
      · rw [hpc]
        rfl

/-! ## All steps -/

theorem pushMessage_empty {msg : Message} (h : P.queue = []) :
    pushMessage P msg = some { P with queue := P.queue ++ [msg] } := by
  unfold pushMessage
  rw [if_pos (by rw [h]; decide)]

/-- **Every step of the listener keeps its airline in order.** -/
theorem listen_stepped {room : Bool} {es : List Event} {sent : Option PlaneMessage}
    (h : AirlineOk a ph st A ts out pend) (hstep : listenStep a room A = some (es, A', sent)) :
    Stepped a ph st A ts out pend es A' sent := by
  unfold listenStep at hstep
  cases hpc : A.pc with
  | recv =>
    simp only [hpc] at hstep
    cases hinbox : A.inbox with
    | nil =>
      rw [hinbox] at hstep
      cases hstep
    | cons msg inbox =>
      rw [hinbox] at hstep
      cases msg with
      | start w =>
        cases hstep
        exact h.take hpc hinbox (.inl ⟨w, rfl, rfl, rfl⟩)
      | finish =>
        cases hstep
        exact h.take hpc hinbox (.inr (.inl ⟨rfl, rfl, rfl⟩))
      | stock msg =>
        cases hstep
        exact h.take hpc hinbox (.inr (.inr ⟨redirectStockMessage msg, rfl, rfl, rfl⟩))
      | destinations msg =>
        cases hstep
        exact h.take hpc hinbox (.inr (.inr ⟨redirectDestinationsMessage msg, rfl, rfl, rfl⟩))
  | lockLeft w =>
    simp only [hpc] at hstep
    split at hstep
    · rename_i hfree
      cases hstep
      exact h.scanStart hpc hfree
    · cases hstep
  | scan w i =>
    simp only [hpc] at hstep
    cases hP : A.planes[i]? with
    | some P =>
      rw [hP] at hstep
      cases hstep
      exact h.scanPlane hpc hP
    | none =>
      rw [hP] at hstep
      cases hstep
      exact h.scanEnd hpc hP
  | report pc =>
    simp only [hpc] at hstep
    obtain ⟨r, hr, hstep⟩ := Option.map_eq_some_iff.mp hstep
    cases hstep
    exact h.listenReport hpc hr rfl
  | bcast w i =>
    simp only [hpc] at hstep
    cases hP : A.planes[i]? with
    | some P =>
      rw [hP] at hstep
      dsimp only at hstep
      by_cases hdone : P.done = true
      · rw [if_pos hdone] at hstep
        cases hstep
        exact h.skipPlane hpc hP hdone
      · obtain ⟨hqueue, hstepped⟩ := h.startPlane hpc hP (by simpa using hdone)
        rw [if_neg hdone, pushMessage_empty hqueue] at hstep
        cases hstep
        exact hstepped
    | none =>
      rw [hP] at hstep
      cases hstep
      exact h.startEnd hpc hP
  | unlockLeft =>
    simp only [hpc] at hstep
    cases hstep
    exact h.unlock hpc
  | push id msg =>
    simp only [hpc] at hstep
    obtain ⟨p, P, rfl, hP, hqueue, hstepped⟩ := h.handOn hpc
    rw [getFromVector_natCast, hP] at hstep
    dsimp only at hstep
    rw [pushMessage_empty hqueue] at hstep
    cases hstep
    exact hstepped
  | finish i =>
    simp only [hpc] at hstep
    cases hP : A.planes[i]? with
    | some P =>
      rw [hP] at hstep
      dsimp only at hstep
      by_cases hdone : P.done = true
      · rw [if_pos hdone] at hstep
        cases hstep
        refine h.endStep (.inl ⟨i, hpc⟩) (.inl ⟨i + 1, rfl⟩) fun _ hend => ?_
        rw [hpc] at hend
        refine ⟨(List.getElem?_eq_some_iff.mp hP).1, fun p X x hX hx hlt => ?_,
          fun p X x hX hx hle => hend.2.2 p X x hX hx (by omega)⟩
        by_cases hp : p = i
        · subst hp
          rw [show P = X from Option.some.inj (hP.symm.trans hX)] at hdone
          exact .inl hdone
        · exact hend.2.1 p X x hX hx (by omega)
      · obtain ⟨hqueue, hstepped⟩ := h.tellPlane hpc hP (by simpa using hdone)
        rw [if_neg hdone, pushMessage_empty hqueue] at hstep
        cases hstep
        exact hstepped
    | none =>
      rw [hP] at hstep
      cases hstep
      refine h.endStep (.inl ⟨i, hpc⟩) (.inr (.inl ⟨0, rfl⟩)) fun _ hend => ?_
      rw [hpc] at hend
      refine ⟨Nat.zero_le _, fun X hX => ?_, fun p X hlt => absurd hlt (by omega)⟩
      obtain ⟨p, hp⟩ := List.mem_iff_getElem?.mp hX
      obtain ⟨x, hx⟩ := h.exists_abstract hp
      exact hend.2.1 p X x hp hx
        (lt_of_lt_of_le (List.getElem?_eq_some_iff.mp hp).1 (List.getElem?_eq_none_iff.mp hP))
  | join i =>
    simp only [hpc] at hstep
    cases hP : A.planes[i]? with
    | some P =>
      rw [hP] at hstep
      dsimp only at hstep
      split at hstep
      · rename_i hexit
        cases hstep
        refine h.endStep (.inr ⟨i, hpc⟩) (.inr (.inl ⟨i + 1, rfl⟩)) fun _ hend => ?_
        rw [hpc] at hend
        refine ⟨(List.getElem?_eq_some_iff.mp hP).1, hend.2.1, fun p X hlt hX => ?_⟩
        by_cases hp : p = i
        · subst hp
          rw [show P = X from Option.some.inj (hP.symm.trans hX)] at hexit
          exact hexit
        · exact hend.2.2 p X (by omega) hX
      · cases hstep
    | none =>
      rw [hP] at hstep
      cases hstep
      refine h.endStep (.inr ⟨i, hpc⟩) (.inr (.inr rfl)) fun _ hend => ?_
      rw [hpc] at hend
      intro X hX
      obtain ⟨p, hp⟩ := List.mem_iff_getElem?.mp hX
      exact hend.2.2 p X
        (lt_of_lt_of_le (List.getElem?_eq_some_iff.mp hp).1 (List.getElem?_eq_none_iff.mp hP)) hp
  | stopped =>
    simp only [hpc] at hstep
    cases hstep

end Steps

end PlaneSim
