import PlaneSim.Lib.Lts
import PlaneSim.Lib.Lock
import PlaneSim.Lib.Update

/-!
# The message queue back end

`ipc_write` of `ipc/mqueue.c` by any number of threads on one connection. `mq_send` may fail at any
time; it waits while the queue is full.

1. As long as no `mq_send` has failed, the mutex is with the thread that is between its lock and its
   unlock (`Inv.healthy`), and who waits for it gets it (`exists_attempt`).
2. A failed call returns with the mutex, and nobody gets it any more (`Inv.poisoned`,
   `no_attempt`).
3. So every call leaves the mutex free exactly in the runs in which no `mq_send` fails
   (`run_unpoisoned_iff`).
-/

namespace PlaneSim.Mqueue

open Lts Lock

/-- `mq_maxmsg` -/
def MAX_MSG : ℕ := 10

/-- `sizeof(msg_t)`, the `mq_msgsize` of the queue. -/
def MSG_T_LEN : ℕ := 528

/-- Where a thread is in a call of `ipc_write`. -/
inductive WriteOp where
  | idle
  /-- Before `pthread_mutex_lock`. -/
  | called (buff : List UInt8)
  /-- In `mq_send`. -/
  | sending (buff : List UInt8)
  /-- Before `pthread_mutex_unlock`. -/
  | sent (len : ℕ)
deriving DecidableEq, Repr

/-- The calls, with what happens in them. -/
inductive Event where
  | attempt (thread : ℕ)
  | sent (buff : List UInt8)
  | failed (thread : ℕ)
  | returned (thread : ℕ) (res : Int)
  | received (buff : List UInt8)
deriving DecidableEq, Repr

structure State where
  queue : List (List UInt8)
  wrtMutex : Option ℕ
  writers : List WriteOp
deriving DecidableEq, Repr

inductive Action where
  | call (thread : ℕ) (buff : List UInt8)
  | lock (thread : ℕ)
  /-- `mq_send` returns. -/
  | send (thread : ℕ) (success : Bool)
  | unlock (thread : ℕ)
  /-- The other end takes a message. -/
  | receive

def step (s : State) : Action → Option (List Event × State)
  | .call t buff =>
    if s.writers[t]? = some .idle then
      some ([], { s with writers := s.writers.set t (.called buff) })
    else none
  | .lock t =>
    match s.writers[t]? with
    | some (.called buff) =>
      if s.wrtMutex = none then
        some ([.attempt t],
          { s with wrtMutex := some t, writers := s.writers.set t (.sending buff) })
      else none
    | _ => none
  | .send t success =>
    match s.writers[t]? with
    | some (.sending buff) =>
      if success then
        if s.queue.length < MAX_MSG ∧ buff.length ≤ MSG_T_LEN then
          some ([.sent buff],
            { s with queue := s.queue ++ [buff], writers := s.writers.set t (.sent buff.length) })
        else none
      else
        some ([.failed t, .returned t (-1)], { s with writers := s.writers.set t .idle })
    | _ => none
  | .unlock t =>
    match s.writers[t]? with
    | some (.sent len) =>
      some ([.returned t len], { s with wrtMutex := none, writers := s.writers.set t .idle })
    | _ => none
  | .receive =>
    match s.queue with
    | buff :: queue => some ([.received buff], { s with queue := queue })
    | [] => none

def init (threads : ℕ) : State where
  queue := []
  wrtMutex := none
  writers := List.replicate threads .idle

/-- The messages of the calls that succeeded. -/
def sends (trace : List Event) : List (List UInt8) :=
  trace.filterMap fun
    | .sent buff => some buff
    | _ => none

def receives (trace : List Event) : List (List UInt8) :=
  trace.filterMap fun
    | .received buff => some buff
    | _ => none

theorem sends_sent (trace : List Event) (buff : List UInt8) :
    sends (trace ++ [.sent buff]) = sends trace ++ [buff] := List.filterMap_append

theorem receives_sent (trace : List Event) (buff : List UInt8) :
    receives (trace ++ [.sent buff]) = receives trace := by
  rw [receives, List.filterMap_append]
  exact List.append_nil _

theorem sends_received (trace : List Event) (buff : List UInt8) :
    sends (trace ++ [.received buff]) = sends trace := by
  rw [sends, List.filterMap_append]
  exact List.append_nil _

theorem receives_received (trace : List Event) (buff : List UInt8) :
    receives (trace ++ [.received buff]) = receives trace ++ [buff] := List.filterMap_append

/-! ## What a step does -/

/-- The steps. -/
inductive Steps (s : State) : List Event → State → Prop where
  | called {t : ℕ} (buff : List UInt8) (idle : s.writers[t]? = some .idle) :
      Steps s [] { s with writers := s.writers.set t (.called buff) }
  | locked {t : ℕ} {buff : List UInt8} (waiting : s.writers[t]? = some (.called buff))
      (free : s.wrtMutex = none) :
      Steps s [.attempt t]
        { s with wrtMutex := some t, writers := s.writers.set t (.sending buff) }
  | sent {t : ℕ} {buff : List UInt8} (sending : s.writers[t]? = some (.sending buff))
      (room : s.queue.length < MAX_MSG) :
      Steps s [.sent buff]
        { s with queue := s.queue ++ [buff], writers := s.writers.set t (.sent buff.length) }
  | failed {t : ℕ} {buff : List UInt8} (sending : s.writers[t]? = some (.sending buff)) :
      Steps s [.failed t, .returned t (-1)] { s with writers := s.writers.set t .idle }
  | unlocked {t len : ℕ} (sent : s.writers[t]? = some (.sent len)) :
      Steps s [.returned t len] { s with wrtMutex := none, writers := s.writers.set t .idle }
  | received {buff : List UInt8} {queue : List (List UInt8)} (oldest : s.queue = buff :: queue) :
      Steps s [.received buff] { s with queue := queue }

theorem step_cases {s s' : State} {a : Action} {es : List Event}
    (h : step s a = some (es, s')) : Steps s es s' := by
  cases a with
  | call t buff =>
    simp only [step] at h
    split at h
    · rename_i idle
      cases h
      exact .called buff idle
    · cases h
  | lock t =>
    simp only [step] at h
    split at h
    · rename_i buff waiting
      split at h
      · rename_i free
        cases h
        exact .locked waiting free
      · cases h
    · cases h
  | send t success =>
    simp only [step] at h
    split at h
    · rename_i buff sending
      split at h
      · split at h
        · rename_i hfits
          cases h
          exact .sent sending hfits.1
        · cases h
      · cases h
        exact .failed sending
    · cases h
  | unlock t =>
    simp only [step] at h
    split at h
    · rename_i len sent
      cases h
      exact .unlocked sent
    · cases h
  | receive =>
    simp only [step] at h
    split at h
    · rename_i buff queue oldest
      cases h
      exact .received oldest
    · cases h

/-- The mutex is taken only when it is free. -/
theorem free_of_attempt {s s' : State} {es : List Event} {t : ℕ} (h : Steps s es s')
    (hmem : .attempt t ∈ es) : s.wrtMutex = none := by
  cases h with
  | locked _ free => exact free
  | called _ _ => cases hmem
  | sent _ _ => cases List.mem_singleton.mp hmem
  | failed _ => simp at hmem
  | unlocked _ => cases List.mem_singleton.mp hmem
  | received _ => cases List.mem_singleton.mp hmem

/-! ## The mutex -/

/-- A thread between its lock and its unlock. -/
def WriteOp.inSection : WriteOp → Bool
  | .sending _ => true
  | .sent _ => true
  | _ => false

def InSection (s : State) (t : ℕ) : Prop := ∃ op, s.writers[t]? = some op ∧ op.inSection = true

/-- Some `mq_send` has failed. -/
def Failed (trace : List Event) : Prop := ∃ t, .failed t ∈ trace

structure Inv (trace : List Event) (s : State) : Prop where
  healthy : ¬Failed trace → Held s.wrtMutex (InSection s)
  poisoned : Failed trace → s.wrtMutex ≠ none ∧ ∀ t, ¬InSection s t
  queue : sends trace = receives trace ++ s.queue
  length_le : s.queue.length ≤ MAX_MSG

theorem not_inSection_init {threads t : ℕ} : ¬InSection (init threads) t := by
  rintro ⟨op, hop, hin⟩
  obtain rfl := List.eq_of_mem_replicate (List.mem_of_getElem? hop)
  cases hin

theorem inv_init (threads : ℕ) : Inv [] (init threads) where
  healthy _ t := by
    constructor
    · intro h
      change none = some t at h
      cases h
    · exact fun hin => absurd hin not_inSection_init
  poisoned := by
    rintro ⟨t, ht⟩
    cases ht
  queue := rfl
  length_le := Nat.zero_le _

section Sections

variable {s : State} {t u : ℕ} {op old new : WriteOp}

theorem inSection_of (h : s.writers[t]? = some op) : InSection s t ↔ op.inSection = true := by
  constructor
  · rintro ⟨op', hop', hin⟩
    obtain rfl : op = op' := Option.some.inj (h.symm.trans hop')
    exact hin
  · exact fun hin => ⟨op, h, hin⟩

variable {mutex : Option ℕ} {queue : List (List UInt8)}

/-- The thread that moved. -/
theorem inSection_set_self (h : s.writers[t]? = some old) :
    InSection { queue := queue, wrtMutex := mutex, writers := s.writers.set t new } t ↔
      new.inSection = true :=
  inSection_of (List.getElem?_set_self (List.getElem?_eq_some_iff.mp h).1)

/-- The others. -/
theorem inSection_set_ne (hne : u ≠ t) :
    InSection { queue := queue, wrtMutex := mutex, writers := s.writers.set t new } u ↔
      InSection s u := by
  unfold InSection
  dsimp only
  rw [List.getElem?_set_ne hne.symm]

/-- A thread that stays inside, or stays outside. -/
theorem inSection_set (h : s.writers[t]? = some old) (hsame : new.inSection = old.inSection) :
    InSection { queue := queue, wrtMutex := mutex, writers := s.writers.set t new } u ↔
      InSection s u := by
  by_cases hut : u = t
  · subst hut
    rw [inSection_set_self h, inSection_of h, hsame]
  · exact inSection_set_ne hut

end Sections

section Steps

variable {trace es : List Event} {s : State}

theorem failed_append (hes : ∀ t, .failed t ∉ es) : Failed (trace ++ es) ↔ Failed trace := by
  constructor
  · rintro ⟨t, ht⟩
    rcases List.mem_append.mp ht with ht | ht
    · exact ⟨t, ht⟩
    · exact absurd ht (hes t)
  · rintro ⟨t, ht⟩
    exact ⟨t, List.mem_append_left _ ht⟩

/-- A step in which nobody enters or leaves. -/
theorem Inv.move (h : Inv trace s) (hes : ∀ t, .failed t ∉ es) {queue : List (List UInt8)}
    {writers : List WriteOp} (hqueue : sends (trace ++ es) = receives (trace ++ es) ++ queue)
    (hlength : queue.length ≤ MAX_MSG)
    (hsame : ∀ u, InSection { s with queue := queue, writers := writers } u ↔ InSection s u) :
    Inv (trace ++ es) { s with queue := queue, writers := writers } where
  healthy hok := (h.healthy fun hf => hok ((failed_append hes).mpr hf)).congr hsame
  poisoned hf := by
    obtain ⟨hmutex, hnone⟩ := h.poisoned ((failed_append hes).mp hf)
    exact ⟨hmutex, fun u hu => hnone u ((hsame u).mp hu)⟩
  queue := hqueue
  length_le := hlength

theorem Inv.lock (h : Inv trace s) {t : ℕ} {buff : List UInt8}
    (ht : s.writers[t]? = some (.called buff)) (hfree : s.wrtMutex = none) :
    Inv (trace ++ [.attempt t])
      { s with wrtMutex := some t, writers := s.writers.set t (.sending buff) } where
  healthy hok := by
    have hheld := h.healthy fun hf => hok ((failed_append (by simp)).mpr hf)
    rw [hfree] at hheld
    exact hheld.acquire ((inSection_set_self ht).mpr rfl) fun u hu => inSection_set_ne hu
  poisoned hf := absurd hfree (h.poisoned ((failed_append (by simp)).mp hf)).1
  queue := by simpa [sends, receives] using h.queue
  length_le := h.length_le

theorem Inv.unlock (h : Inv trace s) {t len : ℕ} (ht : s.writers[t]? = some (.sent len)) :
    Inv (trace ++ [.returned t len])
      { s with wrtMutex := none, writers := s.writers.set t .idle } where
  healthy hok := by
    have hheld := h.healthy fun hf => hok ((failed_append (by simp)).mpr hf)
    refine hheld.release ((inSection_of ht).mpr rfl) (fun hin => ?_) fun u hu => inSection_set_ne hu
    rw [inSection_set_self ht] at hin
    cases hin
  poisoned hf :=
    absurd ((inSection_of ht).mpr rfl) ((h.poisoned ((failed_append (by simp)).mp hf)).2 t)
  queue := by simpa [sends, receives] using h.queue
  length_le := h.length_le

/-- **The slip.** The call returns with the mutex. -/
theorem Inv.fail (h : Inv trace s) {t : ℕ} {buff : List UInt8}
    (ht : s.writers[t]? = some (.sending buff)) :
    Inv (trace ++ [.failed t, .returned t (-1)]) { s with writers := s.writers.set t .idle } where
  healthy hok := absurd ⟨t, by simp⟩ hok
  poisoned _ := by
    have hin : InSection s t := (inSection_of ht).mpr rfl
    have hok : ¬Failed trace := fun hf => (h.poisoned hf).2 t hin
    have hheld := h.healthy hok
    refine ⟨fun hfree => ?_, fun u hu => ?_⟩
    · have hmutex := (hheld t).mpr hin
      rw [show s.wrtMutex = none from hfree] at hmutex
      cases hmutex
    · by_cases hut : u = t
      · subst hut
        rw [inSection_set_self ht] at hu
        cases hu
      · exact hut (hheld.unique ((inSection_set_ne hut).mp hu) hin)
  queue := by simpa [sends, receives] using h.queue
  length_le := h.length_le

end Steps

theorem inv_steps {trace es : List Event} {s s' : State} (h : Inv trace s)
    (hstep : Steps s es s') : Inv (trace ++ es) s' := by
  cases hstep with
  | called buff idle =>
    exact h.move (by simp) (by simpa using h.queue) h.length_le fun u => inSection_set idle rfl
  | locked waiting free => exact h.lock waiting free
  | sent sending room =>
    refine h.move (by simp) ?_ ?_ fun u => inSection_set sending rfl
    · rw [sends_sent, receives_sent, h.queue, List.append_assoc]
    · rw [List.length_append]
      exact room
  | failed sending => exact h.fail sending
  | unlocked sent => exact h.unlock sent
  | received oldest =>
    have hsplit := h.queue
    have hlength := h.length_le
    rw [oldest] at hsplit hlength
    refine h.move (by simp) ?_ (Nat.le_of_succ_le hlength) fun u => Iff.rfl
    rw [sends_received, receives_received, hsplit, List.append_assoc]
    rfl

theorem run_inv {threads : ℕ} {trace : List Event} {s : State}
    (h : Run step (init threads) trace s) : Inv trace s :=
  h.history (inv_init threads) fun _ _ _ _ _ hi hs => inv_steps hi (step_cases hs)

/-! ## Getting to `mq_send` -/

/-- The mutex is free, and thread `t` waits for it. -/
theorem attempt_of_free {s : State} {t : ℕ} {buff : List UInt8}
    (ht : s.writers[t]? = some (.called buff)) (hfree : s.wrtMutex = none) :
    ∃ s', Run step s [.attempt t] s' := by
  refine ⟨{ s with wrtMutex := some t, writers := s.writers.set t (.sending buff) },
    Run.single (a := .lock t) ?_⟩
  simp only [step, ht]
  exact if_pos hfree

/-- Thread `u` is about to unlock. -/
theorem attempt_of_sent {s : State} {t u len : ℕ} {buff : List UInt8}
    (ht : s.writers[t]? = some (.called buff)) (hu : s.writers[u]? = some (.sent len)) :
    ∃ tr s', Run step s tr s' ∧ .attempt t ∈ tr := by
  have hne : u ≠ t := by
    rintro rfl
    rw [ht] at hu
    cases hu
  have hunlock : step s (.unlock u) = some ([.returned u len],
      { s with wrtMutex := none, writers := s.writers.set u .idle }) := by
    simp only [step, hu]
  obtain ⟨s', hrun⟩ := attempt_of_free
    (s := { s with wrtMutex := none, writers := s.writers.set u .idle }) (t := t)
    (by dsimp only; rw [List.getElem?_set_ne hne]; exact ht) rfl
  exact ⟨_, s', (Run.single hunlock).trans hrun, by simp⟩

/-- Thread `u` is in `mq_send`, and the queue has room. -/
theorem attempt_of_sending {s : State} {t u : ℕ} {buff msg : List UInt8}
    (ht : s.writers[t]? = some (.called buff)) (hu : s.writers[u]? = some (.sending msg))
    (hshort : msg.length ≤ MSG_T_LEN) (hroom : s.queue.length < MAX_MSG) :
    ∃ tr s', Run step s tr s' ∧ .attempt t ∈ tr := by
  have hne : u ≠ t := by
    rintro rfl
    rw [ht] at hu
    cases hu
  have hsend : step s (.send u true) = some ([.sent msg], { s with
      queue := s.queue ++ [msg], writers := s.writers.set u (.sent msg.length) }) := by
    simp only [step, hu, if_true]
    exact if_pos ⟨hroom, hshort⟩
  obtain ⟨tr, s', hrun, hmem⟩ := attempt_of_sent
    (s := { s with queue := s.queue ++ [msg], writers := s.writers.set u (.sent msg.length) })
    (t := t) (u := u)
    (by dsimp only; rw [List.getElem?_set_ne hne]; exact ht)
    (List.getElem?_set_self (List.getElem?_eq_some_iff.mp hu).1)
  exact ⟨_, s', (Run.single hsend).trans hrun, List.mem_append_right _ hmem⟩

/-- The other end takes a message. -/
theorem exists_receive {s : State} (hqueue : s.queue ≠ []) :
    ∃ tr s', Run step s tr s' ∧ s'.queue = s.queue.tail ∧ s'.writers = s.writers := by
  obtain ⟨buff, queue, hcons⟩ := List.exists_cons_of_ne_nil hqueue
  refine ⟨[.received buff], { s with queue := queue }, Run.single (a := .receive) ?_, ?_, rfl⟩
  · simp only [step, hcons]
  · rw [hcons, List.tail_cons]

/-- Who waits for the mutex gets to its own `mq_send`. -/
theorem exists_attempt {s : State} (hheld : Held s.wrtMutex (InSection s))
    (hlength : s.queue.length ≤ MAX_MSG) {t : ℕ} {buff : List UInt8}
    (ht : s.writers[t]? = some (.called buff))
    (hshort : ∀ (u : ℕ) msg, s.writers[u]? = some (.sending msg) → msg.length ≤ MSG_T_LEN) :
    ∃ tr s', Run step s tr s' ∧ .attempt t ∈ tr := by
  by_cases hfree : s.wrtMutex = none
  · obtain ⟨s', hrun⟩ := attempt_of_free ht hfree
    exact ⟨_, s', hrun, List.mem_singleton.mpr rfl⟩
  obtain ⟨u, op, hu, hin⟩ := hheld.exists_holder hfree
  cases op with
  | idle => cases hin
  | called msg => cases hin
  | sent len => exact attempt_of_sent ht hu
  | sending msg =>
    by_cases hroom : s.queue.length < MAX_MSG
    · exact attempt_of_sending ht hu (hshort u msg hu) hroom
    · -- the queue is full: the other end makes room first
      have hne : s.queue ≠ [] := by
        intro hnil
        rw [hnil] at hroom
        exact hroom (by decide)
      obtain ⟨tr, s1, hrun, hqueue, hwriters⟩ := exists_receive hne
      have hroom' : s1.queue.length < MAX_MSG := by
        have hpos : 0 < MAX_MSG := by decide
        rw [hqueue, List.length_tail]
        omega
      obtain ⟨tr', s', hrun', hmem⟩ := attempt_of_sending (s := s1) (t := t) (u := u)
        (by rw [hwriters]; exact ht) (by rw [hwriters]; exact hu) (hshort u msg hu) hroom'
      exact ⟨_, s', hrun.trans hrun', List.mem_append_right _ hmem⟩

/-- After a failure nobody gets to `mq_send`. -/
theorem no_attempt {trace : List Event} {s : State} (h : Inv trace s) (hf : Failed trace)
    {tr : List Event} {s' : State} (hrun : Run step s tr s') (t : ℕ) : .attempt t ∉ tr := by
  have hinv : Inv (trace ++ tr) s' ∧ .attempt t ∉ tr := by
    refine hrun.history (P := fun tr s1 => Inv (trace ++ tr) s1 ∧ .attempt t ∉ tr)
      ⟨by rwa [List.append_nil], List.not_mem_nil⟩ ?_
    rintro tr1 s1 a es s2 ⟨hi, hnone⟩ hstep
    have hi' := inv_steps hi (step_cases hstep)
    rw [List.append_assoc] at hi'
    refine ⟨hi', fun hmem => ?_⟩
    rcases List.mem_append.mp hmem with hmem | hmem
    · exact hnone hmem
    · obtain ⟨u, hu⟩ := hf
      exact (hi.poisoned ⟨u, List.mem_append_left _ hu⟩).1 (free_of_attempt (step_cases hstep) hmem)
  exact hinv.2

/-! ## The connection -/

/-- What a caller may rely on. -/
structure Unpoisoned (s : State) : Prop where
  /-- Every call that is over left the mutex. -/
  released : ∀ t, s.wrtMutex = some t → InSection s t
  /-- Every call gets to its own `mq_send`, if what is in `mq_send` now is not too long. -/
  goesOn : ∀ (t : ℕ) buff, s.writers[t]? = some (.called buff) →
    (∀ (u : ℕ) msg, s.writers[u]? = some (.sending msg) → msg.length ≤ MSG_T_LEN) →
    ∃ tr s', Run step s tr s' ∧ .attempt t ∈ tr

theorem Inv.unpoisoned_iff {trace : List Event} {s : State} (h : Inv trace s) :
    Unpoisoned s ↔ ¬Failed trace := by
  constructor
  · intro hunpoisoned hf
    obtain ⟨hmutex, hnone⟩ := h.poisoned hf
    obtain ⟨t, ht⟩ := Option.ne_none_iff_exists'.mp hmutex
    exact hnone t (hunpoisoned.released t ht)
  · intro hok
    have hheld := h.healthy hok
    exact ⟨fun t => (hheld t).mp, fun t buff ht => exists_attempt hheld h.length_le ht⟩

/-- A failed call returns `-1` and leaves the queue. -/
theorem step_send_false {s s' : State} {t : ℕ} {es : List Event}
    (hstep : step s (.send t false) = some (es, s')) :
    es = [.failed t, .returned t (-1)] ∧ s'.queue = s.queue := by
  simp only [step] at hstep
  split at hstep
  · cases hstep
    exact ⟨rfl, rfl⟩
  · cases hstep

/-- **One failure is for good.** A run leaves a connection that can be used exactly when no
`mq_send` failed in it; after a failure no call ever gets to `mq_send`. What is in the queue comes
from the calls that succeeded. -/
theorem run_unpoisoned_iff {threads : ℕ} {trace : List Event} {s : State}
    (h : Run step (init threads) trace s) :
    (Unpoisoned s ↔ ¬Failed trace) ∧
      (Failed trace → ∀ tr s' t, Run step s tr s' → .attempt t ∉ tr) ∧
      sends trace = receives trace ++ s.queue ∧
      ∀ t es s', step s (.send t false) = some (es, s') →
        es = [.failed t, .returned t (-1)] ∧ s'.queue = s.queue := by
  have hinv := run_inv h
  refine ⟨hinv.unpoisoned_iff, fun hf tr s' t hrun => no_attempt hinv hf hrun t, hinv.queue, ?_⟩
  exact fun t es s' hstep => step_send_false hstep

/-- One call that succeeds. -/
theorem run_unpoisoned_iff_one :
    ∃ s, Run step (init 2) [.attempt 0, .sent [7], .returned 0 1] s ∧ s.queue = [[7]] ∧
      Unpoisoned s := by
  have hrun : Run step (init 2) [.attempt 0, .sent [7], .returned 0 1]
      ⟨[[7]], none, [.idle, .idle]⟩ :=
    run_of_exec (show exec step (init 2) [.call 0 [7], .lock 0, .send 0 true, .unlock 0] = _ by
      decide)
  refine ⟨_, hrun, rfl, (run_unpoisoned_iff hrun).1.mpr ?_⟩
  rintro ⟨t, ht⟩
  simp at ht

/-- One call fails, and the next waits for ever. -/
theorem not_unpoisoned_failed :
    ∃ trace s, Run step (init 2) trace s ∧ ¬Unpoisoned s ∧ s.writers = [.idle, .called [7]] ∧
      ∀ tr s', Run step s tr s' → .attempt 1 ∉ tr := by
  have hrun : Run step (init 2) [.attempt 0, .failed 0, .returned 0 (-1)]
      ⟨[], some 0, [.idle, .called [7]]⟩ :=
    run_of_exec (show exec step (init 2) [.call 0 [7], .lock 0, .send 0 false, .call 1 [7]] = _ by
      decide)
  have hf : Failed [.attempt 0, .failed 0, .returned 0 (-1)] := ⟨0, by simp⟩
  have hinv := run_inv hrun
  refine ⟨_, _, hrun, fun hunpoisoned => hinv.unpoisoned_iff.mp hunpoisoned hf, rfl, ?_⟩
  exact fun tr s' hrun' => no_attempt hinv hf hrun' 1

end PlaneSim.Mqueue
