import PlaneSim.Airline
import PlaneSim.Lib.Lts
import PlaneSim.Lib.Ring
import PlaneSim.Lib.CondVar

/-!
# The message queue

`communication/msgqueue.c` under any number of threads, while the queue is not being destroyed. What
a call does while it has the mutex is one step. A thread that finds the queue empty, or full, gives
the mutex up and sleeps; when it runs again it looks again, and may sleep again.

1. What each section does to the queue (`step_cases`).
2. The ring holds the messages that were pushed and not popped (`queue_fifo`). It is the list that
   `pushMessage` appends to (`Inv.pushMessage`).
3. While somebody sleeps, as many threads are woken as there are messages, or places, to sleep for;
   nobody sleeps on while these last (`no_lost_wakeup`).
-/

namespace PlaneSim.MessageQueue

open Lts CondVar

variable {μ : Type*}

/-- `struct MessageQueue`, but for the mutex and the conditions. A slot that was never written is
`none`. -/
structure Queue (μ : Type*) where
  messages : List (Option μ)
  first : ℕ
  tail : ℕ
deriving DecidableEq, Repr

/-- Where a thread is: asleep in `pthread_cond_wait`, or woken and about to take the mutex again. -/
inductive Thread (μ : Type*) where
  | idle
  | popping (woken : Bool)
  | pushing (msg : μ) (woken : Bool)
deriving DecidableEq, Repr

structure State (μ : Type*) where
  queue : Queue μ
  threads : List (Thread μ)
deriving DecidableEq, Repr

/-- The calls, in the order of their sections. -/
inductive Event (μ : Type*) where
  | pushed (msg : μ)
  | popped (msg : μ)
  | peeked (type : MessageType)
deriving DecidableEq, Repr

/-- A thread enters a section, from outside or after it was woken; `wake` is the sleeper its signal
wakes. -/
inductive Action (μ : Type*) where
  | push (thread : ℕ) (msg : μ) (wake : ℕ)
  | pop (thread : ℕ) (wake : ℕ)
  | peek (thread : ℕ)
  /-- A sleeper wakes up without a signal. -/
  | spurious (thread : ℕ)

/-- `&queue->write`, on which those that pop wait. -/
def write : Cond (Thread μ) where
  asleep
    | .popping woken => !woken
    | _ => false
  woken
    | .popping woken => woken
    | _ => false
  wake
    | .popping _ => .popping true
    | thread => thread
  asleep_wake := by rintro (_ | woken | ⟨msg, woken⟩) <;> simp
  woken_wake := by rintro (_ | woken | ⟨msg, woken⟩) <;> simp
  woken_asleep := by rintro (_ | woken | ⟨msg, woken⟩) <;> simp

/-- `&queue->read`, on which those that push wait. -/
def read : Cond (Thread μ) where
  asleep
    | .pushing _ woken => !woken
    | _ => false
  woken
    | .pushing _ woken => woken
    | _ => false
  wake
    | .pushing msg _ => .pushing msg true
    | thread => thread
  asleep_wake := by rintro (_ | woken | ⟨msg, woken⟩) <;> simp
  woken_wake := by rintro (_ | woken | ⟨msg, woken⟩) <;> simp
  woken_asleep := by rintro (_ | woken | ⟨msg, woken⟩) <;> simp

/-! ## The sections -/

/-- `message_queue_pop`, from the test on. -/
def popSection (s : State μ) (t wake : ℕ) : Option (List (Event μ) × State μ) :=
  if s.queue.first = s.queue.tail then
    some ([], { s with threads := s.threads.set t (.popping false) })
  else do
    let msg ← s.queue.messages[s.queue.first]?.join
    let queue := { s.queue with first := (s.queue.first + 1) % QUEUE_SIZE }
    let threads ← signal read (s.threads.set t .idle) wake
    pure ([.popped msg], { queue := queue, threads := threads })

/-- `message_queue_push`, from the test on. -/
def pushSection (s : State μ) (t : ℕ) (msg : μ) (wake : ℕ) : Option (List (Event μ) × State μ) :=
  if (s.queue.tail + 1) % QUEUE_SIZE = s.queue.first then
    some ([], { s with threads := s.threads.set t (.pushing msg false) })
  else do
    let queue := { s.queue with
      messages := s.queue.messages.set s.queue.tail (some msg)
      tail := (s.queue.tail + 1) % QUEUE_SIZE }
    let threads ← signal write (s.threads.set t .idle) wake
    pure ([.pushed msg], { queue := queue, threads := threads })

/-- `message_queue_peek`; `type` is the field of that name of a message. -/
def peekSection (type : μ → MessageType) (queue : Queue μ) : Option MessageType :=
  if queue.tail = queue.first then some .MessageTypeNone
  else queue.messages[queue.first]?.join.map type

def step (type : μ → MessageType) (s : State μ) : Action μ → Option (List (Event μ) × State μ)
  | .push t msg wake =>
    match s.threads[t]? with
    | some .idle => pushSection s t msg wake
    | some (.pushing pending true) => pushSection s t pending wake
    | _ => none
  | .pop t wake =>
    match s.threads[t]? with
    | some .idle => popSection s t wake
    | some (.popping true) => popSection s t wake
    | _ => none
  | .peek t =>
    match s.threads[t]? with
    | some .idle => (peekSection type s.queue).map fun res => ([.peeked res], s)
    | _ => none
  | .spurious t =>
    match s.threads[t]? with
    | some (.popping false) => some ([], { s with threads := s.threads.set t (.popping true) })
    | some (.pushing msg false) =>
      some ([], { s with threads := s.threads.set t (.pushing msg true) })
    | _ => none

/-- `message_queue_create`, with the threads that will use the queue. -/
def init (μ : Type*) (threads : ℕ) : State μ where
  queue := { messages := List.replicate QUEUE_SIZE none, first := 0, tail := 0 }
  threads := List.replicate threads .idle

/-- The messages pushed, in the order of the sections. -/
def pushes (trace : List (Event μ)) : List μ :=
  trace.filterMap fun
    | .pushed msg => some msg
    | _ => none

/-- The messages popped, in the order of the sections. -/
def pops (trace : List (Event μ)) : List μ :=
  trace.filterMap fun
    | .popped msg => some msg
    | _ => none

/-- The messages pushed and not popped, if those popped are the first ones. -/
def unread (trace : List (Event μ)) : List μ := (pushes trace).drop (pops trace).length

/-! ## What a step does -/

/-- A thread that may enter a section of `message_queue_pop`. -/
def MayPop (s : State μ) (t : ℕ) : Prop :=
  s.threads[t]? = some .idle ∨ s.threads[t]? = some (.popping true)

/-- A thread that may enter a section of `message_queue_push`, to push `msg`. -/
def MayPush (s : State μ) (t : ℕ) (msg : μ) : Prop :=
  s.threads[t]? = some .idle ∨ s.threads[t]? = some (.pushing msg true)

/-- The steps. -/
inductive Steps (type : μ → MessageType) (s : State μ) : List (Event μ) → State μ → Prop where
  | pushed {t : ℕ} {msg : μ} {wake : ℕ} {threads : List (Thread μ)} (may : MayPush s t msg)
      (room : (s.queue.tail + 1) % QUEUE_SIZE ≠ s.queue.first)
      (signaled : signal write (s.threads.set t .idle) wake = some threads) :
      Steps type s [.pushed msg]
        { queue := { s.queue with
            messages := s.queue.messages.set s.queue.tail (some msg)
            tail := (s.queue.tail + 1) % QUEUE_SIZE }
          threads := threads }
  | pushWaits {t : ℕ} {msg : μ} (may : MayPush s t msg)
      (full : (s.queue.tail + 1) % QUEUE_SIZE = s.queue.first) :
      Steps type s [] { s with threads := s.threads.set t (.pushing msg false) }
  | popped {t : ℕ} {msg : μ} {wake : ℕ} {threads : List (Thread μ)} (may : MayPop s t)
      (some_unread : s.queue.first ≠ s.queue.tail)
      (loaded : s.queue.messages[s.queue.first]?.join = some msg)
      (signaled : signal read (s.threads.set t .idle) wake = some threads) :
      Steps type s [.popped msg]
        { queue := { s.queue with first := (s.queue.first + 1) % QUEUE_SIZE }, threads := threads }
  | popWaits {t : ℕ} (may : MayPop s t) (empty : s.queue.first = s.queue.tail) :
      Steps type s [] { s with threads := s.threads.set t (.popping false) }
  | peeked {res : MessageType} (answer : peekSection type s.queue = some res) :
      Steps type s [.peeked res] s
  | wokenPop {t : ℕ} (asleep : s.threads[t]? = some (.popping false)) :
      Steps type s [] { s with threads := s.threads.set t (write.wake (.popping false)) }
  | wokenPush {t : ℕ} {msg : μ} (asleep : s.threads[t]? = some (.pushing msg false)) :
      Steps type s [] { s with threads := s.threads.set t (read.wake (.pushing msg false)) }

theorem pushSection_steps {type : μ → MessageType} {s s' : State μ} {t wake : ℕ} {msg : μ}
    {es : List (Event μ)} (may : MayPush s t msg)
    (h : pushSection s t msg wake = some (es, s')) : Steps type s es s' := by
  unfold pushSection at h
  split at h
  · rename_i full
    cases h
    exact .pushWaits may full
  · rename_i room
    obtain ⟨threads, signaled, heq⟩ := Option.bind_eq_some_iff.mp h
    cases heq
    exact .pushed may room signaled

theorem popSection_steps {type : μ → MessageType} {s s' : State μ} {t wake : ℕ}
    {es : List (Event μ)} (may : MayPop s t) (h : popSection s t wake = some (es, s')) :
    Steps type s es s' := by
  unfold popSection at h
  split at h
  · rename_i empty
    cases h
    exact .popWaits may empty
  · rename_i some_unread
    obtain ⟨msg, loaded, h⟩ := Option.bind_eq_some_iff.mp h
    obtain ⟨threads, signaled, heq⟩ := Option.bind_eq_some_iff.mp h
    cases heq
    exact .popped may some_unread loaded signaled

theorem step_cases {type : μ → MessageType} {s s' : State μ} {a : Action μ}
    {es : List (Event μ)} (h : step type s a = some (es, s')) : Steps type s es s' := by
  cases a with
  | push t msg wake =>
    simp only [step] at h
    split at h
    · rename_i hidle
      exact pushSection_steps (.inl hidle) h
    · rename_i hwoken
      exact pushSection_steps (.inr hwoken) h
    · cases h
  | pop t wake =>
    simp only [step] at h
    split at h
    · rename_i hidle
      exact popSection_steps (.inl hidle) h
    · rename_i hwoken
      exact popSection_steps (.inr hwoken) h
    · cases h
  | peek t =>
    simp only [step] at h
    split at h
    · obtain ⟨res, answer, heq⟩ := Option.map_eq_some_iff.mp h
      cases heq
      exact .peeked answer
    · cases h
  | spurious t =>
    simp only [step] at h
    split at h
    · rename_i asleep
      cases h
      exact .wokenPop asleep
    · rename_i asleep
      cases h
      exact .wokenPush asleep
    · cases h

/-! ## The ring -/

/-- The ring holds the messages that are not popped yet. -/
structure Inv (trace : List (Event μ)) (s : State μ) : Prop where
  ring : Ring.Holds s.queue.messages s.queue.first s.queue.tail (unread trace)
  slots : s.queue.messages.length = QUEUE_SIZE
  split : pushes trace = pops trace ++ unread trace

theorem inv_init (threads : ℕ) : Inv [] (init μ threads) where
  ring := Ring.holds_nil (by decide)
  slots := List.length_replicate
  split := rfl

section Ring

variable {trace : List (Event μ)} {s : State μ}

theorem Inv.empty_iff (h : Inv trace s) : s.queue.first = s.queue.tail ↔ unread trace = [] :=
  h.ring.empty_iff

theorem Inv.full_iff (h : Inv trace s) :
    (s.queue.tail + 1) % QUEUE_SIZE = s.queue.first ↔
      (unread trace).length + 1 = QUEUE_SIZE := by
  rw [← h.slots]
  exact h.ring.full_iff

theorem Inv.length_lt (h : Inv trace s) : (unread trace).length + 1 ≤ QUEUE_SIZE := by
  rw [← h.slots]
  exact h.ring.length_lt

/-- A step that leaves the queue alone. -/
theorem Inv.keep (h : Inv trace s) {es : List (Event μ)}
    (hpushes : pushes (trace ++ es) = pushes trace)
    (hpops : pops (trace ++ es) = pops trace) (threads : List (Thread μ)) :
    Inv (trace ++ es) { s with threads := threads } := by
  have hunread : unread (trace ++ es) = unread trace := by
    unfold unread
    rw [hpushes, hpops]
  refine ⟨?_, h.slots, ?_⟩
  · rw [hunread]
    exact h.ring
  · rw [hpushes, hpops, hunread]
    exact h.split

theorem Inv.pushed (h : Inv trace s) (room : (s.queue.tail + 1) % QUEUE_SIZE ≠ s.queue.first)
    (msg : μ) (threads : List (Thread μ)) :
    unread (trace ++ [.pushed msg]) = unread trace ++ [msg] ∧
      Inv (trace ++ [.pushed msg])
        { queue := { s.queue with
            messages := s.queue.messages.set s.queue.tail (some msg)
            tail := (s.queue.tail + 1) % QUEUE_SIZE }
          threads := threads } := by
  have hpushes : pushes (trace ++ [.pushed msg]) = pushes trace ++ [msg] := by simp [pushes]
  have hpops : pops (trace ++ [.pushed msg]) = pops trace := by simp [pops]
  have hle : (pops trace).length ≤ (pushes trace).length := by
    rw [h.split, List.length_append]
    exact Nat.le_add_right _ _
  have hunread : unread (trace ++ [.pushed msg]) = unread trace ++ [msg] := by
    unfold unread
    rw [hpushes, hpops, List.drop_append_of_le_length hle]
  have hlt := h.length_lt
  have hfull := h.full_iff.not.mp room
  refine ⟨hunread, ?_, ?_, ?_⟩
  · rw [hunread]
    have hpush := h.ring.push (by rw [h.slots]; omega) msg
    rw [h.slots] at hpush
    exact hpush
  · rw [List.length_set]
    exact h.slots
  · rw [hpushes, hpops, hunread, h.split, List.append_assoc]

/-- What is popped is the oldest message. -/
theorem Inv.front (h : Inv trace s) {msg : μ}
    (loaded : s.queue.messages[s.queue.first]?.join = some msg)
    (some_unread : s.queue.first ≠ s.queue.tail) :
    ∃ rest, unread trace = msg :: rest := by
  obtain ⟨oldest, rest, hunread⟩ := List.exists_cons_of_ne_nil (h.empty_iff.not.mp some_unread)
  have hring := h.ring
  rw [hunread] at hring
  rw [hring.front] at loaded
  obtain rfl : oldest = msg := Option.some.inj loaded
  exact ⟨rest, hunread⟩

theorem Inv.popped (h : Inv trace s) {msg : μ} {rest : List μ}
    (hunread : unread trace = msg :: rest) (threads : List (Thread μ)) :
    unread (trace ++ [.popped msg]) = rest ∧
      Inv (trace ++ [.popped msg])
        { queue := { s.queue with first := (s.queue.first + 1) % QUEUE_SIZE }
          threads := threads } := by
  have hpushes : pushes (trace ++ [.popped msg]) = pushes trace := by simp [pushes]
  have hpops : pops (trace ++ [.popped msg]) = pops trace ++ [msg] := by simp [pops]
  have hrest : unread (trace ++ [.popped msg]) = rest := by
    have htail := congrArg List.tail hunread
    unfold unread at htail ⊢
    rw [List.tail_drop, List.tail_cons] at htail
    rw [hpushes, hpops, List.length_append, List.length_singleton, htail]
  have hring := h.ring
  rw [hunread] at hring
  refine ⟨hrest, ?_, h.slots, ?_⟩
  · rw [hrest]
    have hpop := hring.pop
    rw [h.slots] at hpop
    exact hpop
  · rw [hpushes, hpops, hrest, h.split, hunread, List.append_assoc]
    rfl

end Ring

theorem inv_steps {type : μ → MessageType} {trace es : List (Event μ)} {s s' : State μ}
    (h : Inv trace s) (hstep : Steps type s es s') : Inv (trace ++ es) s' := by
  cases hstep with
  | pushed _ room _ => exact (h.pushed room _ _).2
  | popped _ some_unread loaded _ =>
    obtain ⟨rest, hunread⟩ := h.front loaded some_unread
    exact (h.popped hunread _).2
  | peeked _ => exact h.keep (by simp [pushes]) (by simp [pops]) s.threads
  | pushWaits _ _ => exact h.keep (by simp) (by simp) _
  | popWaits _ _ => exact h.keep (by simp) (by simp) _
  | wokenPop _ => exact h.keep (by simp) (by simp) _
  | wokenPush _ => exact h.keep (by simp) (by simp) _

/-- What `message_queue_peek` should return. -/
def oldestType (type : μ → MessageType) : List μ → MessageType
  | [] => .MessageTypeNone
  | msg :: _ => type msg

theorem Inv.peekSection_eq {trace : List (Event μ)} {s : State μ} (h : Inv trace s)
    (type : μ → MessageType) :
    peekSection type s.queue = some (oldestType type (unread trace)) := by
  unfold peekSection
  have hempty := h.empty_iff
  rw [eq_comm] at hempty
  cases hunread : unread trace with
  | nil => rw [if_pos (hempty.mpr hunread), oldestType]
  | cons msg rest =>
    have hring := h.ring
    rw [hunread] at hring
    have hne : s.queue.tail ≠ s.queue.first := fun he => by
      rw [hempty.mp he] at hunread
      cases hunread
    rw [if_neg hne, hring.front]
    rfl

/-- Every answer of `message_queue_peek` so far was right. -/
def Peeks (type : μ → MessageType) (trace : List (Event μ)) : Prop :=
  ∀ before event after, trace = before ++ event :: after → ∀ res, event = .peeked res →
    res = oldestType type (unread before)

theorem peeks_steps {type : μ → MessageType} {trace es : List (Event μ)} {s s' : State μ}
    (h : Inv trace s) (hpeeks : Peeks type trace) (hstep : Steps type s es s') :
    Peeks type (trace ++ es) := by
  refine forall_split_append hpeeks fun before event after hes res hres => ?_
  have hmem : Event.peeked res ∈ es := by
    rw [hes, hres]
    simp
  cases hstep with
  | peeked answer =>
    obtain rfl : before = [] := by
      cases before with
      | nil => rfl
      | cons x before => simp at hes
    rw [h.peekSection_eq] at answer
    obtain rfl := Event.peeked.inj (List.mem_singleton.mp hmem)
    rw [List.append_nil]
    exact (Option.some.inj answer).symm
  | pushed _ _ _ => cases List.mem_singleton.mp hmem
  | popped _ _ _ _ => cases List.mem_singleton.mp hmem
  | pushWaits _ _ => cases hmem
  | popWaits _ _ => cases hmem
  | wokenPop _ => cases hmem
  | wokenPush _ => cases hmem

theorem run_inv {type : μ → MessageType} {threads : ℕ} {trace : List (Event μ)} {s : State μ}
    (h : Run (step type) (init μ threads) trace s) : Inv trace s ∧ Peeks type trace :=
  h.history (P := fun trace s => Inv trace s ∧ Peeks type trace)
    ⟨inv_init threads, fun before _ after heq => by simp at heq⟩
    fun _ _ _ _ _ hi hs => ⟨inv_steps hi.1 (step_cases hs), peeks_steps hi.1 hi.2 (step_cases hs)⟩

/-- A step does not write over a message that is still to be read. -/
theorem Inv.kept {type : μ → MessageType} {trace es : List (Event μ)} {s s' : State μ}
    (h : Inv trace s) (hstep : Steps type s es s') {i : ℕ} {msg : μ}
    (hat : (unread trace)[i]? = some msg) :
    s'.queue.messages[(s.queue.first + i) % QUEUE_SIZE]? = some (some msg) := by
  have hold := h.ring.stored i msg hat
  rw [h.slots] at hold
  cases hstep with
  | pushed _ _ _ =>
    have hne := h.ring.tail_ne (List.getElem?_eq_some_iff.mp hat).1
    rw [h.slots] at hne
    dsimp only
    rw [List.getElem?_set_ne hne.symm]
    exact hold
  | popped _ _ _ _ => exact hold
  | peeked _ => exact hold
  | pushWaits _ _ => exact hold
  | popWaits _ _ => exact hold
  | wokenPop _ => exact hold
  | wokenPush _ => exact hold

/-- The push of the list model. -/
theorem Inv.pushMessage {trace : List (Event Message)} {s : State Message} (h : Inv trace s)
    {P : PlaneThread} (hP : P.queue = unread trace) (msg : Message) :
    pushMessage P msg =
      if (s.queue.tail + 1) % QUEUE_SIZE = s.queue.first then none
      else some { P with queue := unread (trace ++ [.pushed msg]) } := by
  have hlt := h.length_lt
  unfold PlaneSim.pushMessage
  rw [hP]
  by_cases full : (s.queue.tail + 1) % QUEUE_SIZE = s.queue.first
  · have hlen := h.full_iff.mp full
    rw [if_pos full, if_neg (by omega)]
  · have hlen := h.full_iff.not.mp full
    rw [if_neg full, if_pos (by omega), (h.pushed full msg []).1]

/-- **The queue is a bounded FIFO queue.** -/
theorem queue_fifo {type : μ → MessageType} {threads : ℕ} {trace : List (Event μ)} {s : State μ}
    (h : Run (step type) (init μ threads) trace s) :
    s.queue.first < QUEUE_SIZE ∧ s.queue.tail < QUEUE_SIZE ∧
    (unread trace).length ≤ 9 ∧ pushes trace = pops trace ++ unread trace ∧
    (∀ (i : ℕ) msg, (unread trace)[i]? = some msg →
      s.queue.messages[(s.queue.first + i) % QUEUE_SIZE]? = some (some msg) ∧
      ∀ a es s', step type s a = some (es, s') →
        s'.queue.messages[(s.queue.first + i) % QUEUE_SIZE]? = some (some msg)) ∧
    (∀ before res after, trace = before ++ .peeked res :: after →
      (∀ msg rest, unread before = msg :: rest → res = type msg) ∧
      (unread before = [] → res = .MessageTypeNone) ∧
      ((∀ msg ∈ pushes before, type msg ≠ .MessageTypeNone) →
        res = .MessageTypeNone → unread before = [])) := by
  obtain ⟨hinv, hpeeks⟩ := run_inv h
  have hfirst := hinv.ring.first_lt
  have htail := hinv.ring.tail_lt
  have hlen := hinv.length_lt
  rw [hinv.slots] at hfirst htail
  refine ⟨hfirst, htail, by unfold QUEUE_SIZE at hlen; omega, hinv.split, fun i msg hat => ⟨?_, ?_⟩,
    fun before res after heq => ⟨?_, ?_, ?_⟩⟩
  · have hstored := hinv.ring.stored i msg hat
    rwa [hinv.slots] at hstored
  · intro a es s' hstep
    exact hinv.kept (step_cases hstep) hat
  · intro msg rest hunread
    rw [hpeeks before _ after heq res rfl, hunread]
    rfl
  · intro hunread
    rw [hpeeks before _ after heq res rfl, hunread]
    rfl
  · intro htypes hres
    rw [hpeeks before _ after heq res rfl] at hres
    cases hunread : unread before with
    | nil => rfl
    | cons msg rest =>
      rw [hunread] at hres
      refine absurd hres (htypes msg (List.mem_of_mem_drop (i := (pops before).length) ?_))
      change msg ∈ unread before
      rw [hunread]
      exact List.mem_cons_self ..

/-- A thread pushes, another looks and pops, and looks again. -/
theorem queue_fifo_finish :
    ∃ s, Run (step Message.type) (init Message 2)
        [.pushed .finish, .peeked .MessageTypeEnd, .popped .finish, .peeked .MessageTypeNone] s ∧
      s.queue.first < QUEUE_SIZE ∧ s.queue.tail < QUEUE_SIZE := by
  have hrun : ∃ s, exec (step Message.type) (init Message 2)
      [.push 0 .finish 0, .peek 1, .pop 1 0, .peek 1] =
        some ([.pushed .finish, .peeked .MessageTypeEnd, .popped .finish,
          .peeked .MessageTypeNone], s) := ⟨_, rfl⟩
  obtain ⟨s, hs⟩ := hrun
  obtain ⟨hfirst, htail, -⟩ := queue_fifo (run_of_exec hs)
  exact ⟨s, run_of_exec hs, hfirst, htail⟩

/-- What a plane finds in its queue is never taken for an empty queue. -/
theorem type_ne_none (msg : Message) : msg.type ≠ .MessageTypeNone := by
  rcases msg with (_ | _) | _ | _ | _ <;> simp [Message.type, Phase.type]

/-! ## Wake-ups -/

/-- The places in the ring that are free. -/
def places (trace : List (Event μ)) : ℕ := QUEUE_SIZE - 1 - (unread trace).length

/-- Messages and places are covered by threads that were woken for them. -/
structure Woken (trace : List (Event μ)) (s : State μ) : Prop where
  messages : Covered write s.threads (unread trace).length
  places : Covered read s.threads (places trace)

theorem woken_init (threads : ℕ) : Woken [] (init μ threads) := by
  constructor <;>
  · intro hpos
    obtain ⟨x, hx, hasleep⟩ := List.countP_pos_iff.mp hpos
    obtain rfl := List.eq_of_mem_replicate hx
    cases hasleep

section Threads

variable {s : State μ} {t n : ℕ} {msg : μ}

/-- Nobody is asleep on both conditions, or asleep on one and woken for the other. -/
theorem write_read (x : Thread μ) (h : write.asleep x = true) :
    read.woken x = false ∧ read.asleep (write.wake x) = false := by
  rcases x with _ | woken | ⟨msg, woken⟩ <;> simp [write, read] at h ⊢

theorem read_write (x : Thread μ) (h : read.asleep x = true) :
    write.woken x = false ∧ write.asleep (read.wake x) = false := by
  rcases x with _ | woken | ⟨msg, woken⟩ <;> simp [write, read] at h ⊢

/-- A thread that pushes has nothing to do with `write`. -/
theorem MayPush.thread (may : MayPush s t msg) :
    ∃ x, s.threads[t]? = some x ∧ write.woken x = false ∧ write.asleep x = false := by
  rcases may with hidle | hwoken
  · exact ⟨_, hidle, rfl, rfl⟩
  · exact ⟨_, hwoken, rfl, rfl⟩

/-- A thread that pops has nothing to do with `read`. -/
theorem MayPop.thread (may : MayPop s t) :
    ∃ x, s.threads[t]? = some x ∧ read.woken x = false ∧ read.asleep x = false := by
  rcases may with hidle | hwoken
  · exact ⟨_, hidle, rfl, rfl⟩
  · exact ⟨_, hwoken, rfl, rfl⟩

/-- A thread that pushes, or waits for a place, does not matter to those that pop. -/
theorem MayPush.other (may : MayPush s t msg) (h : Covered write s.threads n) {y : Thread μ}
    (hy : write.asleep y = false) : Covered write (s.threads.set t y) n := by
  obtain ⟨x, hx, hwoken, -⟩ := may.thread
  exact h.other hx hwoken hy

theorem MayPop.other (may : MayPop s t) (h : Covered read s.threads n) {y : Thread μ}
    (hy : read.asleep y = false) : Covered read (s.threads.set t y) n := by
  obtain ⟨x, hx, hwoken, -⟩ := may.thread
  exact h.other hx hwoken hy

/-- A thread that pushes takes a place. -/
theorem MayPush.take (may : MayPush s t msg) (h : Covered read s.threads (n + 1)) :
    Covered read (s.threads.set t .idle) n := by
  obtain ⟨x, hx, -, -⟩ := may.thread
  exact h.take hx rfl

/-- A thread that pops takes a message. -/
theorem MayPop.take (may : MayPop s t) (h : Covered write s.threads (n + 1)) :
    Covered write (s.threads.set t .idle) n := by
  obtain ⟨x, hx, -, -⟩ := may.thread
  exact h.take hx rfl

theorem MayPush.countP_asleep (may : MayPush s t msg) {y : Thread μ}
    (hy : write.asleep y = false) :
    (s.threads.set t y).countP write.asleep = s.threads.countP write.asleep := by
  obtain ⟨x, hx, -, hasleep⟩ := may.thread
  exact countP_set_eq hx hasleep hy

theorem MayPop.countP_asleep (may : MayPop s t) {y : Thread μ} (hy : read.asleep y = false) :
    (s.threads.set t y).countP read.asleep = s.threads.countP read.asleep := by
  obtain ⟨x, hx, -, hasleep⟩ := may.thread
  exact countP_set_eq hx hasleep hy

theorem MayPush.countP_le (may : MayPush s t msg) :
    (s.threads.set t .idle).countP read.asleep ≤ s.threads.countP read.asleep := by
  obtain ⟨x, hx, -, -⟩ := may.thread
  exact countP_set_le hx rfl

theorem MayPop.countP_le (may : MayPop s t) :
    (s.threads.set t .idle).countP write.asleep ≤ s.threads.countP write.asleep := by
  obtain ⟨x, hx, -, -⟩ := may.thread
  exact countP_set_le hx rfl

end Threads

theorem woken_steps {type : μ → MessageType} {trace es : List (Event μ)} {s s' : State μ}
    (hinv : Inv trace s) (h : Woken trace s) (hstep : Steps type s es s') :
    Woken (trace ++ es) s' := by
  have hlen := hinv.length_lt
  cases hstep with
  | @pushed t msg wake threads may room signaled =>
    have hunread := (hinv.pushed room msg []).1
    have hfull := hinv.full_iff.not.mp room
    constructor
    · rw [hunread, List.length_append, List.length_singleton]
      exact (may.other h.messages rfl).signal signaled
    · have hplaces : places trace = places (trace ++ [.pushed msg]) + 1 := by
        unfold places
        rw [hunread, List.length_append, List.length_singleton]
        omega
      have hcovered := h.places
      rw [hplaces] at hcovered
      exact (may.take hcovered).signal_other (fun x hx => (write_read x hx).1)
        (fun x hx => (write_read x hx).2) signaled
  | @popped t msg wake threads may some_unread loaded signaled =>
    obtain ⟨rest, hunread⟩ := hinv.front loaded some_unread
    have hrest := (hinv.popped hunread []).1
    rw [hunread, List.length_cons] at hlen
    have hmessages := h.messages
    rw [hunread, List.length_cons] at hmessages
    constructor
    · rw [hrest]
      exact (may.take hmessages).signal_other (fun x hx => (read_write x hx).1)
        (fun x hx => (read_write x hx).2) signaled
    · have hplaces : places (trace ++ [.popped msg]) = places trace + 1 := by
        unfold places
        rw [hrest, hunread, List.length_cons]
        omega
      rw [hplaces]
      exact (may.other h.places rfl).signal signaled
  | @peeked res _ =>
    have hunread : unread (trace ++ [.peeked res]) = unread trace := by simp [unread, pushes, pops]
    refine ⟨?_, ?_⟩
    · rw [hunread]
      exact h.messages
    · unfold places
      rw [hunread]
      exact h.places
  | pushWaits may full =>
    rw [List.append_nil]
    refine ⟨may.other h.messages rfl, ?_⟩
    have hnone : places trace = 0 := by
      have hfull := hinv.full_iff.mp full
      unfold places
      omega
    rw [hnone]
    exact covered_zero _ _
  | popWaits may empty =>
    rw [List.append_nil]
    refine ⟨?_, may.other h.places rfl⟩
    rw [hinv.empty_iff.mp empty]
    exact covered_zero _ _
  | wokenPop asleep =>
    rw [List.append_nil]
    exact ⟨h.messages.wake asleep rfl, h.places.other asleep rfl rfl⟩
  | wokenPush asleep =>
    rw [List.append_nil]
    exact ⟨h.messages.other asleep rfl rfl, h.places.wake asleep rfl⟩

theorem run_woken {type : μ → MessageType} {threads : ℕ} {trace : List (Event μ)} {s : State μ}
    (h : Run (step type) (init μ threads) trace s) : Inv trace s ∧ Woken trace s :=
  h.history (P := fun trace s => Inv trace s ∧ Woken trace s)
    ⟨inv_init threads, woken_init threads⟩
    fun _ _ _ _ _ hi hs =>
      ⟨inv_steps hi.1 (step_cases hs), woken_steps hi.1 hi.2 (step_cases hs)⟩

/-- A woken thread that finds a message takes it. -/
theorem Inv.exists_pop {trace : List (Event μ)} {s : State μ} (h : Inv trace s)
    (type : μ → MessageType) {t : ℕ} (ht : s.threads[t]? = some (.popping true))
    (hne : unread trace ≠ []) :
    ∃ wake msg s', step type s (.pop t wake) = some ([.popped msg], s') := by
  obtain ⟨msg, rest, hunread⟩ := List.exists_cons_of_ne_nil hne
  have hring := h.ring
  rw [hunread] at hring
  obtain ⟨wake, threads, signaled⟩ := exists_signal read (s.threads.set t .idle)
  have hpop : popSection s t wake = some ([.popped msg],
      { queue := { s.queue with first := (s.queue.first + 1) % QUEUE_SIZE }
        threads := threads }) := by
    rw [popSection, if_neg (h.empty_iff.not.mpr hne), hring.front, signaled]
    rfl
  have hstep : step type s (.pop t wake) = popSection s t wake := by simp only [step, ht]
  exact ⟨wake, msg, _, hstep.trans hpop⟩

/-- A woken thread that finds a place takes it. -/
theorem Inv.exists_push {trace : List (Event μ)} {s : State μ} (h : Inv trace s)
    (type : μ → MessageType) {t : ℕ} {msg : μ} (ht : s.threads[t]? = some (.pushing msg true))
    (hplaces : 0 < places trace) :
    ∃ wake s', step type s (.push t msg wake) = some ([.pushed msg], s') := by
  have room : (s.queue.tail + 1) % QUEUE_SIZE ≠ s.queue.first := by
    rw [Ne, h.full_iff]
    unfold places at hplaces
    omega
  obtain ⟨wake, threads, signaled⟩ := exists_signal write (s.threads.set t .idle)
  have hpush : pushSection s t msg wake = some ([.pushed msg],
      { queue := { s.queue with
          messages := s.queue.messages.set s.queue.tail (some msg)
          tail := (s.queue.tail + 1) % QUEUE_SIZE }
        threads := threads }) := by
    rw [pushSection, if_neg room, signaled]
    rfl
  have hstep : step type s (.push t msg wake) = pushSection s t msg wake := by
    simp only [step, ht]
  exact ⟨wake, _, hstep.trans hpush⟩

/-! ## Sleeping on -/

/-- Thread `t` is asleep, waiting for a message, and there is one. -/
def sleepsOnMessage (t : ℕ) (s : State μ) : Bool :=
  s.threads[t]?.any write.asleep && decide (s.queue.first ≠ s.queue.tail)

/-- Thread `t` is asleep, waiting for a place, and there is one. -/
def sleepsOnPlace (t : ℕ) (s : State μ) : Bool :=
  s.threads[t]?.any read.asleep && decide ((s.queue.tail + 1) % QUEUE_SIZE ≠ s.queue.first)

/-- The steps after which `sleeps` holds. -/
def stepWhile (type : μ → MessageType) (sleeps : State μ → Bool) (s : State μ) (a : Action μ) :
    Option (List (Event μ) × State μ) :=
  (step type s a).filter fun r => sleeps r.2

theorem exists_sleeper_message {s : State μ} {t : ℕ} (h : sleepsOnMessage t s = true) :
    ∃ x, s.threads[t]? = some x ∧ write.asleep x = true ∧ s.queue.first ≠ s.queue.tail := by
  obtain ⟨hany, hsome⟩ := Bool.and_eq_true_iff.mp h
  obtain ⟨x, hx, hasleep⟩ := (Option.any_eq_true _ _).mp hany
  exact ⟨x, hx, hasleep, of_decide_eq_true hsome⟩

theorem exists_sleeper_place {s : State μ} {t : ℕ} (h : sleepsOnPlace t s = true) :
    ∃ x, s.threads[t]? = some x ∧ read.asleep x = true ∧
      (s.queue.tail + 1) % QUEUE_SIZE ≠ s.queue.first := by
  obtain ⟨hany, hroom⟩ := Bool.and_eq_true_iff.mp h
  obtain ⟨x, hx, hasleep⟩ := (Option.any_eq_true _ _).mp hany
  exact ⟨x, hx, hasleep, of_decide_eq_true hroom⟩

theorem countP_asleep_pos {c : Cond (Thread μ)} {threads : List (Thread μ)} {t : ℕ} {x : Thread μ}
    (hx : threads[t]? = some x) (hasleep : c.asleep x = true) : 0 < threads.countP c.asleep :=
  List.countP_pos_iff.mpr ⟨x, List.mem_of_getElem? hx, hasleep⟩

theorem Inv.places_pos {trace : List (Event μ)} {s : State μ} (h : Inv trace s)
    (room : (s.queue.tail + 1) % QUEUE_SIZE ≠ s.queue.first) : 0 < places trace := by
  have hlen := h.length_lt
  have hfull := h.full_iff.not.mp room
  unfold places
  omega

theorem length_unread_append {trace es : List (Event μ)} {s s' : State μ} (h : Inv trace s)
    (h' : Inv (trace ++ es) s') :
    (unread trace).length + (pushes es).length =
      (pops es).length + (unread (trace ++ es)).length := by
  have h1 := congrArg List.length h.split
  have h2 := congrArg List.length h'.split
  unfold pushes pops at h1 h2 ⊢
  rw [List.filterMap_append, List.filterMap_append] at h2
  simp only [List.length_append] at h1 h2
  omega

/-- While there are messages every push wakes a sleeper, and nobody else falls asleep. -/
theorem asleep_write {type : μ → MessageType} {s s' : State μ} {es : List (Event μ)}
    (hstep : Steps type s es s') (hsome : s.queue.first ≠ s.queue.tail)
    (hpos : 0 < s.threads.countP write.asleep) :
    (pushes es).length + s'.threads.countP write.asleep ≤ s.threads.countP write.asleep := by
  cases hstep with
  | pushed may _ signaled =>
    have hsignal := countP_signal signaled
    rw [may.countP_asleep rfl] at hsignal
    simp only [pushes, List.filterMap_cons, List.filterMap_nil, List.length_singleton]
    omega
  | popped may _ _ signaled =>
    have hsignal := countP_signal_other (fun x hx => (read_write x hx).2) signaled
    simpa [pushes] using hsignal.trans may.countP_le
  | peeked _ => simp [pushes]
  | pushWaits may _ => simpa [pushes] using (may.countP_asleep rfl).le
  | popWaits _ empty => exact absurd empty hsome
  | wokenPop asleep => simpa [pushes] using countP_set_le (c := write) asleep rfl
  | wokenPush asleep => simpa [pushes] using countP_set_le (c := write) asleep rfl

/-- While there are places every pop wakes a sleeper, and nobody else falls asleep. -/
theorem asleep_read {type : μ → MessageType} {s s' : State μ} {es : List (Event μ)}
    (hstep : Steps type s es s') (hroom : (s.queue.tail + 1) % QUEUE_SIZE ≠ s.queue.first)
    (hpos : 0 < s.threads.countP read.asleep) :
    (pops es).length + s'.threads.countP read.asleep ≤ s.threads.countP read.asleep := by
  cases hstep with
  | popped may _ _ signaled =>
    have hsignal := countP_signal signaled
    rw [may.countP_asleep rfl] at hsignal
    simp only [pops, List.filterMap_cons, List.filterMap_nil, List.length_singleton]
    omega
  | pushed may _ signaled =>
    have hsignal := countP_signal_other (fun x hx => (write_read x hx).2) signaled
    simpa [pops] using hsignal.trans may.countP_le
  | peeked _ => simp [pops]
  | popWaits may _ => simpa [pops] using (may.countP_asleep rfl).le
  | pushWaits _ full => exact absurd full hroom
  | wokenPop asleep => simpa [pops] using countP_set_le (c := read) asleep rfl
  | wokenPush asleep => simpa [pops] using countP_set_le (c := read) asleep rfl

/-- While somebody sleeps on, the sleepers pay for the events that `f` picks out. -/
theorem stepWhile_run {type : μ → MessageType} {trace es : List (Event μ)} {s s' : State μ}
    {sleeps : State μ → Bool} {c : Cond (Thread μ)} {f : Event μ → Option μ} (hinv : Inv trace s)
    (hsleeps : sleeps s = true)
    (hstep : ∀ {s1 s2 : State μ} {es : List (Event μ)}, sleeps s1 = true → Steps type s1 es s2 →
      (es.filterMap f).length + s2.threads.countP c.asleep ≤ s1.threads.countP c.asleep)
    (h : Run (stepWhile type sleeps) s es s') :
    Inv (trace ++ es) s' ∧ sleeps s' = true ∧
      (es.filterMap f).length + s'.threads.countP c.asleep ≤ s.threads.countP c.asleep := by
  refine h.history (P := fun es s' => Inv (trace ++ es) s' ∧ sleeps s' = true ∧
    (es.filterMap f).length + s'.threads.countP c.asleep ≤ s.threads.countP c.asleep)
    ⟨by rwa [List.append_nil], hsleeps, by simp⟩ ?_
  rintro es s1 a es' s2 ⟨hinv1, hsleeps1, hcount1⟩ hlast
  obtain ⟨hlast, hsleeps2⟩ := Option.filter_eq_some_iff.mp hlast
  have hsteps := step_cases hlast
  have hle := hstep hsleeps1 hsteps
  refine ⟨?_, hsleeps2, ?_⟩
  · rw [← List.append_assoc]
    exact inv_steps hinv1 hsteps
  · rw [List.filterMap_append, List.length_append]
    omega

/-- A thread cannot sleep on for long while there is a message. -/
theorem sleepsOnMessage_bound {type : μ → MessageType} {trace es : List (Event μ)}
    {s s' : State μ} (hinv : Inv trace s) {t : ℕ} (hsleeps : sleepsOnMessage t s = true)
    (h : Run (stepWhile type (sleepsOnMessage t)) s es s') :
    (pushes es).length < s.threads.countP write.asleep ∧
      (pops es).length < (unread trace).length + s.threads.countP write.asleep := by
  obtain ⟨hinv', hsleeps', hcount⟩ := stepWhile_run hinv hsleeps (fun hs hsteps => by
    obtain ⟨x, hx, hasleep, hsome⟩ := exists_sleeper_message hs
    exact asleep_write hsteps hsome (countP_asleep_pos hx hasleep)) h
  obtain ⟨x, hx, hasleep, hsome⟩ := exists_sleeper_message hsleeps'
  have hpos := countP_asleep_pos hx hasleep
  have hpushes : (pushes es).length < s.threads.countP write.asleep := by
    unfold pushes
    omega
  have hlen := length_unread_append hinv hinv'
  have hne := List.length_pos_iff.mpr (hinv'.empty_iff.not.mp hsome)
  omega

/-- A thread cannot sleep on for long while there is a place. -/
theorem sleepsOnPlace_bound {type : μ → MessageType} {trace es : List (Event μ)}
    {s s' : State μ} (hinv : Inv trace s) {t : ℕ} (hsleeps : sleepsOnPlace t s = true)
    (h : Run (stepWhile type (sleepsOnPlace t)) s es s') :
    (pops es).length < s.threads.countP read.asleep ∧
      (pushes es).length < places trace + s.threads.countP read.asleep := by
  obtain ⟨hinv', hsleeps', hcount⟩ := stepWhile_run hinv hsleeps (fun hs hsteps => by
    obtain ⟨x, hx, hasleep, hroom⟩ := exists_sleeper_place hs
    exact asleep_read hsteps hroom (countP_asleep_pos hx hasleep)) h
  obtain ⟨x, hx, hasleep, hroom⟩ := exists_sleeper_place hsleeps'
  have hpos := countP_asleep_pos hx hasleep
  have hpops : (pops es).length < s.threads.countP read.asleep := by
    unfold pops
    omega
  have hlen := length_unread_append hinv hinv'
  have hplaces := hinv'.places_pos hroom
  have hlt := hinv.length_lt
  unfold places at hplaces ⊢
  omega

/-- **No wake-up is lost.** -/
theorem no_lost_wakeup {type : μ → MessageType} {threads : ℕ} {trace : List (Event μ)}
    {s : State μ} (h : Run (step type) (init μ threads) trace s) :
    -- no more messages, or places, than threads woken for them
    (∀ t : ℕ, s.threads[t]? = some (.popping false) →
      (unread trace).length ≤ s.threads.countP write.woken) ∧
    (∀ (t : ℕ) msg, s.threads[t]? = some (.pushing msg false) →
      QUEUE_SIZE - 1 - (unread trace).length ≤ s.threads.countP read.woken) ∧
    -- one of them can go on at once
    (∀ t : ℕ, sleepsOnMessage t s = true → ∃ t' wake msg s',
      s.threads[t']? = some (.popping true) ∧
      step type s (.pop t' wake) = some ([.popped msg], s')) ∧
    (∀ t : ℕ, sleepsOnPlace t s = true → ∃ t' wake msg s',
      s.threads[t']? = some (.pushing msg true) ∧
      step type s (.push t' msg wake) = some ([.pushed msg], s')) ∧
    -- and a thread does not sleep on through many sections
    (∀ (t : ℕ) es s', sleepsOnMessage t s = true →
      Run (stepWhile type (sleepsOnMessage t)) s es s' →
      (pushes es).length + (pops es).length <
        (unread trace).length + 2 * s.threads.countP write.asleep) ∧
    (∀ (t : ℕ) es s', sleepsOnPlace t s = true →
      Run (stepWhile type (sleepsOnPlace t)) s es s' →
      (pushes es).length + (pops es).length <
        QUEUE_SIZE - 1 - (unread trace).length + 2 * s.threads.countP read.asleep) := by
  obtain ⟨hinv, hwoken⟩ := run_woken h
  refine ⟨fun t ht => ?_, fun t msg ht => ?_, fun t ht => ?_, fun t ht => ?_,
    fun t es s' ht hrun => ?_, fun t es s' ht hrun => ?_⟩
  · exact hwoken.messages (List.countP_pos_iff.mpr ⟨_, List.mem_of_getElem? ht, rfl⟩)
  · exact hwoken.places (List.countP_pos_iff.mpr ⟨_, List.mem_of_getElem? ht, rfl⟩)
  · obtain ⟨x, hx, hasleep, hsome⟩ := exists_sleeper_message ht
    have hne := hinv.empty_iff.not.mp hsome
    obtain ⟨t', y, hy, hw⟩ := hwoken.messages.exists_woken hx hasleep (List.length_pos_iff.mpr hne)
    obtain rfl : y = .popping true := by
      rcases y with _ | woken | ⟨msg, woken⟩ <;> simp_all [write]
    obtain ⟨wake, msg, s', hstep⟩ := hinv.exists_pop type hy hne
    exact ⟨t', wake, msg, s', hy, hstep⟩
  · obtain ⟨x, hx, hasleep, hroom⟩ := exists_sleeper_place ht
    have hplaces := hinv.places_pos hroom
    obtain ⟨t', y, hy, hw⟩ := hwoken.places.exists_woken hx hasleep hplaces
    obtain ⟨msg, rfl⟩ : ∃ msg, y = .pushing msg true := by
      rcases y with _ | woken | ⟨msg, woken⟩ <;> simp_all [read]
    obtain ⟨wake, s', hstep⟩ := hinv.exists_push type hy hplaces
    exact ⟨t', wake, msg, s', hy, hstep⟩
  · have hbound := sleepsOnMessage_bound hinv ht hrun
    omega
  · have hbound := sleepsOnPlace_bound hinv ht hrun
    unfold places at hbound
    omega

/-- Two threads wait for a message, and one is pushed: one of them sleeps on, and the other is woken
for the message. -/
theorem no_lost_wakeup_two :
    ∃ s, Run (step Message.type) (init Message 3) [.pushed .finish] s ∧
      sleepsOnMessage 0 s = true ∧ ∃ t' wake msg s', s.threads[t']? = some (.popping true) ∧
        step Message.type s (.pop t' wake) = some ([.popped msg], s') := by
  have hrun : ∃ s, exec (step Message.type) (init Message 3)
      [.pop 0 0, .pop 1 0, .push 2 .finish 1] = some ([.pushed .finish], s) ∧
      sleepsOnMessage 0 s = true := ⟨_, rfl, rfl⟩
  obtain ⟨s, hs, hsleeps⟩ := hrun
  exact ⟨s, run_of_exec hs, hsleeps, (no_lost_wakeup (run_of_exec hs)).2.2.1 0 hsleeps⟩

end PlaneSim.MessageQueue
