import PlaneSim.Lib.Lock
import PlaneSim.Lib.Ranking
import PlaneSim.Lib.Update
import PlaneSim.Shmem

/-!
# Creating a shared-memory queue

`ipc_create` of `ipc/shmem.c`: the process that listens under a name and those that establish a
connection to it open one named lock. Whoever makes it initialises the queue, and the others wait
for the lock; all go on to use the queue as soon as they have returned.

1. Until the queue is there nobody else is past the lock, and from then on the queue only sees the
   steps of `ipc_read` and `ipc_write` (`Inv`).
2. Somebody can go on as long as a call has not returned (`Inv.progress`).
3. A lock that an earlier run has left taken blocks every call (`not_returned_of_stale`).
4. Creation and use together refine the system that starts with the queue there
   (`creation_refines`).
-/

namespace PlaneSim.Creation

open Lts Lock Shmem

/-- Where a process is in `ipc_create`. -/
inductive Pc where
  /-- Before the `sem_open` with `O_CREAT | O_EXCL`. -/
  | opening
  /-- Before the second `sem_open`. -/
  | reopening
  | waiting
  /-- Before `shm_open`, `ftruncate` and `mmap`. -/
  | mapping (isInited : Bool)
  /-- In the loop over the entries. -/
  | clearing (i : ℕ)
  /-- Before the calls of `ipc_sem_create`. -/
  | semaphores
  | posting
  | returned
deriving DecidableEq, Repr

/-- `lock` is the value of the named semaphore. -/
structure State where
  lock : Option ℕ
  shmem : Shmem.State
  pcs : List Pc
deriving DecidableEq, Repr

inductive Action where
  | create (process : ℕ)
  | use (a : Shmem.Action)

def State.moveTo (s : State) (p : ℕ) (pc : Pc) : State := { s with pcs := s.pcs.set p pc }

def State.setQueue (s : State) (queue : Queue) : State :=
  { s with shmem := { s.shmem with queue := queue } }

/-- The body of the loop over the entries. -/
def clearEntry (queue : Queue) (i : ℕ) : Queue :=
  { queue with index := queue.index.set i (-1)
               slots := queue.slots.modify i fun entry => { entry with len := 0 } }

/-- The calls of `ipc_sem_create`. -/
def createSems (queue : Queue) : Queue :=
  { queue with readWait := 0, writeSem := ENTRIES_PER_QUEUE }

def createStep (s : State) (p : ℕ) : Option State :=
  match s.pcs[p]? with
  | some .opening =>
    match s.lock with
    | none => some ({ s with lock := some 0 }.moveTo p (.mapping false))
    | some _ => some (s.moveTo p .reopening)
  | some .reopening => some (s.moveTo p .waiting)
  | some .waiting =>
    match s.lock with
    | some (value + 1) => some ({ s with lock := some value }.moveTo p (.mapping true))
    | _ => none
  | some (.mapping isInited) => some (s.moveTo p (if isInited then .posting else .clearing 0))
  | some (.clearing i) =>
    if i < ENTRIES_PER_QUEUE then
      some ((s.setQueue (clearEntry s.shmem.queue i)).moveTo p (.clearing (i + 1)))
    else some (s.moveTo p .semaphores)
  | some .semaphores => some ((s.setQueue (createSems s.shmem.queue)).moveTo p .posting)
  | some .posting => some ({ s with lock := s.lock.map (· + 1) }.moveTo p .returned)
  | some .returned | none => none

def threadOf : Shmem.Action → ℕ
  | .startWrite t _ => t
  | .startRead t _ => t
  | .critical t => t
  | .post t => t

/-- The sections of `ipc_read` and `ipc_write` take the lock. -/
def State.allows (s : State) : Shmem.Action → Bool
  | .critical _ => s.lock.getD 0 != 0
  | _ => true

/-- `owner` is the process of a thread. -/
def step (owner : ℕ → ℕ) (s : State) : Action → Option (List Event × State)
  | .create p => (createStep s p).map fun s' => ([], s')
  | .use a =>
    if s.pcs[owner (threadOf a)]? = some .returned ∧ s.allows a = true then
      (Shmem.step s.shmem a).map fun r => (r.1, { s with shmem := r.2 })
    else none

/-- `queue` is what the memory held; no earlier run has left its lock. -/
def init (queue : Queue) (processes threads : ℕ) : State where
  lock := none
  shmem := { queue := queue, ops := List.replicate threads .idle }
  pcs := List.replicate processes .opening

/-! ## The loop over the entries -/

/-- The queue after `i` rounds of the loop. -/
def cleared (queue : Queue) (i : ℕ) : Queue := (List.range i).foldl clearEntry queue

theorem cleared_succ (queue : Queue) (i : ℕ) :
    cleared queue (i + 1) = clearEntry (cleared queue i) i := by
  unfold cleared
  rw [List.range_succ, List.foldl_append]
  rfl

theorem getElem?_index_cleared (queue : Queue) (i j : ℕ) :
    (cleared queue i).index[j]? =
      if j < i then queue.index[j]?.map fun _ => -1 else queue.index[j]? := by
  induction i with
  | zero => simp [cleared]
  | succ i ih =>
    have hset : ((cleared queue i).index.set i (-1))[j]? =
        if i = j then (cleared queue i).index[j]?.map fun _ => -1
        else (cleared queue i).index[j]? := by
      by_cases hij : i = j
      · subst hij
        rw [if_pos rfl, List.getElem?_set_self']
        rfl
      · rw [if_neg hij, List.getElem?_set_ne hij]
    rw [cleared_succ, clearEntry, hset, ih]
    by_cases hij : i = j
    · subst hij
      simp
    · have hlt : j < i + 1 ↔ j < i := by omega
      simp only [if_neg hij, hlt]

theorem getElem?_slots_cleared (queue : Queue) (i j : ℕ) :
    (cleared queue i).slots[j]? =
      if j < i then queue.slots[j]?.map fun entry => { entry with len := 0 }
      else queue.slots[j]? := by
  induction i with
  | zero => simp [cleared]
  | succ i ih =>
    rw [cleared_succ, clearEntry]
    dsimp only
    rw [List.getElem?_modify, ih]
    by_cases hij : i = j
    · subst hij
      simp
    · have hlt : j < i + 1 ↔ j < i := by omega
      simp only [hij, hlt]
      cases queue.slots[j]? <;> simp

/-- The queue has the sizes of the arrays. -/
structure Sized (queue : Queue) : Prop where
  index : queue.index.length = ENTRIES_PER_QUEUE
  slots : queue.slots.length = ENTRIES_PER_QUEUE

/-- **The initialisation.** It leaves the queue that `ipc_read` and `ipc_write` start with. -/
theorem cleared_eq_initQueue {queue : Queue} (h : Sized queue) :
    createSems (cleared queue ENTRIES_PER_QUEUE) =
      initQueue (queue.slots.map Entry.content) := by
  have hindex : (cleared queue ENTRIES_PER_QUEUE).index =
      List.replicate ENTRIES_PER_QUEUE (-1) := by
    ext1 j
    rw [getElem?_index_cleared, List.getElem?_replicate]
    by_cases hj : j < ENTRIES_PER_QUEUE
    · rw [if_pos hj, if_pos hj, List.getElem?_eq_getElem (h.index ▸ hj)]
      rfl
    · rw [if_neg hj, if_neg hj, List.getElem?_eq_none_iff, h.index]
      omega
  have hslots : (cleared queue ENTRIES_PER_QUEUE).slots =
      (queue.slots.map Entry.content).map fun content => { len := 0, content := content } := by
    ext1 j
    rw [getElem?_slots_cleared, List.map_map, List.getElem?_map]
    by_cases hj : j < ENTRIES_PER_QUEUE
    · rw [if_pos hj]
      rfl
    · have hnone : queue.slots[j]? = none := by
        rw [List.getElem?_eq_none_iff, h.slots]
        omega
      rw [if_neg hj, hnone]
      rfl
  rw [createSems, hindex, hslots]
  rfl

/-! ## What a step of `ipc_create` does -/

inductive Creates (s : State) (p : ℕ) : State → Prop where
  | makes (pc : s.pcs[p]? = some .opening) (lock : s.lock = none) :
      Creates s p ({ s with lock := some 0 }.moveTo p (.mapping false))
  | opens {value : ℕ} (pc : s.pcs[p]? = some .opening) (lock : s.lock = some value) :
      Creates s p (s.moveTo p .reopening)
  | reopens (pc : s.pcs[p]? = some .reopening) : Creates s p (s.moveTo p .waiting)
  | waits {value : ℕ} (pc : s.pcs[p]? = some .waiting) (lock : s.lock = some (value + 1)) :
      Creates s p ({ s with lock := some value }.moveTo p (.mapping true))
  | maps (pc : s.pcs[p]? = some (.mapping true)) : Creates s p (s.moveTo p .posting)
  | mapsNew (pc : s.pcs[p]? = some (.mapping false)) : Creates s p (s.moveTo p (.clearing 0))
  | clears {i : ℕ} (pc : s.pcs[p]? = some (.clearing i)) (lt : i < ENTRIES_PER_QUEUE) :
      Creates s p ((s.setQueue (clearEntry s.shmem.queue i)).moveTo p (.clearing (i + 1)))
  | cleared {i : ℕ} (pc : s.pcs[p]? = some (.clearing i)) (le : ENTRIES_PER_QUEUE ≤ i) :
      Creates s p (s.moveTo p .semaphores)
  | semaphores (pc : s.pcs[p]? = some .semaphores) :
      Creates s p ((s.setQueue (createSems s.shmem.queue)).moveTo p .posting)
  | posts (pc : s.pcs[p]? = some .posting) :
      Creates s p ({ s with lock := s.lock.map (· + 1) }.moveTo p .returned)

theorem createStep_cases {s s' : State} {p : ℕ} (h : createStep s p = some s') :
    Creates s p s' := by
  unfold createStep at h
  split at h
  · rename_i pc
    split at h
    · rename_i lock
      cases h
      exact .makes pc lock
    · rename_i lock
      cases h
      exact .opens pc lock
  · rename_i pc
    cases h
    exact .reopens pc
  · rename_i pc
    split at h
    · rename_i lock
      cases h
      exact .waits pc lock
    · cases h
  · rename_i isInited pc
    cases h
    cases isInited with
    | true => exact .maps pc
    | false => exact .mapsNew pc
  · rename_i pc
    split at h
    · rename_i lt
      cases h
      exact .clears pc lt
    · rename_i le
      cases h
      exact .cleared pc (Nat.le_of_not_lt le)
  · rename_i pc
    cases h
    exact .semaphores pc
  · rename_i pc
    cases h
    exact .posts pc
  · cases h
  · cases h

/-- Only `sem_wait` blocks. -/
theorem createStep_isSome {s : State} {p : ℕ} {pc : Pc} (h : s.pcs[p]? = some pc)
    (hreturned : pc ≠ .returned) (hwaiting : pc = .waiting → ∃ value, s.lock = some (value + 1)) :
    (createStep s p).isSome := by
  unfold createStep
  rw [h]
  cases pc with
  | opening => cases s.lock <;> rfl
  | waiting =>
    obtain ⟨value, hlock⟩ := hwaiting rfl
    rw [hlock]
    rfl
  | clearing i =>
    dsimp only
    split <;> rfl
  | returned => exact absurd rfl hreturned
  | reopening => rfl
  | mapping isInited => rfl
  | semaphores => rfl
  | posting => rfl

/-! ## The invariant -/

/-- Before the lock. -/
def Pc.early : Pc → Bool
  | .opening => true
  | .reopening => true
  | .waiting => true
  | _ => false

/-- Between the lock and its post. -/
def Pc.inside : Pc → Bool
  | .mapping _ => true
  | .clearing _ => true
  | .semaphores => true
  | .posting => true
  | _ => false

/-- The queue is not there yet. -/
def Pc.creating : Pc → Bool
  | .mapping isInited => !isInited
  | .clearing _ => true
  | .semaphores => true
  | _ => false

/-- How far the process that creates the queue is in the loop. -/
def Pc.rounds : Pc → ℕ
  | .clearing i => i
  | .semaphores => ENTRIES_PER_QUEUE
  | _ => 0

/-- Process `p` is between the lock and its post. -/
def Inside (pcs : List Pc) (p : ℕ) : Prop := ∃ pc, pcs[p]? = some pc ∧ pc.inside = true

theorem inside_of {pcs : List Pc} {p : ℕ} {pc : Pc} (h : pcs[p]? = some pc) :
    Inside pcs p ↔ pc.inside = true := by
  simp [Inside, h]

theorem inside_set_self {pcs : List Pc} {p : ℕ} {old : Pc} (h : pcs[p]? = some old) (pc : Pc) :
    Inside (pcs.set p pc) p ↔ pc.inside = true :=
  inside_of (List.getElem?_set_self (List.getElem?_eq_some_iff.mp h).1)

theorem inside_set_ne {pcs : List Pc} {p q : ℕ} (h : q ≠ p) (pc : Pc) :
    Inside (pcs.set p pc) q ↔ Inside pcs q := by
  unfold Inside
  rw [List.getElem?_set_ne h.symm]

inductive Inv (queue : Queue) (threads : ℕ) (trace : List Event) (s : State) : Prop where
  | fresh (lock : s.lock = none)
      (pcs : ∀ (p : ℕ) (pc : Pc), s.pcs[p]? = some pc → pc = .opening)
      (shmem : s.shmem = { queue := queue, ops := List.replicate threads .idle })
      (trace_eq : trace = [])
  | creating {p : ℕ} {pc : Pc} (lock : s.lock = some 0) (creator : s.pcs[p]? = some pc)
      (creating : pc.creating = true) (rounds_le : pc.rounds ≤ ENTRIES_PER_QUEUE)
      (early : ∀ q pc, q ≠ p → s.pcs[q]? = some pc → pc.early = true)
      (shmem : s.shmem =
        { queue := cleared queue pc.rounds, ops := List.replicate threads .idle })
      (trace_eq : trace = [])
  | created (holder : Option ℕ) (lock : s.lock = some (if holder = none then 1 else 0))
      (held : Held holder (Inside s.pcs))
      (created : ∀ (p : ℕ) (pc : Pc), s.pcs[p]? = some pc → pc.creating = false)
      (run : Run Shmem.step (Shmem.init threads (queue.slots.map Entry.content)) trace s.shmem)

section Invariant

variable {queue : Queue} {processes threads : ℕ} {trace : List Event} {s s' : State} {p : ℕ}

theorem inv_init : Inv queue threads [] (init queue processes threads) :=
  .fresh rfl (fun _ _ h => List.eq_of_mem_replicate (List.mem_of_getElem? h)) rfl rfl

/-- The process that creates the queue goes on with it. -/
theorem Inv.goOn {old pc : Pc} (lock : s.lock = some 0) (creator : s.pcs[p]? = some old)
    (early : ∀ q pc, q ≠ p → s.pcs[q]? = some pc → pc.early = true)
    (creating : pc.creating = true) (rounds_le : pc.rounds ≤ ENTRIES_PER_QUEUE)
    (shmem : s.shmem = { queue := cleared queue pc.rounds, ops := List.replicate threads .idle }) :
    Inv queue threads [] (s.moveTo p pc) := by
  refine .creating lock (List.getElem?_set_self (List.getElem?_eq_some_iff.mp creator).1) creating
    rounds_le (fun q pc' hq hpc' => ?_) shmem rfl
  rw [State.moveTo, List.getElem?_set_ne hq.symm] at hpc'
  exact early q pc' hq hpc'

/-- Another process comes closer to the lock. -/
theorem Inv.comeCloser {q : ℕ} {old pc new : Pc} (lock : s.lock = some 0)
    (creator : s.pcs[p]? = some pc) (creating : pc.creating = true)
    (rounds_le : pc.rounds ≤ ENTRIES_PER_QUEUE)
    (early : ∀ q pc, q ≠ p → s.pcs[q]? = some pc → pc.early = true)
    (shmem : s.shmem = { queue := cleared queue pc.rounds, ops := List.replicate threads .idle })
    (hq : q ≠ p) (hold : s.pcs[q]? = some old) (hnew : new.early = true) :
    Inv queue threads [] (s.moveTo q new) := by
  refine .creating (p := p) lock ?_ creating rounds_le (fun r pc' hr hpc' => ?_) shmem rfl
  · rw [State.moveTo, List.getElem?_set_ne hq]
    exact creator
  · exact Update.forall_getElem?_set hold (Q := fun r pc => r ≠ p → pc.early = true)
      (fun r pc' _ h hr => early r pc' hr h) (fun _ => hnew) r pc' hpc' hr

/-- A process goes on where the queue is there, without taking or posting the lock. -/
theorem Inv.goAlong {holder : Option ℕ} {old new : Pc}
    (lock : s.lock = some (if holder = none then 1 else 0)) (held : Held holder (Inside s.pcs))
    (created : ∀ (p : ℕ) (pc : Pc), s.pcs[p]? = some pc → pc.creating = false)
    (run : Run Shmem.step (Shmem.init threads (queue.slots.map Entry.content)) trace s.shmem)
    (hold : s.pcs[p]? = some old) (hinside : new.inside = old.inside)
    (hnew : new.creating = false) : Inv queue threads trace (s.moveTo p new) := by
  refine .created holder lock (held.congr fun q => ?_)
    (Update.forall_getElem?_set hold (fun q pc _ h => created q pc h) hnew) run
  by_cases hq : q = p
  · subst hq
    rw [State.moveTo, inside_set_self hold, inside_of hold, hinside]
  · exact inside_set_ne hq new

theorem inv_creates (hqueue : Sized queue) (h : Inv queue threads trace s)
    (hstep : Creates s p s') : Inv queue threads trace s' := by
  cases h with
  | fresh lock pcs shmem trace_eq =>
    subst trace_eq
    cases hstep with
    | makes pc =>
      refine Inv.goOn (s := { s with lock := some 0 }) rfl pc (fun q pc' _ hpc' => ?_) rfl
        (Nat.zero_le _) shmem
      rw [pcs q pc' hpc']
      rfl
    | opens pc lock' => cases lock.symm.trans lock'
    | reopens pc => cases pcs p _ pc
    | waits pc lock' => cases lock.symm.trans lock'
    | maps pc => cases pcs p _ pc
    | mapsNew pc => cases pcs p _ pc
    | clears pc => cases pcs p _ pc
    | cleared pc => cases pcs p _ pc
    | semaphores pc => cases pcs p _ pc
    | posts pc => cases pcs p _ pc
  | @creating c pc₀ lock creator creating rounds_le early shmem trace_eq =>
    subst trace_eq
    -- whoever is past the lock is the creator
    have hcreator : ∀ {pc : Pc}, s.pcs[p]? = some pc → pc.early = false → p = c ∧ pc = pc₀ := by
      intro pc hpc hlate
      by_cases hp : p = c
      · subst hp
        exact ⟨rfl, Option.some.inj (hpc.symm.trans creator)⟩
      · rw [early p pc hp hpc] at hlate
        cases hlate
    have hother : ∀ {pc : Pc}, s.pcs[p]? = some pc → pc.creating = false → p ≠ c := by
      rintro pc hpc hnot rfl
      rw [Option.some.inj (creator.symm.trans hpc), hnot] at creating
      cases creating
    cases hstep with
    | makes pc lock' => cases lock'.symm.trans lock
    | opens pc =>
      exact .comeCloser lock creator creating rounds_le early shmem (hother pc rfl) pc rfl
    | reopens pc =>
      exact .comeCloser lock creator creating rounds_le early shmem (hother pc rfl) pc rfl
    | waits pc lock' => cases lock.symm.trans lock'
    | maps pc =>
      obtain ⟨-, rfl⟩ := hcreator pc rfl
      cases creating
    | mapsNew pc =>
      obtain ⟨rfl, rfl⟩ := hcreator pc rfl
      exact .goOn lock pc early rfl (Nat.zero_le _) shmem
    | @clears i pc lt =>
      obtain ⟨rfl, rfl⟩ := hcreator pc rfl
      refine Inv.goOn (s := s.setQueue _) lock pc early rfl lt ?_
      rw [State.setQueue, shmem]
      simp only [Pc.rounds, cleared_succ]
    | @cleared i pc le =>
      obtain ⟨rfl, rfl⟩ := hcreator pc rfl
      obtain rfl : i = ENTRIES_PER_QUEUE := le_antisymm rounds_le le
      exact .goOn lock pc early rfl le_rfl shmem
    | semaphores pc =>
      obtain ⟨rfl, rfl⟩ := hcreator pc rfl
      refine .created (some p) lock (fun q => ?_) ?_ ?_
      · by_cases hq : q = p
        · subst hq
          simp [State.moveTo, State.setQueue, inside_set_self pc, Pc.inside]
        · rw [State.moveTo, inside_set_ne hq]
          refine ⟨fun h => absurd (Option.some.inj h).symm hq, ?_⟩
          rintro ⟨pc', hpc', hinside⟩
          have hearly := early q pc' hq hpc'
          cases pc' <;> cases hearly <;> cases hinside
      · refine Update.forall_getElem?_set pc (fun q pc' hq hpc' => ?_) rfl
        have hearly := early q pc' hq hpc'
        cases pc' <;> first | rfl | cases hearly
      · have hshmem : ((s.setQueue (createSems s.shmem.queue)).moveTo p .posting).shmem =
            Shmem.init threads (queue.slots.map Entry.content) := by
          rw [State.moveTo, State.setQueue, shmem, Shmem.init, ← cleared_eq_initQueue hqueue]
          rfl
        rw [hshmem]
        exact .refl
    | posts pc =>
      obtain ⟨-, rfl⟩ := hcreator pc rfl
      cases creating
  | created holder lock held created run =>
    cases hstep with
    | makes pc lock' => cases lock'.symm.trans lock
    | opens pc => exact .goAlong lock held created run pc rfl rfl
    | reopens pc => exact .goAlong lock held created run pc rfl rfl
    | @waits value pc lock' =>
      obtain rfl : holder = none := by
        by_contra hholder
        rw [lock, if_neg hholder] at lock'
        cases lock'
      obtain rfl : value = 0 := by
        rw [lock, if_pos rfl] at lock'
        cases lock'
        rfl
      exact .created (some p) rfl
        (held.acquire ((inside_set_self pc _).mpr rfl) fun q hq => inside_set_ne hq _)
        (Update.forall_getElem?_set pc (fun q pc _ h => created q pc h) rfl) run
    | maps pc => exact .goAlong lock held created run pc rfl rfl
    | mapsNew pc => cases created p _ pc
    | clears pc => cases created p _ pc
    | cleared pc => cases created p _ pc
    | semaphores pc => cases created p _ pc
    | posts pc =>
      have hp : Inside s.pcs p := (inside_of pc).mpr rfl
      obtain rfl : holder = some p := (held p).mpr hp
      refine .created none (by rw [State.moveTo, lock]; rfl) (held.release hp
        (fun h => ?_) fun q hq => inside_set_ne hq _)
        (Update.forall_getElem?_set pc (fun q pc _ h => created q pc h) rfl) run
      cases (inside_set_self pc _).mp h

theorem inv_step {owner : ℕ → ℕ} (hqueue : Sized queue) (h : Inv queue threads trace s)
    {a : Action} {es : List Event} (hstep : step owner s a = some (es, s')) :
    Inv queue threads (trace ++ es) s' := by
  cases a with
  | create p =>
    obtain ⟨s'', hcreate, heq⟩ := Option.map_eq_some_iff.mp hstep
    cases heq
    rw [List.append_nil]
    exact inv_creates hqueue h (createStep_cases hcreate)
  | use a =>
    simp only [step] at hstep
    split at hstep
    · rename_i hguard
      obtain ⟨⟨es', shmem'⟩, huse, heq⟩ := Option.map_eq_some_iff.mp hstep
      cases heq
      cases h with
      | fresh lock pcs => cases pcs _ _ hguard.1
      | @creating c pc lock creator creating rounds_le early =>
        by_cases hc : owner (threadOf a) = c
        · subst hc
          rw [Option.some.inj (creator.symm.trans hguard.1)] at creating
          cases creating
        · cases early _ _ hc hguard.1
      | created holder lock held created run =>
        exact .created holder lock held created (run.step huse)
    · cases hstep

/-- **Nobody waits for ever.** As long as a call has not returned, somebody can go on. -/
theorem Inv.progress (h : Inv queue threads trace s) {pc : Pc} (hpc : s.pcs[p]? = some pc)
    (hreturned : pc ≠ .returned) : ∃ q, (createStep s q).isSome := by
  cases h with
  | fresh lock pcs =>
    refine ⟨p, createStep_isSome hpc hreturned fun hwaiting => ?_⟩
    rw [pcs p pc hpc] at hwaiting
    cases hwaiting
  | @creating c pc₀ lock creator creating =>
    refine ⟨c, createStep_isSome creator ?_ ?_⟩
    · rintro rfl
      cases creating
    · rintro rfl
      cases creating
  | created holder lock held created run =>
    cases holder with
    | none => exact ⟨p, createStep_isSome hpc hreturned fun _ => ⟨0, lock⟩⟩
    | some q =>
      obtain ⟨pc', hpc', hinside⟩ := (held q).mp rfl
      refine ⟨q, createStep_isSome hpc' ?_ ?_⟩
      · rintro rfl
        cases hinside
      · rintro rfl
        cases hinside

end Invariant

/-! ## No call goes on for ever -/

def Pc.rank : Pc → ℕ
  | .opening => 5
  | .reopening => 4
  | .waiting => 3
  | .mapping isInited => if isInited then 2 else ENTRIES_PER_QUEUE + 4
  | .clearing i => ENTRIES_PER_QUEUE - i + 3
  | .semaphores => 2
  | .posting => 1
  | .returned => 0

/-- The loop over the entries is still to come. -/
def lockRank : Option ℕ → ℕ
  | none => ENTRIES_PER_QUEUE
  | some _ => 0

def State.rank (s : State) : ℕ := (s.pcs.map Pc.rank).sum + lockRank s.lock

def Action.isCreate : Action → Bool
  | .create _ => true
  | .use _ => false

@[simp] theorem rank_setQueue (s : State) (queue : Queue) : (s.setQueue queue).rank = s.rank := rfl

theorem rank_moveTo {s : State} {p : ℕ} {old : Pc} (h : s.pcs[p]? = some old) (pc : Pc) :
    (s.moveTo p pc).rank + old.rank = s.rank + pc.rank := by
  have hsum := Update.sum_map_set_add Pc.rank h pc
  unfold State.rank State.moveTo
  dsimp only
  omega

theorem rank_creates {s s' : State} {p : ℕ} (h : Creates s p s') : s'.rank + 1 ≤ s.rank := by
  cases h with
  | makes pc lock =>
    have hmove := rank_moveTo (s := { s with lock := some 0 }) pc (.mapping false)
    have hlock : ({ s with lock := some 0 } : State).rank + ENTRIES_PER_QUEUE = s.rank := by
      rw [State.rank, State.rank, lock]
      rfl
    simp only [Pc.rank, Bool.false_eq_true, if_false] at hmove
    omega
  | opens pc lock =>
    have hmove := rank_moveTo pc .reopening
    simp only [Pc.rank] at hmove
    omega
  | reopens pc =>
    have hmove := rank_moveTo pc .waiting
    simp only [Pc.rank] at hmove
    omega
  | @waits value pc lock =>
    have hmove := rank_moveTo (s := { s with lock := some value }) pc (.mapping true)
    have hlock : ({ s with lock := some value } : State).rank = s.rank := by
      rw [State.rank, State.rank, lock]
      rfl
    simp only [Pc.rank, if_true] at hmove
    omega
  | maps pc =>
    have hmove := rank_moveTo pc .posting
    simp only [Pc.rank, if_true] at hmove
    omega
  | mapsNew pc =>
    have hmove := rank_moveTo pc (.clearing 0)
    simp only [Pc.rank, Bool.false_eq_true, if_false] at hmove
    omega
  | @clears i pc lt =>
    have hmove := rank_moveTo (s := s.setQueue (clearEntry s.shmem.queue i)) pc (.clearing (i + 1))
    simp only [Pc.rank, rank_setQueue] at hmove
    omega
  | cleared pc le =>
    have hmove := rank_moveTo pc .semaphores
    simp only [Pc.rank] at hmove
    omega
  | semaphores pc =>
    have hmove := rank_moveTo (s := s.setQueue (createSems s.shmem.queue)) pc .posting
    simp only [Pc.rank, rank_setQueue] at hmove
    omega
  | posts pc =>
    have hmove := rank_moveTo (s := { s with lock := s.lock.map (· + 1) }) pc .returned
    have hlock : ({ s with lock := s.lock.map (· + 1) } : State).rank = s.rank := by
      unfold State.rank
      cases s.lock <;> rfl
    simp only [Pc.rank] at hmove
    omega

theorem rank_step {owner : ℕ → ℕ} {s s' : State} {a : Action} {es : List Event}
    (h : step owner s a = some (es, s')) :
    s'.rank + (if a.isCreate = true then 1 else 0) ≤ s.rank := by
  cases a with
  | create p =>
    obtain ⟨s'', hcreate, heq⟩ := Option.map_eq_some_iff.mp h
    cases heq
    exact rank_creates (createStep_cases hcreate)
  | use a =>
    simp only [step] at h
    split at h
    · obtain ⟨r, -, heq⟩ := Option.map_eq_some_iff.mp h
      cases heq
      exact le_rfl
    · cases h

theorem rank_init (queue : Queue) (processes threads : ℕ) :
    (init queue processes threads).rank = 5 * processes + ENTRIES_PER_QUEUE := by
  simp [State.rank, init, Pc.rank, lockRank, Nat.mul_comm]

/-! ## A lock left behind -/

/-- The lock is taken, and nobody who could post it is there. -/
def Blocked (s : State) : Prop :=
  s.lock = some 0 ∧ ∀ (p : ℕ) (pc : Pc), s.pcs[p]? = some pc → pc.early = true

theorem blocked_step {owner : ℕ → ℕ} {s s' : State} {a : Action} {es : List Event}
    (h : Blocked s) (hstep : step owner s a = some (es, s')) : Blocked s' := by
  obtain ⟨hlock, hearly⟩ := h
  cases a with
  | create p =>
    obtain ⟨s'', hcreate, heq⟩ := Option.map_eq_some_iff.mp hstep
    cases heq
    cases createStep_cases hcreate with
    | opens pc =>
      exact ⟨hlock, Update.forall_getElem?_set pc (fun q pc _ h => hearly q pc h) rfl⟩
    | reopens pc =>
      exact ⟨hlock, Update.forall_getElem?_set pc (fun q pc _ h => hearly q pc h) rfl⟩
    | makes pc lock => cases lock.symm.trans hlock
    | waits pc lock => cases lock.symm.trans hlock
    | maps pc => cases hearly p _ pc
    | mapsNew pc => cases hearly p _ pc
    | clears pc => cases hearly p _ pc
    | cleared pc => cases hearly p _ pc
    | semaphores pc => cases hearly p _ pc
    | posts pc => cases hearly p _ pc
  | use a =>
    simp only [step] at hstep
    split at hstep
    · rename_i hguard
      cases hearly _ _ hguard.1
    · cases hstep

/-- Where an earlier run has left the lock taken, no call ever returns. -/
theorem not_returned_of_stale {owner : ℕ → ℕ} {queue : Queue} {processes threads : ℕ}
    {trace : List Event} {s : State}
    (h : Run (step owner) { init queue processes threads with lock := some 0 } trace s) (p : ℕ) :
    s.pcs[p]? ≠ some .returned := by
  have hblocked : Blocked s := by
    refine h.invariant ⟨rfl, fun p pc hpc => ?_⟩ fun _ _ _ _ hb hs => blocked_step hb hs
    rw [List.eq_of_mem_replicate (List.mem_of_getElem? hpc)]
    rfl
  intro hreturned
  cases hblocked.2 p _ hreturned

/-! ## Refinement -/

/-- **Creation is invisible.** Whatever the order in which the processes create the queue and use
it, and whatever the memory held, `n` calls of `ipc_create` take at most `5 n + 16` steps, somebody
can go on until all have returned, and what the threads read and write is a run of the system that
starts with the queue there; its state is what every process finds that has returned. -/
theorem creation_refines {owner : ℕ → ℕ} {queue : Queue} {processes threads : ℕ}
    (hqueue : Sized queue) {as : List Action} {trace : List Event} {s : State}
    (h : exec (step owner) (init queue processes threads) as = some (trace, s)) :
    as.countP Action.isCreate ≤ 5 * processes + ENTRIES_PER_QUEUE ∧
      (∀ (p : ℕ) (pc : Pc), s.pcs[p]? = some pc → pc ≠ .returned → ∃ q, (createStep s q).isSome) ∧
      ∃ t, Run Shmem.step (Shmem.init threads (queue.slots.map Entry.content)) trace t ∧
        ∀ p : ℕ, s.pcs[p]? = some .returned → s.shmem = t := by
  have hinv : Inv queue threads trace s := (run_of_exec h).history inv_init
    fun _ _ _ _ _ hi hs => inv_step hqueue hi hs
  refine ⟨?_, fun p pc hpc hreturned => hinv.progress hpc hreturned, ?_⟩
  · have hcount := exec_countP (P := fun _ => True) (fun _ _ _ _ _ _ => trivial) State.rank
      (p := Action.isCreate) (fun _ _ _ _ _ hs => rank_step hs) trivial h
    rw [rank_init] at hcount
    omega
  · cases hinv with
    | fresh lock pcs shmem trace_eq =>
      subst trace_eq
      exact ⟨_, .refl, fun p hp => by cases pcs p _ hp⟩
    | @creating c pc lock creator creating rounds_le early shmem trace_eq =>
      subst trace_eq
      refine ⟨_, .refl, fun p hp => ?_⟩
      by_cases hc : p = c
      · subst hc
        rw [Option.some.inj (creator.symm.trans hp)] at creating
        cases creating
      · cases early p _ hc hp
    | created holder lock held created run => exact ⟨s.shmem, run, fun _ _ => rfl⟩

/-- Memory of an earlier run. -/
def usedQueue : Queue where
  index := List.replicate ENTRIES_PER_QUEUE 3
  readWait := 7
  writeSem := 0
  slots := List.replicate ENTRIES_PER_QUEUE { len := 2, content := [9, 9] }

/-- The second process waits for the first, which starts to write before the second has returned. -/
def pairCreation : List Action :=
  [.create 0, .create 1, .create 1] ++ List.replicate 20 (.create 0) ++ [.create 1] ++
    [.use (.startWrite 0 [1])] ++ List.replicate 2 (.create 1) ++
    [.use (.critical 0), .use (.post 0), .use (.startRead 1 8), .use (.critical 1)]

theorem creation_refines_pair : ∃ s t,
    exec (step id) (init usedQueue 2 2) pairCreation =
      some ([.wrote [1], .read 8 [1]], s) ∧
    Run Shmem.step (Shmem.init 2 (usedQueue.slots.map Entry.content))
      [.wrote [1], .read 8 [1]] t ∧ s.shmem = t := by
  have hover : (exec (step id) (init usedQueue 2 2) pairCreation).map
      (fun r => (r.1, r.2.pcs)) =
        some ([.wrote [1], .read 8 [1]], [.returned, .returned]) := by decide +kernel
  obtain ⟨⟨trace, s⟩, hexec, hlast⟩ := Option.map_eq_some_iff.mp hover
  obtain ⟨rfl, hpcs⟩ : trace = [.wrote [1], .read 8 [1]] ∧ s.pcs = [.returned, .returned] := by
    simpa using hlast
  obtain ⟨-, -, t, hrun, hfinds⟩ := creation_refines ⟨rfl, rfl⟩ hexec
  exact ⟨s, t, hexec, hrun, hfinds 0 (by rw [hpcs]; rfl)⟩

end PlaneSim.Creation
