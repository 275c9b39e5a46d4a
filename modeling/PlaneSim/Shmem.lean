import PlaneSim.Lib.Lts
import PlaneSim.Lib.Update
import Mathlib.Data.List.Nodup
import Mathlib.Data.Fintype.Card

/-!
# The shared-memory queue

`ipc_read` and `ipc_write` of `ipc/shmem.c` by any number of threads on one queue. A call is a wait
on one semaphore, the section under the named lock, and a post on the other semaphore; each of the
three is one step.

1. The sections keep order and allocation together (`Holds`, `Holds.write`, `Holds.read`).
2. The semaphores count the queue up to the calls in progress (`Inv`).
3. The queue is a bounded FIFO queue (`shmem_fifo`).
-/

namespace PlaneSim.Shmem

open Lts Update

def ENTRIES_PER_QUEUE : ℕ := 16

def IPC_MAX_PACKET_LEN : ℕ := 512

/-- `content` is the whole buffer; only the first `len` bytes of it belong to the message. -/
structure Entry where
  len : ℕ
  content : List UInt8
deriving DecidableEq, Repr

structure Queue where
  index : List Int
  readWait : ℕ
  writeSem : ℕ
  slots : List Entry
deriving DecidableEq, Repr

/-- The loop that shifts `index` down by one. -/
def shiftIndex (index : List Int) : List Int :=
  (List.range' 1 (ENTRIES_PER_QUEUE - 1)).foldl
    (fun index i => (index.set (i - 1) (index.getD i (-1))).set i (-1)) index

/-- The section of `ipc_read` under the lock: the queue and the bytes copied. -/
def readSection (queue : Queue) (len : ℕ) : Option (Queue × List UInt8) := do
  let first ← queue.index[0]?
  guard (0 ≤ first)
  let entry ← queue.slots[first.toNat]?
  let res := if len > entry.len then entry.len else len
  pure ({ queue with slots := queue.slots.set first.toNat { entry with len := 0 }
                     index := shiftIndex queue.index },
    entry.content.take res)

/-- The section of `ipc_write` under the lock; without a free slot or a free index entry it prints
an error and writes past the array. -/
def writeSection (queue : Queue) (buff : List UInt8) : Option Queue := do
  let slot ← queue.slots.findIdx? (·.len = 0)
  let i ← queue.index.findIdx? (· = -1)
  let entry ← queue.slots[slot]?
  let len := if buff.length > IPC_MAX_PACKET_LEN then IPC_MAX_PACKET_LEN else buff.length
  pure { queue with
    index := queue.index.set i slot
    slots := queue.slots.set slot
      { len := len, content := buff.take len ++ entry.content.drop len } }

/-! ## Threads -/

/-- Where a thread is in its call. -/
inductive Op where
  | idle
  | writing (buff : List UInt8)
  | written
  | reading (len : ℕ)
  | read
deriving DecidableEq, Repr

inductive Event where
  | wrote (buff : List UInt8)
  | read (len : ℕ) (data : List UInt8)
deriving DecidableEq, Repr

structure State where
  queue : Queue
  ops : List Op
deriving DecidableEq, Repr

inductive Action where
  /-- `ipc_sem_wait(queue->writeSem)` of a call of `ipc_write`. -/
  | startWrite (thread : ℕ) (buff : List UInt8)
  /-- `ipc_sem_wait(queue->readWait)` of a call of `ipc_read`. -/
  | startRead (thread : ℕ) (len : ℕ)
  | critical (thread : ℕ)
  | post (thread : ℕ)

def step (s : State) : Action → Option (List Event × State)
  | .startWrite t buff =>
    if s.ops[t]? = some .idle ∧ 0 < buff.length ∧ 0 < s.queue.writeSem then
      some ([], { queue := { s.queue with writeSem := s.queue.writeSem - 1 }
                  ops := s.ops.set t (.writing buff) })
    else none
  | .startRead t len =>
    if s.ops[t]? = some .idle ∧ 0 < s.queue.readWait then
      some ([], { queue := { s.queue with readWait := s.queue.readWait - 1 }
                  ops := s.ops.set t (.reading len) })
    else none
  | .critical t =>
    match s.ops[t]? with
    | some (.writing buff) =>
      (writeSection s.queue buff).map fun queue =>
        ([.wrote buff], { queue := queue, ops := s.ops.set t .written })
    | some (.reading len) =>
      (readSection s.queue len).map fun (queue, data) =>
        ([.read len data], { queue := queue, ops := s.ops.set t .read })
    | _ => none
  | .post t =>
    match s.ops[t]? with
    | some .written =>
      some ([], { queue := { s.queue with readWait := s.queue.readWait + 1 }
                  ops := s.ops.set t .idle })
    | some .read =>
      some ([], { queue := { s.queue with writeSem := s.queue.writeSem + 1 }
                  ops := s.ops.set t .idle })
    | _ => none

/-- The queue `ipc_create` sets up; the slots hold whatever the memory held. -/
def initQueue (contents : List (List UInt8)) : Queue where
  index := List.replicate ENTRIES_PER_QUEUE (-1)
  readWait := 0
  writeSem := ENTRIES_PER_QUEUE
  slots := contents.map fun content => { len := 0, content := content }

def init (threads : ℕ) (contents : List (List UInt8)) : State where
  queue := initQueue contents
  ops := List.replicate threads .idle

/-- The messages written, in the order of the sections. -/
def writes (trace : List Event) : List (List UInt8) :=
  trace.filterMap fun
    | .wrote buff => some buff
    | .read _ _ => none

/-- The reads, in the order of the sections. -/
def reads (trace : List Event) : List (ℕ × List UInt8) :=
  trace.filterMap fun
    | .wrote _ => none
    | .read len data => some (len, data)

/-! ## The sections -/

theorem shiftIndex_eq {first : Int} {index : List Int}
    (h : (first :: index).length = ENTRIES_PER_QUEUE) :
    shiftIndex (first :: index) = index ++ [-1] := by
  have hloop : ∀ (n : ℕ) (pre post : List Int) (x : Int), post.length = n →
      (List.range' (pre.length + 1) n).foldl
        (fun index i => (index.set (i - 1) (index.getD i (-1))).set i (-1)) (pre ++ x :: post) =
        pre ++ post ++ [if n = 0 then x else -1] := by
    intro n
    induction n with
    | zero =>
      intro pre post x hlen
      simp [List.length_eq_zero_iff.mp hlen]
    | succ n ih =>
      intro pre post x hlen
      obtain ⟨y, post, rfl⟩ := List.exists_cons_of_length_eq_add_one hlen
      have hbody : ((pre ++ x :: y :: post).set (pre.length + 1 - 1)
          ((pre ++ x :: y :: post).getD (pre.length + 1) (-1))).set (pre.length + 1) (-1) =
            (pre ++ [y]) ++ (-1) :: post := by
        simp
      have hrec := ih (pre ++ [y]) post (-1) (by simpa using hlen)
      rw [List.length_append, List.length_singleton] at hrec
      rw [List.range'_succ, List.foldl_cons, hbody, hrec]
      simp
  have := hloop (ENTRIES_PER_QUEUE - 1) [] index first (by simp [← h])
  simpa [shiftIndex, ENTRIES_PER_QUEUE] using this

/-- An index array that names the slots `live` and then `-1`. -/
theorem findIdx_index {index : List Int} {live : List ℕ}
    (h : index =
      live.map (Nat.cast : ℕ → Int) ++ List.replicate (ENTRIES_PER_QUEUE - live.length) (-1))
    (hlen : live.length < ENTRIES_PER_QUEUE) : index.findIdx? (· = -1) = some live.length := by
  rw [h, List.findIdx?_eq_some_iff_getElem]
  refine ⟨by simp; omega, by simp, fun j hj => ?_⟩
  rw [List.getElem_append_left (by simpa using hj)]
  simp

/-- What the section of `ipc_write` does with `slot` the first slot that looks free. -/
theorem writeSection_eq {queue : Queue} {live : List ℕ} {slot : ℕ} {entry : Entry}
    (hindex : queue.index =
      live.map (Nat.cast : ℕ → Int) ++ List.replicate (ENTRIES_PER_QUEUE - live.length) (-1))
    (hlen : live.length < ENTRIES_PER_QUEUE)
    (hfind : queue.slots.findIdx? (·.len = 0) = some slot)
    (hget : queue.slots[slot]? = some entry) (buff : List UInt8) :
    writeSection queue buff = some { queue with
      index := (live ++ [slot]).map (Nat.cast : ℕ → Int) ++
        List.replicate (ENTRIES_PER_QUEUE - (live ++ [slot]).length) (-1)
      slots := queue.slots.set slot
        { len := min buff.length IPC_MAX_PACKET_LEN
          content := buff.take (min buff.length IPC_MAX_PACKET_LEN) ++
            entry.content.drop (min buff.length IPC_MAX_PACKET_LEN) } } := by
  have hcut : (if buff.length > IPC_MAX_PACKET_LEN then IPC_MAX_PACKET_LEN else buff.length) =
      min buff.length IPC_MAX_PACKET_LEN := by
    split <;> omega
  have hrep : List.replicate (ENTRIES_PER_QUEUE - live.length) (-1 : Int) =
      -1 :: List.replicate (ENTRIES_PER_QUEUE - (live.length + 1)) (-1) := by
    rw [← List.replicate_succ]
    congr 1
    omega
  have hset : queue.index.set live.length (slot : Int) =
      (live ++ [slot]).map (Nat.cast : ℕ → Int) ++
        List.replicate (ENTRIES_PER_QUEUE - (live ++ [slot]).length) (-1) := by
    rw [hindex, List.set_append_right _ _ (by simp), hrep]
    simp
  unfold writeSection
  rw [hfind, findIdx_index hindex hlen, Option.bind_eq_bind, Option.bind_some, Option.bind_eq_bind,
    Option.bind_some, hget, hcut, hset]
  rfl

/-- What the section of `ipc_read` does with `slot` the first one named. -/
theorem readSection_eq {queue : Queue} {live : List ℕ} {slot : ℕ} {entry : Entry}
    (hindex : queue.index = (slot :: live).map (Nat.cast : ℕ → Int) ++
      List.replicate (ENTRIES_PER_QUEUE - (slot :: live).length) (-1))
    (hlive : (slot :: live).length ≤ ENTRIES_PER_QUEUE)
    (hget : queue.slots[slot]? = some entry) (len : ℕ) :
    readSection queue len = some ({ queue with
      slots := queue.slots.set slot { entry with len := 0 }
      index := live.map (Nat.cast : ℕ → Int) ++
        List.replicate (ENTRIES_PER_QUEUE - live.length) (-1) },
      entry.content.take (min len entry.len)) := by
  rw [List.map_cons, List.cons_append] at hindex
  rw [List.length_cons] at hlive
  have hres : (if len > entry.len then entry.len else len) = min len entry.len := by
    split <;> omega
  have hshift : shiftIndex queue.index =
      live.map (Nat.cast : ℕ → Int) ++ List.replicate (ENTRIES_PER_QUEUE - live.length) (-1) := by
    have hlen16 : queue.index.length = ENTRIES_PER_QUEUE := by rw [hindex]; simp; omega
    rw [hindex] at hlen16 ⊢
    rw [shiftIndex_eq hlen16, List.append_assoc, ← List.replicate_succ', List.length_cons]
    congr 2
    omega
  have hfirst : queue.index[0]? = some (slot : Int) := by rw [hindex]; rfl
  unfold readSection
  rw [hfirst, hshift]
  simp only [Option.bind_eq_bind, Option.bind_some, guard, if_pos (Int.natCast_nonneg slot),
    Int.toNat_natCast, hget, hres]
  rfl

/-- The entries listed in `live`, in that order, hold the messages `msgs`; the others are free. -/
structure Holds (queue : Queue) (live : List ℕ) (msgs : List (List UInt8)) : Prop where
  index : queue.index =
    live.map (Nat.cast : ℕ → Int) ++ List.replicate (ENTRIES_PER_QUEUE - live.length) (-1)
  nodup : live.Nodup
  slots : queue.slots.length = ENTRIES_PER_QUEUE
  used : ∀ (j : ℕ) entry, queue.slots[j]? = some entry → (entry.len ≠ 0 ↔ j ∈ live)
  stored : List.Forall₂ (fun j msg => ∃ entry, queue.slots[j]? = some entry ∧
    entry.len = min msg.length IPC_MAX_PACKET_LEN ∧
      entry.content.take entry.len = msg.take IPC_MAX_PACKET_LEN) live msgs

theorem Holds.lt {queue : Queue} {live : List ℕ} {msgs : List (List UInt8)}
    (h : Holds queue live msgs) {j : ℕ} (hj : j ∈ live) : j < ENTRIES_PER_QUEUE := by
  have hall : ∀ {l : List ℕ} {ms : List (List UInt8)},
      List.Forall₂ (fun j msg => ∃ entry, queue.slots[j]? = some entry ∧
        entry.len = min msg.length IPC_MAX_PACKET_LEN ∧
          entry.content.take entry.len = msg.take IPC_MAX_PACKET_LEN) l ms →
      ∀ j ∈ l, j < queue.slots.length := by
    intro l ms hf
    induction hf with
    | nil => simp
    | cons hhead _ ih =>
      intro j hj
      rcases List.mem_cons.mp hj with rfl | hj
      · obtain ⟨entry, hget, -⟩ := hhead
        exact (List.getElem?_eq_some_iff.mp hget).1
      · exact ih j hj
  rw [← h.slots]
  exact hall h.stored j hj

theorem Holds.length_le {queue : Queue} {live : List ℕ} {msgs : List (List UInt8)}
    (h : Holds queue live msgs) : live.length ≤ ENTRIES_PER_QUEUE := by
  have hsub : live ⊆ List.range ENTRIES_PER_QUEUE := fun j hj => List.mem_range.mpr (h.lt hj)
  simpa using (h.nodup.subperm hsub).length_le

/-- Fewer than sixteen slots in use leave a free one. -/
theorem Holds.exists_free {queue : Queue} {live : List ℕ} {msgs : List (List UInt8)}
    (h : Holds queue live msgs) (hlen : live.length < ENTRIES_PER_QUEUE) :
    ∃ slot entry, queue.slots.findIdx? (·.len = 0) = some slot ∧
      queue.slots[slot]? = some entry ∧ slot ∉ live := by
  cases hfind : queue.slots.findIdx? (·.len = 0) with
  | none =>
    have hused : ∀ entry ∈ queue.slots, ¬entry.len = 0 := by
      simpa using hfind
    have hsub : List.range ENTRIES_PER_QUEUE ⊆ live := by
      intro j hj
      have hlt : j < queue.slots.length := by rw [h.slots]; exact List.mem_range.mp hj
      exact (h.used j _ (List.getElem?_eq_getElem hlt)).mp (hused _ (List.getElem_mem hlt))
    have := ((List.nodup_range).subperm hsub).length_le
    rw [List.length_range] at this
    omega
  | some slot =>
    obtain ⟨hlt, hzero, -⟩ := List.findIdx?_eq_some_iff_getElem.mp hfind
    have hget := List.getElem?_eq_getElem hlt
    refine ⟨slot, _, rfl, hget, fun hmem => ?_⟩
    exact (h.used slot _ hget).mpr hmem (by simpa using hzero)

/-- Changing a slot that is not in use leaves the stored messages alone. -/
theorem stored_set {slots : List Entry} {slot : ℕ} {new : Entry} {live : List ℕ}
    {msgs : List (List UInt8)} (hslot : slot ∉ live)
    (h : List.Forall₂ (fun j msg => ∃ entry, slots[j]? = some entry ∧
      entry.len = min msg.length IPC_MAX_PACKET_LEN ∧
        entry.content.take entry.len = msg.take IPC_MAX_PACKET_LEN) live msgs) :
    List.Forall₂ (fun j msg => ∃ entry, (slots.set slot new)[j]? = some entry ∧
      entry.len = min msg.length IPC_MAX_PACKET_LEN ∧
        entry.content.take entry.len = msg.take IPC_MAX_PACKET_LEN) live msgs := by
  induction h with
  | nil => exact .nil
  | @cons j msg live msgs hhead _ ih =>
    obtain ⟨hne, hslot⟩ : slot ≠ j ∧ slot ∉ live := by simpa using hslot
    refine .cons ?_ (ih hslot)
    rwa [List.getElem?_set_ne hne]

/-- A writer finds a free slot and a free index entry as long as fewer than sixteen are used. -/
theorem Holds.write {queue : Queue} {live : List ℕ} {msgs : List (List UInt8)}
    (h : Holds queue live msgs) (hlen : live.length < ENTRIES_PER_QUEUE) {buff : List UInt8}
    (hbuff : 0 < buff.length) :
    ∃ slot queue', writeSection queue buff = some queue' ∧
      Holds queue' (live ++ [slot]) (msgs ++ [buff]) ∧
      queue'.readWait = queue.readWait ∧ queue'.writeSem = queue.writeSem := by
  obtain ⟨slot, entry, hfind, hget, hfree⟩ := h.exists_free hlen
  have hlt : slot < queue.slots.length := (List.getElem?_eq_some_iff.mp hget).1
  have hpos : 0 < min buff.length IPC_MAX_PACKET_LEN := by unfold IPC_MAX_PACKET_LEN; omega
  refine ⟨slot, _, writeSection_eq h.index hlen hfind hget buff, ⟨rfl, ?_, ?_, ?_, ?_⟩, rfl, rfl⟩
  · exact List.Nodup.append h.nodup (by simp) (by simpa using hfree)
  · simpa using h.slots
  · intro j e hj
    by_cases hjs : j = slot
    · subst hjs
      rw [List.getElem?_set_self hlt] at hj
      cases hj
      simpa using hpos.ne'
    · rw [List.getElem?_set_ne (Ne.symm hjs)] at hj
      rw [h.used j e hj]
      simp [hjs]
  · refine List.rel_append (stored_set hfree h.stored)
      (.cons ⟨_, List.getElem?_set_self hlt, rfl, ?_⟩ .nil)
    simp only
    have hmin : buff.take IPC_MAX_PACKET_LEN = buff.take (min IPC_MAX_PACKET_LEN buff.length) :=
      List.take_eq_take_min
    rw [List.take_append_of_le_length (by simp), List.take_take, min_self, hmin, min_comm]

/-- A reader gets the oldest message. -/
theorem Holds.read {queue : Queue} {slot : ℕ} {live : List ℕ} {msg : List UInt8}
    {msgs : List (List UInt8)} (h : Holds queue (slot :: live) (msg :: msgs)) (len : ℕ) :
    ∃ queue', readSection queue len =
        some (queue', msg.take (min len (min msg.length IPC_MAX_PACKET_LEN))) ∧
      Holds queue' live msgs ∧
      queue'.readWait = queue.readWait ∧ queue'.writeSem = queue.writeSem := by
  obtain ⟨⟨entry, hget, hlen, hcontent⟩, hstored⟩ := List.forall₂_cons.mp h.stored
  obtain ⟨hfree, hnd⟩ := List.nodup_cons.mp h.nodup
  have hlt : slot < queue.slots.length := (List.getElem?_eq_some_iff.mp hget).1
  have hdata : entry.content.take (min len entry.len) =
      msg.take (min len (min msg.length IPC_MAX_PACKET_LEN)) := by
    have : entry.content.take (min len entry.len) = (entry.content.take entry.len).take len := by
      rw [List.take_take]
    rw [this, hcontent, List.take_take, List.take_eq_take_min]
    congr 1
    omega
  have hread := readSection_eq h.index h.length_le hget len
  rw [hdata] at hread
  refine ⟨_, hread, ⟨rfl, hnd, ?_, ?_, ?_⟩, rfl, rfl⟩
  · simpa using h.slots
  · intro j e hj
    by_cases hjs : j = slot
    · subst hjs
      dsimp only at hj
      rw [List.getElem?_set_self hlt] at hj
      cases hj
      simpa using hfree
    · dsimp only at hj
      rw [List.getElem?_set_ne (Ne.symm hjs)] at hj
      rw [h.used j e hj]
      simp [hjs]
  · exact stored_set hfree hstored

/-! ## The semaphores -/

def Op.isWriting : Op → Bool
  | .writing _ => true
  | _ => false

def Op.isReading : Op → Bool
  | .reading _ => true
  | _ => false

/-- The calls between their wait and their post. -/
def inProgress (ops : List Op) : ℕ := ops.countP (· ≠ .idle)

theorem counts_set {ops : List Op} {t : ℕ} {x : Op} (h : ops[t]? = some x) (y : Op) :
    ((ops.set t y).countP Op.isReading + (if x.isReading then 1 else 0) =
      ops.countP Op.isReading + (if y.isReading then 1 else 0)) ∧
    ((ops.set t y).countP (· = .written) + (if x = .written then 1 else 0) =
      ops.countP (· = .written) + (if y = .written then 1 else 0)) ∧
    ((ops.set t y).countP Op.isWriting + (if x.isWriting then 1 else 0) =
      ops.countP Op.isWriting + (if y.isWriting then 1 else 0)) ∧
    ((ops.set t y).countP (· = .read) + (if x = .read then 1 else 0) =
      ops.countP (· = .read) + (if y = .read then 1 else 0)) := by
  refine ⟨countP_set _ h y, ?_, countP_set _ h y, ?_⟩
  · simpa using countP_set (· = Op.written) h y
  · simpa using countP_set (· = Op.read) h y

theorem inProgress_eq (ops : List Op) :
    inProgress ops = ops.countP Op.isReading + ops.countP (· = .written) +
      (ops.countP Op.isWriting + ops.countP (· = .read)) := by
  unfold inProgress
  induction ops with
  | nil => rfl
  | cons op ops ih =>
    rw [List.countP_cons, List.countP_cons, List.countP_cons, List.countP_cons, List.countP_cons, ih]
    cases op <;> simp [Op.isReading, Op.isWriting] <;> omega

/-- Between its wait and its section a call holds a place that the semaphore no longer counts, and
between its section and its post one that it does not count yet. -/
structure Inv (trace : List Event) (s : State) (live : List ℕ) : Prop where
  holds : Holds s.queue live ((writes trace).drop (reads trace).length)
  readWait : live.length =
    s.queue.readWait + s.ops.countP Op.isReading + s.ops.countP (· = .written)
  writeSem : ENTRIES_PER_QUEUE =
    live.length + s.queue.writeSem + s.ops.countP Op.isWriting + s.ops.countP (· = .read)
  nonempty : ∀ (t : ℕ) buff, s.ops[t]? = some (.writing buff) → 0 < buff.length
  reads_le : (reads trace).length ≤ (writes trace).length
  fifo : ∀ (k : ℕ) len data, (reads trace)[k]? = some (len, data) →
    ∃ msg, (writes trace)[k]? = some msg ∧
      data = msg.take (min len (min msg.length IPC_MAX_PACKET_LEN))

theorem inv_init (threads : ℕ) {contents : List (List UInt8)}
    (h : contents.length = ENTRIES_PER_QUEUE) : Inv [] (init threads contents) [] := by
  refine ⟨⟨by simp [init, initQueue], by simp, by simpa [init, initQueue] using h, ?_, .nil⟩, ?_, ?_,
    ?_, le_rfl, ?_⟩
  · intro j entry hj
    obtain ⟨content, -, rfl⟩ := List.mem_map.mp (List.mem_of_getElem? hj)
    simp
  · simp [init, initQueue, List.countP_replicate, Op.isReading]
  · simp [init, initQueue, List.countP_replicate, Op.isWriting]
  · intro t buff ht
    have := List.mem_of_getElem? ht
    simp [init] at this
  · simp [reads]

/-- The semaphores do not matter to the contents. -/
theorem Holds.sems {queue : Queue} {live : List ℕ} {msgs : List (List UInt8)}
    (h : Holds queue live msgs) (r w : ℕ) :
    Holds { queue with readWait := r, writeSem := w } live msgs :=
  ⟨h.index, h.nodup, h.slots, h.used, h.stored⟩

theorem nonempty_set {ops : List Op} {t : ℕ} {op : Op}
    (h : ∀ (t : ℕ) buff, ops[t]? = some (.writing buff) → 0 < buff.length)
    (hop : ∀ buff, op = .writing buff → 0 < buff.length) :
    ∀ (u : ℕ) buff, (ops.set t op)[u]? = some (.writing buff) → 0 < buff.length := by
  intro u buff hu
  by_cases htu : t = u
  · subst htu
    obtain ⟨hlt, hu⟩ := List.getElem?_eq_some_iff.mp hu
    rw [List.getElem_set_self] at hu
    exact hop buff hu
  · rw [List.getElem?_set_ne htu] at hu
    exact h u buff hu

/-- A writer in its section has a free place. -/
theorem Inv.lt_of_writing {trace : List Event} {s : State} {live : List ℕ} (h : Inv trace s live)
    {t : ℕ} {buff : List UInt8} (ht : s.ops[t]? = some (.writing buff)) :
    live.length < ENTRIES_PER_QUEUE := by
  have hpos : 0 < s.ops.countP Op.isWriting :=
    List.countP_pos_iff.mpr ⟨_, List.mem_of_getElem? ht, rfl⟩
  have := h.writeSem
  omega

/-- A reader in its section has a message. -/
theorem Inv.cons_of_reading {trace : List Event} {s : State} {live : List ℕ}
    (h : Inv trace s live) {t len : ℕ} (ht : s.ops[t]? = some (.reading len)) :
    ∃ slot rest msg msgs, live = slot :: rest ∧
      (writes trace).drop (reads trace).length = msg :: msgs := by
  have hpos : 0 < s.ops.countP Op.isReading :=
    List.countP_pos_iff.mpr ⟨_, List.mem_of_getElem? ht, rfl⟩
  have hlen := h.readWait
  have hlen2 := h.holds.stored.length_eq
  obtain ⟨slot, rest, rfl⟩ := List.exists_cons_of_length_pos (l := live) (by omega)
  obtain ⟨msg, msgs, hm⟩ := List.exists_cons_of_length_pos
    (l := (writes trace).drop (reads trace).length) (by omega)
  exact ⟨slot, rest, msg, msgs, rfl, hm⟩

/-- A wait or a post moves a place between a semaphore and a call; the contents stay. -/
theorem Inv.move {trace : List Event} {s : State} {live : List ℕ} (h : Inv trace s live) {t : ℕ}
    {y : Op} (hy : ∀ buff, y = .writing buff → 0 < buff.length)
    {r w : ℕ}
    (hr : live.length =
      r + (s.ops.set t y).countP Op.isReading + (s.ops.set t y).countP (· = .written))
    (hw : ENTRIES_PER_QUEUE =
      live.length + w + (s.ops.set t y).countP Op.isWriting + (s.ops.set t y).countP (· = .read)) :
    Inv (trace ++ []) { queue := { s.queue with readWait := r, writeSem := w }
                        ops := s.ops.set t y } live := by
  rw [List.append_nil]
  exact ⟨h.holds.sems r w, hr, hw, nonempty_set h.nonempty hy, h.reads_le, h.fifo⟩

/-- The section of a write. -/
theorem Inv.write {trace : List Event} {s : State} {live : List ℕ} (h : Inv trace s live) {t : ℕ}
    {buff : List UInt8} (ht : s.ops[t]? = some (.writing buff)) :
    ∃ live' queue', writeSection s.queue buff = some queue' ∧
      Inv (trace ++ [.wrote buff]) { queue := queue', ops := s.ops.set t .written } live' := by
  obtain ⟨slot, queue', hwrite, hholds, hrq, hwq⟩ :=
    h.holds.write (h.lt_of_writing ht) (h.nonempty t buff ht)
  refine ⟨live ++ [slot], queue', hwrite, ?_⟩
  have hr := h.readWait
  have hw := h.writeSem
  obtain ⟨c1, c2, c3, c4⟩ := counts_set ht .written
  simp [Op.isReading, Op.isWriting] at c1 c2 c3 c4
  have hwrites : writes (trace ++ [.wrote buff]) = writes trace ++ [buff] := by simp [writes]
  have hreads : reads (trace ++ [.wrote buff]) = reads trace := by simp [reads]
  refine ⟨?_, ?_, ?_, nonempty_set h.nonempty (fun _ he => by cases he), ?_, ?_⟩
  · rw [hwrites, hreads, List.drop_append_of_le_length h.reads_le]
    exact hholds
  · rw [List.length_append, List.length_singleton, hrq]
    dsimp only
    omega
  · rw [List.length_append, List.length_singleton, hwq]
    dsimp only
    omega
  · rw [hwrites, hreads, List.length_append]
    exact h.reads_le.trans (Nat.le_add_right _ _)
  · intro k len data hk
    rw [hreads] at hk
    obtain ⟨msg, hmsg, hdata⟩ := h.fifo k len data hk
    rw [hwrites]
    exact ⟨msg, List.getElem?_append_left (List.getElem?_eq_some_iff.mp hmsg).1 ▸ hmsg, hdata⟩

/-- The section of a read: the next message is the one it gets. -/
theorem Inv.read {trace : List Event} {s : State} {live : List ℕ} (h : Inv trace s live)
    {t len : ℕ} (ht : s.ops[t]? = some (.reading len)) :
    ∃ live' queue' data, readSection s.queue len = some (queue', data) ∧
      Inv (trace ++ [.read len data]) { queue := queue', ops := s.ops.set t .read } live' := by
  obtain ⟨slot, rest, msg, msgs, rfl, hmsgs⟩ := h.cons_of_reading ht
  have hholds := h.holds
  rw [hmsgs] at hholds
  obtain ⟨queue', hread, hholds', hrq, hwq⟩ := hholds.read len
  refine ⟨rest, queue', _, hread, ?_⟩
  have hr := h.readWait
  have hw := h.writeSem
  obtain ⟨c1, c2, c3, c4⟩ := counts_set ht .read
  simp [Op.isReading, Op.isWriting] at c1 c2 c3 c4
  rw [List.length_cons] at hr hw
  set data := msg.take (min len (min msg.length IPC_MAX_PACKET_LEN)) with hdata
  have hwrites : writes (trace ++ [.read len data]) = writes trace := by simp [writes]
  have hreads : reads (trace ++ [.read len data]) = reads trace ++ [(len, data)] := by
    simp [reads]
  have hlt : (reads trace).length < (writes trace).length := by
    have := congrArg List.length hmsgs
    rw [List.length_drop, List.length_cons] at this
    omega
  have hnext : (writes trace)[(reads trace).length]? = some msg := by
    have := congrArg (·[0]?) hmsgs
    simpa using this
  refine ⟨?_, ?_, ?_, nonempty_set h.nonempty (fun _ he => by cases he), ?_, ?_⟩
  · rw [hwrites, hreads, List.length_append, List.length_singleton]
    have := congrArg List.tail hmsgs
    rw [List.tail_drop, List.tail_cons] at this
    rw [this]
    exact hholds'
  · rw [hrq]
    dsimp only
    omega
  · rw [hwq]
    dsimp only
    omega
  · rw [hwrites, hreads, List.length_append, List.length_singleton]
    exact hlt
  · intro k len' data' hk
    rw [hreads] at hk
    rw [hwrites]
    rcases Nat.lt_or_ge k (reads trace).length with hlt' | hge
    · rw [List.getElem?_append_left hlt'] at hk
      exact h.fifo k len' data' hk
    · rw [List.getElem?_append_right hge] at hk
      obtain ⟨hz, heq⟩ := List.getElem?_eq_some_iff.mp hk
      rw [List.length_singleton] at hz
      obtain rfl : k = (reads trace).length := by omega
      simp only [Nat.sub_self, List.getElem_cons_zero] at heq
      cases heq
      exact ⟨msg, hnext, hdata⟩

theorem inv_step {trace es : List Event} {s s' : State} {a : Action} {live : List ℕ}
    (h : Inv trace s live) (hstep : step s a = some (es, s')) :
    ∃ live', Inv (trace ++ es) s' live' := by
  have hr := h.readWait
  have hw := h.writeSem
  cases a with
  | startWrite t buff =>
    simp only [step] at hstep
    split_ifs at hstep with hguard
    obtain ⟨hidle, hbuff, hsem⟩ := hguard
    cases hstep
    obtain ⟨c1, c2, c3, c4⟩ := counts_set hidle (.writing buff)
    simp [Op.isReading, Op.isWriting] at c1 c2 c3 c4
    exact ⟨live, h.move (fun _ he => by cases he; exact hbuff) (by omega) (by omega)⟩
  | startRead t len =>
    simp only [step] at hstep
    split_ifs at hstep with hguard
    obtain ⟨hidle, hsem⟩ := hguard
    cases hstep
    obtain ⟨c1, c2, c3, c4⟩ := counts_set hidle (.reading len)
    simp [Op.isReading, Op.isWriting] at c1 c2 c3 c4
    exact ⟨live, h.move (fun _ he => by cases he) (by omega) (by omega)⟩
  | critical t =>
    simp only [step] at hstep
    split at hstep
    · rename_i buff ht
      obtain ⟨live', queue', hwrite, hinv⟩ := h.write ht
      rw [hwrite] at hstep
      cases hstep
      exact ⟨live', hinv⟩
    · rename_i len ht
      obtain ⟨live', queue', data, hread, hinv⟩ := h.read ht
      rw [hread] at hstep
      cases hstep
      exact ⟨live', hinv⟩
    · cases hstep
  | post t =>
    simp only [step] at hstep
    split at hstep
    · rename_i ht
      cases hstep
      obtain ⟨c1, c2, c3, c4⟩ := counts_set ht .idle
      simp [Op.isReading, Op.isWriting] at c1 c2 c3 c4
      exact ⟨live, h.move (fun _ he => by cases he) (by omega) (by omega)⟩
    · rename_i ht
      cases hstep
      obtain ⟨c1, c2, c3, c4⟩ := counts_set ht .idle
      simp [Op.isReading, Op.isWriting] at c1 c2 c3 c4
      exact ⟨live, h.move (fun _ he => by cases he) (by omega) (by omega)⟩
    · cases hstep

/-! ## The queue -/

/-- **The shared-memory queue is a bounded FIFO queue.** In every reachable state the used entries
of `index` are a prefix, distinct, and name exactly the slots in use; the semaphores and the calls in
progress account for all sixteen entries; no section meets one of its error situations; and the
`k`-th read gets the beginning of the `k`-th message. -/
theorem shmem_fifo {threads : ℕ} {contents : List (List UInt8)}
    (hc : contents.length = ENTRIES_PER_QUEUE) {trace : List Event} {s : State}
    (h : Run step (init threads contents) trace s) :
    (∃ live : List ℕ,
      s.queue.index = live.map (Nat.cast : ℕ → Int) ++
        List.replicate (ENTRIES_PER_QUEUE - live.length) (-1) ∧
      live.Nodup ∧
      (∀ j, j ∈ live ↔ ∃ entry, s.queue.slots[j]? = some entry ∧ entry.len ≠ 0) ∧
      (reads trace).length + live.length = (writes trace).length ∧
      live.length ≤ ENTRIES_PER_QUEUE) ∧
    s.queue.readWait + s.queue.writeSem + inProgress s.ops = ENTRIES_PER_QUEUE ∧
    (∀ (t : ℕ) buff, s.ops[t]? = some (.writing buff) →
      (∃ slot, s.queue.slots.findIdx? (·.len = 0) = some slot) ∧
        (∃ i, s.queue.index.findIdx? (· = -1) = some i) ∧ (writeSection s.queue buff).isSome) ∧
    (∀ (t : ℕ) len, s.ops[t]? = some (.reading len) →
      (∃ slot : ℕ, s.queue.index[0]? = some (slot : Int) ∧ slot < ENTRIES_PER_QUEUE) ∧
        (readSection s.queue len).isSome) ∧
    (∀ (k : ℕ) len data, (reads trace)[k]? = some (len, data) →
      ∃ msg, (writes trace)[k]? = some msg ∧
        data = msg.take (min len (min msg.length IPC_MAX_PACKET_LEN))) := by
  obtain ⟨live, hinv⟩ : ∃ live, Inv trace s live :=
    h.history (P := fun trace s => ∃ live, Inv trace s live) ⟨[], inv_init threads hc⟩
      fun _ _ _ _ _ ⟨_, hl⟩ hs => inv_step hl hs
  have hholds := hinv.holds
  refine ⟨⟨live, hholds.index, hholds.nodup, fun j => ?_, ?_, hholds.length_le⟩, ?_,
    fun t buff ht => ?_, fun t len ht => ?_, hinv.fifo⟩
  · constructor
    · intro hj
      have hlt : j < s.queue.slots.length := by
        rw [hholds.slots]
        exact hholds.lt hj
      exact ⟨_, List.getElem?_eq_getElem hlt,
        (hholds.used j _ (List.getElem?_eq_getElem hlt)).mpr hj⟩
    · rintro ⟨entry, hget, hlen⟩
      exact (hholds.used j entry hget).mp hlen
  · have hlen := hholds.stored.length_eq
    have hle := hinv.reads_le
    rw [List.length_drop] at hlen
    omega
  · have hr := hinv.readWait
    have hw := hinv.writeSem
    rw [inProgress_eq]
    omega
  · have hlt := hinv.lt_of_writing ht
    obtain ⟨slot, entry, hfind, -, -⟩ := hholds.exists_free hlt
    obtain ⟨slot', queue', hwrite, -⟩ := hholds.write hlt (hinv.nonempty t buff ht)
    exact ⟨⟨slot, hfind⟩, ⟨_, findIdx_index hholds.index hlt⟩, by rw [hwrite]; rfl⟩
  · obtain ⟨slot, rest, msg, msgs, rfl, hmsgs⟩ := hinv.cons_of_reading ht
    have hindex := hholds.index
    rw [hmsgs] at hholds
    obtain ⟨queue', hread, -⟩ := hholds.read len
    exact ⟨⟨slot, by rw [hindex]; rfl, hholds.lt (by simp)⟩, by rw [hread]; rfl⟩

/-- A writer and a reader; the reader asks for fewer bytes than were written. -/
theorem shmem_fifo_short_read :
    ∃ s, Run step (init 2 (List.replicate 16 [])) [.wrote [1, 2, 3], .read 2 [1, 2]] s ∧
      s.queue.readWait + s.queue.writeSem + inProgress s.ops = ENTRIES_PER_QUEUE := by
  have hrun : ∃ s, exec step (init 2 (List.replicate 16 []))
      [.startWrite 0 [1, 2, 3], .critical 0, .post 0, .startRead 1 2, .critical 1] =
        some ([.wrote [1, 2, 3], .read 2 [1, 2]], s) := ⟨_, rfl⟩
  obtain ⟨s, hs⟩ := hrun
  exact ⟨s, run_of_exec hs, (shmem_fifo (by simp [ENTRIES_PER_QUEUE]) (run_of_exec hs)).2.1⟩

end PlaneSim.Shmem
