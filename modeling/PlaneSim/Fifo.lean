import PlaneSim.Shmem
import PlaneSim.Lib.Framing
import Mathlib.Data.Option.Basic

/-!
# The fifo back end

`ipc_read` and `ipc_write` of `ipc/fifo.c` on a named pipe, beside whole calls of the functions of
`ipc/shmem.c`: the two implement one interface.

1. The pipe holds the outstanding messages, each behind its length (`ipcRead_stream`).
2. The slots hold them too as long as no message is put over an empty one (`Keeps`, `Keeps.write`,
   `Keeps.read`).
3. Exactly then the back ends give the same results (`backends_agree_iff`).
-/

namespace PlaneSim

open Lts Framing

namespace Fifo

open Shmem (IPC_MAX_PACKET_LEN)

/-- `sizeof(size_t)`. -/
def SIZE_T_LEN : ℕ := 8

/-- What Linux writes to a pipe in one piece; POSIX asks for 512 only. -/
def PIPE_BUF : ℕ := 4096

/-- `write` of at most `PIPE_BUF` bytes to a pipe that has room for them: all of them, together. No
more is ever written at once (`length_packet_le`). -/
def pipeWrite (pipe bytes : List UInt8) : ℕ × List UInt8 := (bytes.length, pipe ++ bytes)

/-- `read` on a pipe: an empty one blocks, unless nothing is asked for. -/
def pipeRead (pipe : List UInt8) (count : ℕ) : Option (List UInt8 × List UInt8) :=
  if count = 0 then some ([], pipe)
  else if pipe = [] then none
  else some (pipe.take count, pipe.drop count)

/-- `ipc_write`: the value returned and the pipe. -/
def ipcWrite (pipe buff : List UInt8) : ℕ × List UInt8 :=
  let reallen := if buff.length > IPC_MAX_PACKET_LEN then IPC_MAX_PACKET_LEN else buff.length
  let tempbuf := bytesOf SIZE_T_LEN reallen ++ buff.take reallen
  let (res, pipe) := pipeWrite pipe tempbuf
  (res - SIZE_T_LEN, pipe)

/-- `ipc_read`: the value returned, that many bytes of the buffer, and the pipe. A header that comes
in part, and copies out of the bounds of `tempbuf`, have no defined result. -/
def ipcRead (pipe : List UInt8) (len : ℕ) : Option ((ℕ × List UInt8) × List UInt8) := do
  let (header, pipe) ← pipeRead pipe SIZE_T_LEN
  guard (header.length = SIZE_T_LEN)
  guard (ofBytes header ≤ IPC_MAX_PACKET_LEN)
  let (tempbuf, pipe) ← pipeRead pipe (ofBytes header)
  let count := tempbuf.length
  guard (len ≤ IPC_MAX_PACKET_LEN)
  let res := if len < count then len else count
  pure ((res, tempbuf.take res), pipe)

theorem ipcWrite_stream (msgs : List (List UInt8)) (buff : List UInt8) :
    ipcWrite (stream SIZE_T_LEN msgs) buff =
      (min buff.length IPC_MAX_PACKET_LEN,
        stream SIZE_T_LEN (msgs ++ [buff.take IPC_MAX_PACKET_LEN])) := by
  have hcut : (if buff.length > IPC_MAX_PACKET_LEN then IPC_MAX_PACKET_LEN else buff.length) =
      min buff.length IPC_MAX_PACKET_LEN := by
    split <;> omega
  have htake : buff.take (min buff.length IPC_MAX_PACKET_LEN) = buff.take IPC_MAX_PACKET_LEN := by
    rw [min_comm, ← List.take_eq_take_min]
  have hlen : (buff.take IPC_MAX_PACKET_LEN).length = min buff.length IPC_MAX_PACKET_LEN := by
    rw [List.length_take, min_comm]
  rw [stream_concat, frame, hlen]
  simp only [ipcWrite, pipeWrite, hcut, htake, List.length_append, length_bytesOf, hlen,
    Nat.add_sub_cancel_left]

/-- A reader gets the first message of the stream and leaves the others. -/
theorem ipcRead_stream {msg : List UInt8} (hmsg : msg.length ≤ IPC_MAX_PACKET_LEN)
    (msgs : List (List UInt8)) {len : ℕ} (hlen : len ≤ IPC_MAX_PACKET_LEN) :
    ipcRead (stream SIZE_T_LEN (msg :: msgs)) len =
      some ((min len msg.length, msg.take (min len msg.length)), stream SIZE_T_LEN msgs) := by
  have hheader : pipeRead (stream SIZE_T_LEN (msg :: msgs)) SIZE_T_LEN =
      some (bytesOf SIZE_T_LEN msg.length, msg ++ stream SIZE_T_LEN msgs) := by
    have hne : stream SIZE_T_LEN (msg :: msgs) ≠ [] := by
      intro h
      have := congrArg List.length h
      simp [stream_cons, SIZE_T_LEN] at this
    rw [pipeRead, if_neg (by decide), if_neg hne, take_stream_cons, drop_stream_cons]
  have hcount : ofBytes (bytesOf SIZE_T_LEN msg.length) = msg.length := by
    refine ofBytes_bytesOf (hmsg.trans_lt ?_)
    decide
  have hbody : pipeRead (msg ++ stream SIZE_T_LEN msgs) msg.length =
      some (msg, stream SIZE_T_LEN msgs) := by
    unfold pipeRead
    by_cases hzero : msg.length = 0
    · rw [if_pos hzero, List.length_eq_zero_iff.mp hzero]
      rfl
    · have hne : msg ++ stream SIZE_T_LEN msgs ≠ [] := by
        intro h
        rw [(List.append_eq_nil_iff.mp h).1] at hzero
        exact hzero rfl
      rw [if_neg hzero, if_neg hne, List.take_left, List.drop_left]
  have hres : (if len < msg.length then len else msg.length) = min len msg.length := by
    split <;> omega
  unfold ipcRead
  simp only [hheader, Option.bind_eq_bind, Option.bind_some, length_bytesOf, hcount, guard, hmsg,
    hlen, hbody, if_true, hres]
  rfl

end Fifo

/-! ## Whole calls on the shared memory -/

namespace Shmem

/-- `ipc_write`: the value returned and the queue. -/
def ipcWrite (queue : Queue) (buff : List UInt8) : Option (ℕ × Queue) := do
  guard (0 < queue.writeSem)
  let queue ← writeSection { queue with writeSem := queue.writeSem - 1 } buff
  let len := if buff.length > IPC_MAX_PACKET_LEN then IPC_MAX_PACKET_LEN else buff.length
  pure (len, { queue with readWait := queue.readWait + 1 })

/-- `ipc_read`: the number of bytes copied, which it returns, the bytes, and the queue. -/
def ipcRead (queue : Queue) (len : ℕ) : Option ((ℕ × List UInt8) × Queue) := do
  guard (0 < queue.readWait)
  let (queue, data) ← readSection { queue with readWait := queue.readWait - 1 } len
  pure ((data.length, data), { queue with writeSem := queue.writeSem + 1 })

theorem ipcWrite_eq {queue : Queue} {live : List ℕ} {slot : ℕ} {entry : Entry}
    (hindex : queue.index =
      live.map (Nat.cast : ℕ → Int) ++ List.replicate (ENTRIES_PER_QUEUE - live.length) (-1))
    (hlen : live.length < ENTRIES_PER_QUEUE)
    (hfind : queue.slots.findIdx? (·.len = 0) = some slot)
    (hget : queue.slots[slot]? = some entry) (hsem : 0 < queue.writeSem) (buff : List UInt8) :
    ipcWrite queue buff = some (min buff.length IPC_MAX_PACKET_LEN,
      { index := (live ++ [slot]).map (Nat.cast : ℕ → Int) ++
          List.replicate (ENTRIES_PER_QUEUE - (live ++ [slot]).length) (-1)
        readWait := queue.readWait + 1
        writeSem := queue.writeSem - 1
        slots := queue.slots.set slot
          { len := min buff.length IPC_MAX_PACKET_LEN
            content := buff.take (min buff.length IPC_MAX_PACKET_LEN) ++
              entry.content.drop (min buff.length IPC_MAX_PACKET_LEN) } }) := by
  have hcut : (if buff.length > IPC_MAX_PACKET_LEN then IPC_MAX_PACKET_LEN else buff.length) =
      min buff.length IPC_MAX_PACKET_LEN := by
    split <;> omega
  have hsection := @writeSection_eq { queue with writeSem := queue.writeSem - 1 } _ _ _
    hindex hlen hfind hget buff
  unfold ipcWrite
  simp only [guard, hsem, if_true, Option.bind_eq_bind, hsection, hcut]
  rfl

theorem ipcRead_eq {queue : Queue} {live : List ℕ} {slot : ℕ} {entry : Entry}
    (hindex : queue.index = (slot :: live).map (Nat.cast : ℕ → Int) ++
      List.replicate (ENTRIES_PER_QUEUE - (slot :: live).length) (-1))
    (hlive : (slot :: live).length ≤ ENTRIES_PER_QUEUE)
    (hget : queue.slots[slot]? = some entry) (hsem : 0 < queue.readWait) (len : ℕ) :
    ipcRead queue len = some (((entry.content.take (min len entry.len)).length,
        entry.content.take (min len entry.len)),
      { index := live.map (Nat.cast : ℕ → Int) ++
          List.replicate (ENTRIES_PER_QUEUE - live.length) (-1)
        readWait := queue.readWait - 1
        writeSem := queue.writeSem + 1
        slots := queue.slots.set slot { entry with len := 0 } }) := by
  have hsection := @readSection_eq { queue with readWait := queue.readWait - 1 } _ _ _
    hindex hlive hget len
  unfold ipcRead
  simp only [guard, hsem, if_true, Option.bind_eq_bind, hsection]
  rfl

/-- The entries listed in `live`, in that order, hold the messages `msgs`, no call is in progress,
and an entry with a length is listed once. Entries without one may be listed more often. -/
structure Keeps (queue : Queue) (live : List ℕ) (msgs : List (List UInt8)) : Prop where
  index : queue.index =
    live.map (Nat.cast : ℕ → Int) ++ List.replicate (ENTRIES_PER_QUEUE - live.length) (-1)
  slots : queue.slots.length = ENTRIES_PER_QUEUE
  once : ∀ (j : ℕ) entry, queue.slots[j]? = some entry → entry.len ≠ 0 → live.count j = 1
  stored : List.Forall₂ (fun j msg => ∃ entry, queue.slots[j]? = some entry ∧
    entry.len = msg.length ∧ entry.content.take entry.len = msg) live msgs
  short : ∀ msg ∈ msgs, msg.length ≤ IPC_MAX_PACKET_LEN
  readWait : queue.readWait = live.length
  writeSem : queue.writeSem + live.length = ENTRIES_PER_QUEUE

theorem keeps_init {contents : List (List UInt8)} (h : contents.length = ENTRIES_PER_QUEUE) :
    Keeps (initQueue contents) [] [] := by
  refine ⟨rfl, by simpa [initQueue] using h, ?_, .nil, by simp, rfl, rfl⟩
  intro j entry hj hne
  obtain ⟨content, -, rfl⟩ := List.mem_map.mp (List.mem_of_getElem? hj)
  exact absurd rfl hne

/-- With fewer than sixteen messages some slot looks free. -/
theorem Keeps.exists_free {queue : Queue} {live : List ℕ} {msgs : List (List UInt8)}
    (h : Keeps queue live msgs) (hlen : live.length < ENTRIES_PER_QUEUE) :
    ∃ slot entry, queue.slots.findIdx? (·.len = 0) = some slot ∧
      queue.slots[slot]? = some entry ∧ entry.len = 0 := by
  cases hfind : queue.slots.findIdx? (·.len = 0) with
  | none =>
    have hused : ∀ entry ∈ queue.slots, ¬entry.len = 0 := by
      simpa using hfind
    have hsub : List.range ENTRIES_PER_QUEUE ⊆ live := by
      intro j hj
      have hlt : j < queue.slots.length := by rw [h.slots]; exact List.mem_range.mp hj
      have hone := h.once j _ (List.getElem?_eq_getElem hlt) (hused _ (List.getElem_mem hlt))
      exact List.count_pos_iff.mp (by omega)
    have := ((List.nodup_range).subperm hsub).length_le
    rw [List.length_range] at this
    omega
  | some slot =>
    obtain ⟨hlt, hzero, -⟩ := List.findIdx?_eq_some_iff_getElem.mp hfind
    exact ⟨slot, _, rfl, List.getElem?_eq_getElem hlt, by simpa using hzero⟩

theorem Keeps.length_le {queue : Queue} {live : List ℕ} {msgs : List (List UInt8)}
    (h : Keeps queue live msgs) : live.length ≤ ENTRIES_PER_QUEUE := by
  have := h.writeSem
  omega

theorem Keeps.split {queue : Queue} {live live1 live2 : List ℕ} {slot : ℕ}
    {msgs : List (List UInt8)} (h : Keeps queue live msgs) (hlive : live = live1 ++ slot :: live2) :
    ∃ msgs1 msg msgs2 entry, msgs = msgs1 ++ msg :: msgs2 ∧ msgs1.length = live1.length ∧
      queue.slots[slot]? = some entry ∧ entry.len = msg.length := by
  have htake := (List.forall₂_take live1.length h.stored).length_eq
  have hdrop := List.forall₂_drop live1.length h.stored
  rw [hlive, List.take_left] at htake
  rw [hlive, List.drop_left] at hdrop
  obtain ⟨msg, msgs2, ⟨entry, hentry, hlen, -⟩, -, heq⟩ := List.forall₂_cons_left_iff.mp hdrop
  exact ⟨msgs.take live1.length, msg, msgs2, entry, by rw [← heq, List.take_append_drop],
    htake.symm, hentry, hlen⟩

theorem Keeps.lt {queue : Queue} {live : List ℕ} {msgs : List (List UInt8)}
    (h : Keeps queue live msgs) {j : ℕ} (hj : j ∈ live) : j < queue.slots.length := by
  obtain ⟨live1, live2, hlive, -⟩ := List.eq_append_cons_of_mem hj
  obtain ⟨-, -, -, entry, -, -, hentry, -⟩ := h.split hlive
  exact (List.getElem?_eq_some_iff.mp hentry).1

/-- Changing an entry without a length to one without a length, or an entry that is not listed,
leaves the stored messages alone. -/
theorem keeps_stored_set {slots : List Entry} {slot : ℕ} {old new : Entry} {live : List ℕ}
    {msgs : List (List UInt8)} (hget : slots[slot]? = some old)
    (hslot : slot ∈ live → old.len = 0 ∧ new.len = 0)
    (h : List.Forall₂ (fun j msg => ∃ entry, slots[j]? = some entry ∧
      entry.len = msg.length ∧ entry.content.take entry.len = msg) live msgs) :
    List.Forall₂ (fun j msg => ∃ entry, (slots.set slot new)[j]? = some entry ∧
      entry.len = msg.length ∧ entry.content.take entry.len = msg) live msgs := by
  induction h with
  | nil => exact .nil
  | @cons j msg live msgs hhead _ ih =>
    refine .cons ?_ (ih fun hmem => hslot (List.mem_cons_of_mem _ hmem))
    by_cases hj : slot = j
    · subst hj
      obtain ⟨hold, hnew⟩ := hslot List.mem_cons_self
      obtain ⟨entry, hentry, hlen, -⟩ := hhead
      rw [hget] at hentry
      cases hentry
      obtain rfl : msg = [] := List.length_eq_zero_iff.mp (by omega)
      refine ⟨new, List.getElem?_set_self (List.getElem?_eq_some_iff.mp hget).1, hnew, ?_⟩
      rw [hnew, List.take_zero]
    · rwa [List.getElem?_set_ne hj]

theorem Keeps.write {queue : Queue} {live : List ℕ} {msgs : List (List UInt8)}
    (h : Keeps queue live msgs) (hlen : live.length < ENTRIES_PER_QUEUE) {buff : List UInt8}
    {slot : ℕ} (hfind : queue.slots.findIdx? (·.len = 0) = some slot)
    (hapart : buff = [] ∨ slot ∉ live) :
    ∃ queue', ipcWrite queue buff = some (min buff.length IPC_MAX_PACKET_LEN, queue') ∧
      Keeps queue' (live ++ [slot]) (msgs ++ [buff.take IPC_MAX_PACKET_LEN]) := by
  obtain ⟨slot', old, hfind', hget, hold⟩ := h.exists_free hlen
  obtain rfl : slot' = slot := Option.some_inj.mp (hfind'.symm.trans hfind)
  have hlt : slot' < queue.slots.length := (List.getElem?_eq_some_iff.mp hget).1
  have hsem : 0 < queue.writeSem := by have := h.writeSem; omega
  have hwrite := ipcWrite_eq h.index hlen hfind hget hsem buff
  refine ⟨_, hwrite, ⟨rfl, ?_, ?_, ?_, ?_, ?_, ?_⟩⟩
  · simpa using h.slots
  · intro j entry hj hne
    dsimp only at hj
    rw [List.count_append]
    by_cases hjs : slot' = j
    · subst hjs
      rw [List.getElem?_set_self hlt] at hj
      cases hj
      have hbuff : buff ≠ [] := by
        rintro rfl
        exact hne rfl
      rw [List.count_eq_zero.mpr (hapart.resolve_left hbuff), List.count_singleton_self]
    · rw [List.getElem?_set_ne hjs] at hj
      rw [h.once j entry hj hne, List.count_singleton, if_neg (by simpa using hjs)]
  · refine List.rel_append (keeps_stored_set hget (fun hmem => ⟨hold, ?_⟩) h.stored)
      (.cons ⟨_, List.getElem?_set_self hlt, ?_, ?_⟩ .nil)
    · obtain rfl := hapart.resolve_right (not_not_intro hmem)
      rfl
    · rw [List.length_take, min_comm]
    · have hmin : buff.take IPC_MAX_PACKET_LEN = buff.take (min IPC_MAX_PACKET_LEN buff.length) :=
        List.take_eq_take_min
      dsimp only
      rw [List.take_append_of_le_length (by simp), List.take_take, min_self, hmin, min_comm]
  · intro msg hmsg
    rcases List.mem_append.mp hmsg with hmsg | hmsg
    · exact h.short msg hmsg
    · obtain rfl := List.mem_singleton.mp hmsg
      rw [List.length_take]
      exact min_le_left _ _
  · rw [List.length_append, List.length_singleton, ← h.readWait]
  · have := h.writeSem
    rw [List.length_append, List.length_singleton]
    dsimp only
    omega

theorem Keeps.read {queue : Queue} {slot : ℕ} {live : List ℕ} {msg : List UInt8}
    {msgs : List (List UInt8)} (h : Keeps queue (slot :: live) (msg :: msgs)) (len : ℕ) :
    ∃ queue', ipcRead queue len =
        some ((min len msg.length, msg.take (min len msg.length)), queue') ∧
      Keeps queue' live msgs := by
  obtain ⟨⟨entry, hget, hlen, hcontent⟩, hstored⟩ := List.forall₂_cons.mp h.stored
  have hlt : slot < queue.slots.length := (List.getElem?_eq_some_iff.mp hget).1
  have hsem : 0 < queue.readWait := by rw [h.readWait]; exact Nat.succ_pos _
  have hdata : entry.content.take (min len entry.len) = msg.take (min len msg.length) := by
    have : entry.content.take (min len entry.len) = (entry.content.take entry.len).take len := by
      rw [List.take_take]
    rw [this, hcontent, List.take_eq_take_min]
  have hcopied : (msg.take (min len msg.length)).length = min len msg.length := by
    rw [List.length_take, Nat.min_assoc, min_self]
  have hread := ipcRead_eq h.index h.length_le hget hsem len
  rw [hdata, hcopied] at hread
  refine ⟨_, hread, ⟨rfl, ?_, ?_, ?_, ?_, ?_, ?_⟩⟩
  · simpa using h.slots
  · intro j e hj hne
    dsimp only at hj
    by_cases hjs : slot = j
    · subst hjs
      rw [List.getElem?_set_self hlt] at hj
      cases hj
      exact absurd rfl hne
    · rw [List.getElem?_set_ne hjs] at hj
      have := h.once j e hj hne
      rwa [List.count_cons_of_ne hjs] at this
  · refine keeps_stored_set hget (fun hmem => ⟨?_, rfl⟩) hstored
    -- an entry with a length is listed once, and `slot` is listed again
    by_contra hne
    have hone := h.once slot entry hget hne
    have := List.count_pos_iff.mpr hmem
    rw [List.count_cons_self] at hone
    omega
  · exact fun m hm => h.short m (List.mem_cons_of_mem _ hm)
  · have := h.readWait
    rw [List.length_cons] at this
    dsimp only
    omega
  · have := h.writeSem
    rw [List.length_cons] at this
    dsimp only
    omega

/-- A whole write is the three steps of one thread. -/
theorem exec_ipcWrite {s : State} {t n : ℕ} {buff : List UInt8} {queue' : Queue}
    (ht : s.ops[t]? = some .idle) (hbuff : 0 < buff.length)
    (h : ipcWrite s.queue buff = some (n, queue')) :
    exec step s [.startWrite t buff, .critical t, .post t] =
      some ([.wrote buff], { queue := queue', ops := s.ops }) := by
  obtain ⟨hlt, hidle⟩ := List.getElem?_eq_some_iff.mp ht
  obtain ⟨_, hsem, h⟩ := Option.bind_eq_some_iff.mp h
  replace hsem := (Option.guard_eq_some' _).mp hsem
  obtain ⟨queue1, hsection, h⟩ := Option.bind_eq_some_iff.mp h
  cases h
  have hback : (s.ops.set t .written).set t .idle = s.ops := by
    rw [List.set_set, ← hidle, List.set_getElem_self]
  simp [exec, step, hidle, hbuff, hsem, hsection, hlt, hback]

/-- A whole read is the three steps of one thread. -/
theorem exec_ipcRead {s : State} {t len n : ℕ} {data : List UInt8} {queue' : Queue}
    (ht : s.ops[t]? = some .idle) (h : ipcRead s.queue len = some ((n, data), queue')) :
    exec step s [.startRead t len, .critical t, .post t] =
      some ([.read len data], { queue := queue', ops := s.ops }) := by
  obtain ⟨hlt, hidle⟩ := List.getElem?_eq_some_iff.mp ht
  obtain ⟨_, hsem, h⟩ := Option.bind_eq_some_iff.mp h
  replace hsem := (Option.guard_eq_some' _).mp hsem
  obtain ⟨⟨queue1, data'⟩, hsection, h⟩ := Option.bind_eq_some_iff.mp h
  cases h
  have hback : (s.ops.set t .read).set t .idle = s.ops := by
    rw [List.set_set, ← hidle, List.set_getElem_self]
  simp [exec, step, hidle, hsem, hsection, hlt, hback]

end Shmem

/-! ## Both back ends -/

namespace Ipc

open Shmem (Queue initQueue ENTRIES_PER_QUEUE IPC_MAX_PACKET_LEN Keeps)
open Fifo (SIZE_T_LEN)

/-- A call of the interface of `ipc.h`. -/
inductive Call where
  | write (buff : List UInt8)
  | read (len : ℕ)
deriving DecidableEq, Repr

/-- What the caller sees: the value returned and, after a read, that many bytes of its buffer. -/
structure Result where
  value : ℕ
  data : List UInt8
deriving DecidableEq, Repr

def shmemCall (queue : Queue) : Call → Option (List Result × Queue)
  | .write buff => (Shmem.ipcWrite queue buff).map fun (res, queue) => ([⟨res, []⟩], queue)
  | .read len => (Shmem.ipcRead queue len).map fun ((res, data), queue) => ([⟨res, data⟩], queue)

def fifoCall (pipe : List UInt8) : Call → Option (List Result × List UInt8)
  | .write buff =>
    let (res, pipe) := Fifo.ipcWrite pipe buff
    some ([⟨res, []⟩], pipe)
  | .read len => (Fifo.ipcRead pipe len).map fun ((res, data), pipe) => ([⟨res, data⟩], pipe)

/-- With `n` messages outstanding no call has to block, at most sixteen messages are ever
outstanding, and the buffers of the readers have up to 512 bytes. -/
def NoBlock : ℕ → List Call → Prop
  | _, [] => True
  | n, .write _ :: calls => n < ENTRIES_PER_QUEUE ∧ NoBlock (n + 1) calls
  | n, .read len :: calls => 0 < n ∧ len ≤ IPC_MAX_PACKET_LEN ∧ NoBlock (n - 1) calls

/-- Both back ends run the calls, and every call gives the same result. -/
def Agree (queue : Queue) (pipe : List UInt8) (calls : List Call) : Prop :=
  ∃ results queue' pipe', exec shmemCall queue calls = some (results, queue') ∧
    exec fifoCall pipe calls = some (results, pipe')

/-- The call does not put a message over an empty one: unless the message itself is empty, the slot
it gets is not one that `index` names. -/
def Apart (queue : Queue) : Call → Prop
  | .write buff => buff = [] ∨
      ∀ slot, queue.slots.findIdx? (·.len = 0) = some slot → (slot : Int) ∉ queue.index
  | .read _ => True

/-- `Apart` at every call on the way. -/
def ApartRun : Queue → List Call → Prop
  | _, [] => True
  | queue, call :: calls => Apart queue call ∧
      ∀ results queue', shmemCall queue call = some (results, queue') → ApartRun queue' calls

theorem mem_index {live : List ℕ} {n slot : ℕ} :
    (slot : Int) ∈ live.map (Nat.cast : ℕ → Int) ++ List.replicate n (-1) ↔ slot ∈ live := by
  rw [List.mem_append, List.mem_map]
  constructor
  · rintro (⟨j, hj, hcast⟩ | hmem)
    · rwa [Int.natCast_inj.mp hcast] at hj
    · have := List.eq_of_mem_replicate hmem
      omega
  · exact fun h => .inl ⟨slot, h, rfl⟩

theorem fifoCall_read {msg : List UInt8} (hmsg : msg.length ≤ IPC_MAX_PACKET_LEN)
    (msgs : List (List UInt8)) {len : ℕ} (hlen : len ≤ IPC_MAX_PACKET_LEN) :
    fifoCall (stream SIZE_T_LEN (msg :: msgs)) (.read len) =
      some ([⟨min len msg.length, msg.take (min len msg.length)⟩], stream SIZE_T_LEN msgs) := by
  rw [fifoCall, Fifo.ipcRead_stream hmsg msgs hlen]
  rfl

/-- One call: the slots and the pipe go on holding the same messages. -/
theorem keeps_call {queue : Queue} {live : List ℕ} {msgs : List (List UInt8)}
    (h : Keeps queue live msgs) {call : Call} {calls : List Call}
    (hblock : NoBlock live.length (call :: calls)) (hapart : Apart queue call) :
    ∃ result queue' live' msgs', shmemCall queue call = some ([result], queue') ∧
      fifoCall (stream SIZE_T_LEN msgs) call = some ([result], stream SIZE_T_LEN msgs') ∧
      Keeps queue' live' msgs' ∧
      ∀ later, NoBlock live.length (call :: later) ↔ NoBlock live'.length later := by
  cases call with
  | write buff =>
    obtain ⟨hlen, -⟩ := hblock
    obtain ⟨slot, -, hfind, -⟩ := h.exists_free hlen
    have hslot : buff = [] ∨ slot ∉ live := by
      refine hapart.imp_right fun hout hmem => hout slot hfind ?_
      rw [h.index]
      exact mem_index.mpr hmem
    obtain ⟨queue', hwrite, hkeeps⟩ := h.write hlen hfind hslot
    refine ⟨⟨min buff.length IPC_MAX_PACKET_LEN, []⟩, queue', _, _, ?_, ?_, hkeeps, ?_⟩
    · rw [shmemCall, hwrite]
      rfl
    · rw [fifoCall, Fifo.ipcWrite_stream]
    · intro later
      rw [List.length_append, List.length_singleton]
      exact and_iff_right hlen
  | read len =>
    obtain ⟨hpos, hlen, -⟩ := hblock
    obtain ⟨slot, live, rfl⟩ := List.exists_cons_of_length_pos hpos
    have hstored := h.stored
    cases hstored with
    | @cons _ msg _ msgs _ _ =>
      obtain ⟨queue', hread, hkeeps⟩ := h.read len
      refine ⟨⟨min len msg.length, msg.take (min len msg.length)⟩, queue', _, _, ?_, ?_, hkeeps,
        fun later => (and_iff_right hpos).trans (and_iff_right hlen)⟩
      · rw [shmemCall, hread]
        rfl
      · exact fifoCall_read (h.short msg List.mem_cons_self) msgs hlen

theorem exec_call {σ : Type} {step : σ → Call → Option (List Result × σ)} {s s' : σ} {call : Call}
    {result : Result} (h : step s call = some ([result], s')) (calls : List Call) :
    exec step s (call :: calls) =
      (exec step s' calls).map fun (results, s) => (result :: results, s) := by
  rw [exec, h]
  show (exec step s' calls).bind _ = _
  cases exec step s' calls <;> rfl

/-- Calls that keep apart give the same results. -/
theorem keeps_agree {queue : Queue} {live : List ℕ} {msgs : List (List UInt8)}
    (h : Keeps queue live msgs) {calls : List Call} (hblock : NoBlock live.length calls)
    (hapart : ApartRun queue calls) : Agree queue (stream SIZE_T_LEN msgs) calls := by
  induction calls generalizing queue live msgs with
  | nil => exact ⟨[], queue, _, rfl, rfl⟩
  | cons call calls ih =>
    obtain ⟨result, queue', live', msgs', hshmem, hfifo, hkeeps, hblock'⟩ :=
      keeps_call h hblock hapart.1
    obtain ⟨results, queue2, pipe2, hs, hf⟩ :=
      ih hkeeps ((hblock' calls).mp hblock) (hapart.2 _ _ hshmem)
    refine ⟨result :: results, queue2, pipe2, ?_, ?_⟩
    · rw [exec_call hshmem, hs]
      rfl
    · rw [exec_call hfifo, hf]
      rfl

/-! ### A message over an empty one -/

theorem noBlock_reads {n k : ℕ} (h : k ≤ n) :
    NoBlock n (List.replicate k (.read IPC_MAX_PACKET_LEN)) := by
  induction k generalizing n with
  | zero => trivial
  | succ k ih => exact ⟨by omega, le_rfl, ih (by omega)⟩

/-- A reader that did not block had a message to read. -/
theorem readWait_pos {queue queue' : Queue} {len n : ℕ} {results : List Result}
    (h : exec shmemCall queue (List.replicate (n + 1) (.read len)) = some (results, queue')) :
    0 < queue.readWait := by
  by_contra hzero
  rw [List.replicate_succ, exec, shmemCall, Shmem.ipcRead, guard, if_neg hzero] at h
  cases h

/-- Reading leaves an entry alone until it comes first; then the reader gets what is in it. -/
theorem shmem_reads {queue : Queue} {live1 live2 : List ℕ} {slot : ℕ} {entry : Shmem.Entry}
    (hindex : queue.index = (live1 ++ slot :: live2).map (Nat.cast : ℕ → Int) ++
      List.replicate (ENTRIES_PER_QUEUE - (live1 ++ slot :: live2).length) (-1))
    (hle : (live1 ++ slot :: live2).length ≤ ENTRIES_PER_QUEUE)
    (hin : ∀ j ∈ live1, j < queue.slots.length) (hout : slot ∉ live1)
    (hget : queue.slots[slot]? = some entry)
    (hdata : entry.content.take (min IPC_MAX_PACKET_LEN entry.len) ≠ [])
    {results : List Result} {queue' : Queue}
    (h : exec shmemCall queue (List.replicate (live1.length + 1) (.read IPC_MAX_PACKET_LEN)) =
      some (results, queue')) :
    ∃ result, results[live1.length]? = some result ∧ result.value ≠ 0 := by
  induction live1 generalizing queue results with
  | nil =>
    have hsem := readWait_pos h
    have hread := Shmem.ipcRead_eq hindex hle hget hsem IPC_MAX_PACKET_LEN
    have hcall := congrArg (Option.map fun ((res, data), queue) => ([Result.mk res data], queue))
      hread
    rw [List.length_nil, List.replicate_one, exec_call hcall] at h
    cases h
    exact ⟨_, rfl, fun hzero => hdata (List.length_eq_zero_iff.mp hzero)⟩
  | cons j live1 ih =>
    obtain ⟨hne, hout⟩ : slot ≠ j ∧ slot ∉ live1 := by simpa using hout
    have hj := List.getElem?_eq_getElem (hin j List.mem_cons_self)
    have hsem := readWait_pos h
    have hread := Shmem.ipcRead_eq hindex hle hj hsem IPC_MAX_PACKET_LEN
    have hcall := congrArg (Option.map fun ((res, data), queue) => ([Result.mk res data], queue))
      hread
    rw [List.length_cons, List.replicate_succ, exec_call hcall] at h
    obtain ⟨⟨rest, queue2⟩, hrest, heq⟩ := Option.map_eq_some_iff.mp h
    cases heq
    obtain ⟨result, hresult, hzero⟩ := ih rfl (by simpa using Nat.le_of_succ_le hle)
      (fun i hi => by simpa using hin i (List.mem_cons_of_mem _ hi)) hout
      (by rwa [List.getElem?_set_ne (Ne.symm hne)]) hrest
    exact ⟨result, by rwa [List.length_cons, List.getElem?_cons_succ], hzero⟩

/-- An empty message comes out of the pipe with length zero. -/
theorem fifo_reads {msgs1 msgs2 : List (List UInt8)}
    (hshort : ∀ msg ∈ msgs1, msg.length ≤ IPC_MAX_PACKET_LEN) {results : List Result}
    {pipe' : List UInt8}
    (h : exec fifoCall (stream SIZE_T_LEN (msgs1 ++ [] :: msgs2))
      (List.replicate (msgs1.length + 1) (.read IPC_MAX_PACKET_LEN)) = some (results, pipe')) :
    ∃ result, results[msgs1.length]? = some result ∧ result.value = 0 := by
  induction msgs1 generalizing results with
  | nil =>
    have hcall := fifoCall_read (by simp : ([] : List UInt8).length ≤ IPC_MAX_PACKET_LEN) msgs2
      (le_refl IPC_MAX_PACKET_LEN)
    rw [List.nil_append, List.length_nil, List.replicate_one, exec_call hcall] at h
    cases h
    exact ⟨_, rfl, rfl⟩
  | cons msg msgs1 ih =>
    have hcall := fifoCall_read (hshort msg List.mem_cons_self) (msgs1 ++ [] :: msgs2)
      (le_refl IPC_MAX_PACKET_LEN)
    rw [List.cons_append, List.length_cons, List.replicate_succ, exec_call hcall] at h
    obtain ⟨⟨rest, pipe2⟩, hrest, heq⟩ := Option.map_eq_some_iff.mp h
    cases heq
    obtain ⟨result, hresult, hzero⟩ := ih (fun m hm => hshort m (List.mem_cons_of_mem _ hm)) hrest
    exact ⟨result, by rwa [List.length_cons, List.getElem?_cons_succ], hzero⟩

theorem written_ne_nil {buff : List UInt8} (hbuff : buff ≠ []) (rest : List UInt8) :
    (buff.take (min buff.length IPC_MAX_PACKET_LEN) ++ rest).take
      (min IPC_MAX_PACKET_LEN (min buff.length IPC_MAX_PACKET_LEN)) ≠ [] := by
  have hpos : 0 < min buff.length IPC_MAX_PACKET_LEN :=
    lt_min (List.length_pos_iff.mpr hbuff) (by decide)
  rw [min_eq_right (min_le_right _ _), List.take_append_of_le_length (by simp), List.take_take,
    min_self]
  intro hnil
  have hlen := congrArg List.length hnil
  rw [List.length_take, List.length_nil] at hlen
  omega

/-- A message put over an empty one comes out in its place; the pipe still has the empty one. -/
theorem keeps_clash {queue : Queue} {live : List ℕ} {msgs : List (List UInt8)}
    (h : Keeps queue live msgs) (hlen : live.length < ENTRIES_PER_QUEUE) {buff : List UInt8}
    (hbuff : buff ≠ []) {slot : ℕ} (hfind : queue.slots.findIdx? (·.len = 0) = some slot)
    (hmem : slot ∈ live) :
    ∃ k ≤ live.length, ¬Agree queue (stream SIZE_T_LEN msgs)
      (.write buff :: List.replicate k (.read IPC_MAX_PACKET_LEN)) := by
  obtain ⟨slot', old, hfind', hget, hold⟩ := h.exists_free hlen
  obtain rfl : slot' = slot := Option.some_inj.mp (hfind'.symm.trans hfind)
  obtain ⟨live1, live2, hlive, hout⟩ := List.eq_append_cons_of_mem hmem
  obtain ⟨msgs1, msg, msgs2, entry, rfl, hcount, hentry, hmsg⟩ := h.split hlive
  -- the message that lies in the slot is empty
  obtain rfl : entry = old := Option.some_inj.mp (hentry.symm.trans hget)
  obtain rfl : msg = [] := List.length_eq_zero_iff.mp (by omega)
  have hlt : slot' < queue.slots.length := (List.getElem?_eq_some_iff.mp hget).1
  have hsem : 0 < queue.writeSem := by have := h.writeSem; omega
  have hwrite := Shmem.ipcWrite_eq h.index hlen hfind hget hsem buff
  have hcall := congrArg (Option.map fun (res, queue) => ([Result.mk res []], queue)) hwrite
  have hfifo : fifoCall (stream SIZE_T_LEN (msgs1 ++ [] :: msgs2)) (.write buff) =
      some ([⟨min buff.length IPC_MAX_PACKET_LEN, []⟩],
        stream SIZE_T_LEN (msgs1 ++ [] :: (msgs2 ++ [buff.take IPC_MAX_PACKET_LEN]))) := by
    rw [fifoCall, Fifo.ipcWrite_stream, List.append_assoc, List.cons_append]
  have hk : live1.length + 1 ≤ live.length := by
    rw [hlive, List.length_append, List.length_cons]
    omega
  refine ⟨live1.length + 1, hk, ?_⟩
  rintro ⟨results, queue', pipe', hs, hf⟩
  rw [exec_call hcall] at hs
  rw [exec_call hfifo, ← hcount] at hf
  obtain ⟨⟨rest, queue2⟩, hs, heq⟩ := Option.map_eq_some_iff.mp hs
  cases heq
  obtain ⟨⟨rest', pipe2⟩, hf, heq⟩ := Option.map_eq_some_iff.mp hf
  cases heq
  have hin : ∀ j ∈ live1, j < (queue.slots.set slot' ⟨min buff.length IPC_MAX_PACKET_LEN,
      buff.take (min buff.length IPC_MAX_PACKET_LEN) ++
        entry.content.drop (min buff.length IPC_MAX_PACKET_LEN)⟩).length := by
    intro j hj
    rw [List.length_set]
    exact h.lt (by rw [hlive]; exact List.mem_append_left _ hj)
  obtain ⟨result, hresult, hne⟩ := shmem_reads
    (by rw [hlive, List.append_assoc, List.cons_append])
    (by rw [hlive] at hlen; simp at hlen ⊢; omega) hin hout (List.getElem?_set_self hlt)
    (written_ne_nil hbuff _) hs
  obtain ⟨result', hresult', hzero⟩ := fifo_reads
    (fun msg hmsg => h.short msg (List.mem_append_left _ hmsg)) hf
  rw [hcount, hresult] at hresult'
  cases hresult'
  exact hne hzero

theorem apartRun_reads {queue : Queue} {calls : List Call}
    (h : ∀ call ∈ calls, ∃ len, call = .read len) : ApartRun queue calls := by
  induction calls generalizing queue with
  | nil => trivial
  | cons call calls ih =>
    obtain ⟨len, rfl⟩ := h call List.mem_cons_self
    exact ⟨trivial, fun _ _ _ => ih fun c hc => h c (List.mem_cons_of_mem _ hc)⟩

/-- Going on by reading keeps apart. -/
theorem ApartRun.append_reads {queue : Queue} {pre calls tail : List Call}
    (h : ApartRun queue calls) (hpre : pre <+: calls)
    (htail : ∀ call ∈ tail, ∃ len, call = .read len) : ApartRun queue (pre ++ tail) := by
  induction pre generalizing queue calls with
  | nil => exact apartRun_reads htail
  | cons call pre ih =>
    obtain ⟨rest, rfl⟩ := hpre
    exact ⟨h.1, fun results queue' hcall => ih (h.2 results queue' hcall) ⟨rest, rfl⟩⟩

theorem Agree.tail {queue queue' : Queue} {pipe pipe' : List UInt8} {call : Call}
    {calls : List Call} {result : Result} (h : Agree queue pipe (call :: calls))
    (hshmem : shmemCall queue call = some ([result], queue'))
    (hfifo : fifoCall pipe call = some ([result], pipe')) : Agree queue' pipe' calls := by
  obtain ⟨results, queue2, pipe2, hs, hf⟩ := h
  rw [exec_call hshmem] at hs
  rw [exec_call hfifo] at hf
  obtain ⟨⟨rest, queue3⟩, hs, heq⟩ := Option.map_eq_some_iff.mp hs
  cases heq
  obtain ⟨⟨rest', pipe3⟩, hf, heq⟩ := Option.map_eq_some_iff.mp hf
  cases heq
  exact ⟨rest, queue2, pipe2, hs, hf⟩

/-- Calls that agree, however one goes on by reading, keep apart. -/
theorem keeps_apart {queue : Queue} {live : List ℕ} {msgs : List (List UInt8)}
    (h : Keeps queue live msgs) {calls : List Call} (hblock : NoBlock live.length calls)
    (hagree : ∀ pre tail, pre <+: calls → (∀ call ∈ tail, ∃ len, call = .read len) →
      NoBlock live.length (pre ++ tail) → Agree queue (stream SIZE_T_LEN msgs) (pre ++ tail)) :
    ApartRun queue calls := by
  induction calls generalizing queue live msgs with
  | nil => trivial
  | cons call calls ih =>
    have hapart : Apart queue call := by
      cases call with
      | read len => trivial
      | write buff =>
        by_contra hno
        obtain ⟨hbuff, hno⟩ := not_or.mp hno
        push Not at hno
        obtain ⟨slot, hfind, hmem⟩ := hno
        rw [h.index] at hmem
        obtain ⟨k, hk, hclash⟩ := keeps_clash h hblock.1 hbuff hfind (mem_index.mp hmem)
        refine hclash (hagree [.write buff] (List.replicate k (.read IPC_MAX_PACKET_LEN))
          ⟨calls, rfl⟩ (fun call hcall => ⟨_, List.eq_of_mem_replicate hcall⟩) ⟨hblock.1, ?_⟩)
        exact noBlock_reads (by omega)
    obtain ⟨result, queue', live', msgs', hshmem, hfifo, hkeeps, hblock'⟩ :=
      keeps_call h hblock hapart
    refine ⟨hapart, fun results queue2 hcall => ?_⟩
    rw [hshmem] at hcall
    cases hcall
    refine ih hkeeps ((hblock' calls).mp hblock) fun pre tail hpre htail hb => ?_
    obtain ⟨rest, rfl⟩ := hpre
    exact (hagree (call :: pre) tail ⟨rest, rfl⟩ htail ((hblock' _).mpr hb)).tail hshmem hfifo

/-- **When the back ends are interchangeable.** The calls never put a non-empty message into a slot
that an outstanding (empty) message still holds, if and only if both back ends give the same results
for the calls and for every beginning of them continued by reads. -/
theorem backends_agree_iff {contents : List (List UInt8)}
    (hc : contents.length = ENTRIES_PER_QUEUE) {calls : List Call} (hblock : NoBlock 0 calls) :
    ApartRun (initQueue contents) calls ↔
      ∀ pre tail, pre <+: calls → (∀ call ∈ tail, ∃ len, call = .read len) →
        NoBlock 0 (pre ++ tail) → Agree (initQueue contents) [] (pre ++ tail) := by
  have hkeeps := Shmem.keeps_init hc
  constructor
  · intro h pre tail hpre htail hb
    exact keeps_agree hkeeps hb (h.append_reads hpre htail)
  · exact keeps_apart hkeeps hblock

/-- An empty message between two others, read before the next one is written. -/
theorem backends_agree_iff_between :
    Agree (initQueue (List.replicate 16 [])) []
      [.write [1], .write [], .read 512, .read 512, .write [2], .read 1] := by
  have hblock : NoBlock 0
      [.write [1], .write [], .read 512, .read 512, .write [2], .read 1] := by
    simp [NoBlock, ENTRIES_PER_QUEUE, IPC_MAX_PACKET_LEN]
  refine (backends_agree_iff rfl hblock).mp ?_ _ [] (List.prefix_refl _) (by simp) (by simpa)
  refine ⟨.inr fun slot _ => ?_, fun _ _ h => ?_⟩
  · exact fun hmem => absurd (List.eq_of_mem_replicate hmem) (by omega)
  cases h
  refine ⟨.inl rfl, fun _ _ h => ?_⟩
  cases h
  refine ⟨trivial, fun _ _ h => ?_⟩
  cases h
  refine ⟨trivial, fun _ _ h => ?_⟩
  cases h
  refine ⟨.inr fun slot _ => ?_, fun _ _ _ => ⟨trivial, fun _ _ _ => trivial⟩⟩
  show (slot : Int) ∉ List.replicate 16 (-1)
  exact fun hmem => absurd (List.eq_of_mem_replicate hmem) (by omega)

/-- An empty message, then one byte: the shared memory delivers the byte first. -/
theorem backends_differ :
    ¬∀ (contents : List (List UInt8)) (calls : List Call), contents.length = ENTRIES_PER_QUEUE →
      NoBlock 0 calls → Agree (initQueue contents) [] calls := by
  intro h
  obtain ⟨results, queue', pipe', hs, hf⟩ := h (List.replicate 16 [])
    [.write [], .write [1], .read 512] rfl
    (by simp [NoBlock, ENTRIES_PER_QUEUE, IPC_MAX_PACKET_LEN])
  have hs' : exec shmemCall (initQueue (List.replicate 16 []))
      [.write [], .write [1], .read 512] = some ([⟨0, []⟩, ⟨1, []⟩, ⟨1, [1]⟩], _) := rfl
  have hf' : exec fifoCall [] [.write [], .write [1], .read 512] =
      some ([⟨0, []⟩, ⟨1, []⟩, ⟨0, []⟩], _) := rfl
  rw [hs'] at hs
  rw [hf'] at hf
  cases hs
  cases hf

end Ipc

end PlaneSim
