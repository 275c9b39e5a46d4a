import PlaneSim.Fifo

/-!
# The pipe under any interleaving

Any number of threads, of any number of processes, call `ipc_write` of `ipc/fifo.c` for one pipe
while its reader calls `ipc_read`. A write to the pipe is one step; a call of `ipc_read` is two, for
it reads the header and the body apart, and writes may come between.

1. No write is longer than what the pipe takes in one piece (`length_packet_le`).
2. Between two calls of the reader the pipe is a stream of whole messages; between its two reads it
   is one behind the body that was announced (`Inv`).
3. The `k`-th `ipc_read` gets the beginning of the `k`-th message (`pipe_boundaries`).
-/

namespace PlaneSim.Fifo

open Lts Framing
open Shmem (IPC_MAX_PACKET_LEN)

/-- What `ipc_write` puts into `tempbuf`. -/
def packet (buff : List UInt8) : List UInt8 :=
  let reallen := if buff.length > IPC_MAX_PACKET_LEN then IPC_MAX_PACKET_LEN else buff.length
  bytesOf SIZE_T_LEN reallen ++ buff.take reallen

/-- A whole call of `ipc_write` is the write of its packet. -/
theorem ipcWrite_eq_packet (pipe buff : List UInt8) :
    ipcWrite pipe buff =
      ((pipeWrite pipe (packet buff)).1 - SIZE_T_LEN, (pipeWrite pipe (packet buff)).2) := rfl

/-- What is sent of a message. -/
def cut (buff : List UInt8) : List UInt8 := buff.take IPC_MAX_PACKET_LEN

theorem packet_eq_frame (buff : List UInt8) : packet buff = frame SIZE_T_LEN (cut buff) := by
  have hstream := congrArg Prod.snd (ipcWrite_stream [] buff)
  rwa [ipcWrite_eq_packet, stream_nil, List.nil_append, stream_cons, stream_nil,
    List.append_nil] at hstream

theorem length_packet (buff : List UInt8) :
    (packet buff).length = SIZE_T_LEN + min buff.length IPC_MAX_PACKET_LEN := by
  rw [packet_eq_frame, frame, List.length_append, length_bytesOf, cut, List.length_take, min_comm]

/-- **Atomic writes.** What `ipc_write` writes at once is short enough not to be interleaved. -/
theorem length_packet_le (buff : List UInt8) : (packet buff).length ≤ PIPE_BUF := by
  rw [length_packet]
  have hcut : min buff.length IPC_MAX_PACKET_LEN ≤ IPC_MAX_PACKET_LEN := min_le_right _ _
  have hbound : SIZE_T_LEN + IPC_MAX_PACKET_LEN ≤ PIPE_BUF := by decide
  omega

/-! ## Threads -/

/-- Where a thread is in a call of `ipc_write`. -/
inductive WriteOp where
  | idle
  | locked (conn : ℕ) (buff : List UInt8)
  | written (conn res : ℕ)
deriving DecidableEq, Repr

/-- Where the reader is in a call of `ipc_read`; `undefined` is where it is after a header that came
in part, or one that announces more than `tempbuf` holds. -/
inductive ReadOp where
  | idle
  | body (len count : ℕ)
  | undefined
deriving DecidableEq, Repr

inductive Event where
  | wrote (buff : List UInt8)
  | returned (thread res : ℕ)
  | read (len res : ℕ) (data : List UInt8)
deriving DecidableEq, Repr

/-- `mutexes` are those of the connections to the pipe. -/
structure State where
  pipe : List UInt8
  mutexes : List (Option ℕ)
  writers : List WriteOp
  reader : ReadOp
deriving DecidableEq, Repr

inductive Action where
  /-- `pthread_mutex_lock(&conn->mutex)` of a call of `ipc_write`. -/
  | lock (thread conn : ℕ) (buff : List UInt8)
  | write (thread : ℕ)
  | unlock (thread : ℕ)
  /-- The first `read` of a call of `ipc_read`. -/
  | readHeader (len : ℕ)
  | readBody

/-- `capacity` is that of the pipe: a write that does not fit blocks. A write is one step as it is
not longer than `PIPE_BUF`. -/
def step (capacity : ℕ) (s : State) : Action → Option (List Event × State)
  | .lock t conn buff =>
    if s.writers[t]? = some .idle ∧ s.mutexes[conn]? = some none then
      some ([], { s with mutexes := s.mutexes.set conn (some t)
                         writers := s.writers.set t (.locked conn buff) })
    else none
  | .write t =>
    match s.writers[t]? with
    | some (.locked conn buff) =>
      if (packet buff).length ≤ PIPE_BUF ∧ s.pipe.length + (packet buff).length ≤ capacity then
        let (res, pipe) := pipeWrite s.pipe (packet buff)
        some ([.wrote buff], { s with pipe := pipe, writers := s.writers.set t (.written conn res) })
      else none
    | _ => none
  | .unlock t =>
    match s.writers[t]? with
    | some (.written conn res) =>
      some ([.returned t (res - SIZE_T_LEN)],
        { s with mutexes := s.mutexes.set conn none, writers := s.writers.set t .idle })
    | _ => none
  | .readHeader len =>
    if s.reader = .idle ∧ len ≤ IPC_MAX_PACKET_LEN then
      (pipeRead s.pipe SIZE_T_LEN).map fun (header, pipe) =>
        let count := ofBytes header
        ([], { s with
          pipe := pipe
          reader := if header.length = SIZE_T_LEN ∧ count ≤ IPC_MAX_PACKET_LEN then .body len count
            else .undefined })
    else none
  | .readBody =>
    match s.reader with
    | .body len count =>
      (pipeRead s.pipe count).map fun (tempbuf, pipe) =>
        let count := tempbuf.length
        let res := if len < count then len else count
        ([.read len res (tempbuf.take res)], { s with pipe := pipe, reader := .idle })
    | _ => none

def init (connections threads : ℕ) : State where
  pipe := []
  mutexes := List.replicate connections none
  writers := List.replicate threads .idle
  reader := .idle

/-- The messages, in the order of the pipe. -/
def writes (trace : List Event) : List (List UInt8) :=
  trace.filterMap fun
    | .wrote buff => some buff
    | _ => none

/-- The calls of `ipc_read`: the length of the buffer, the value returned, and that many bytes of
the buffer. -/
def reads (trace : List Event) : List (ℕ × ℕ × List UInt8) :=
  trace.filterMap fun
    | .read len res data => some (len, res, data)
    | _ => none

/-- The messages that are still to be read, as they are sent. -/
def unread (trace : List Event) : List (List UInt8) :=
  ((writes trace).drop (reads trace).length).map cut

/-- Only a full pipe blocks a write. -/
theorem step_write_isSome {capacity : ℕ} {s : State} {t conn : ℕ} {buff : List UInt8}
    (h : s.writers[t]? = some (.locked conn buff)) :
    (step capacity s (.write t)).isSome ↔ s.pipe.length + (packet buff).length ≤ capacity := by
  simp only [step, h, length_packet_le buff, true_and]
  split <;> simp_all

/-- A call of `ipc_read` that nothing comes between is the whole call. -/
theorem exec_ipcRead {capacity : ℕ} {s : State} {len res : ℕ} {data pipe : List UInt8}
    (hidle : s.reader = .idle) (h : ipcRead s.pipe len = some ((res, data), pipe)) :
    exec (step capacity) s [.readHeader len, .readBody] =
      some ([.read len res data], { s with pipe := pipe }) := by
  unfold ipcRead at h
  simp only [Option.bind_eq_bind, Option.bind_eq_some_iff, Option.guard_eq_some', Prod.exists] at h
  obtain ⟨header, pipe1, hheader, -, hlen, -, hcount, tempbuf, pipe2, hbody, -, hle, hres⟩ := h
  cases hres
  simp [exec, step, hidle, hle, hheader, hlen, hcount, hbody]

/-! ## The invariant -/

/-- What the reader finds in the pipe, with the messages `msgs` to be read. -/
def Positioned (pipe : List UInt8) (msgs : List (List UInt8)) : ReadOp → Prop
  | .idle => pipe = stream SIZE_T_LEN msgs
  | .body len count => len ≤ IPC_MAX_PACKET_LEN ∧ ∃ msg rest, msgs = msg :: rest ∧
      count = msg.length ∧ pipe = msg ++ stream SIZE_T_LEN rest
  | .undefined => False

/-- What `ipc_read` returns of a message: `min(len, m)` and that many bytes, where `m` is the length
of the message cut to the packet length. -/
def Gets (buff : List UInt8) (len res : ℕ) (data : List UInt8) : Prop :=
  res = min len (min buff.length IPC_MAX_PACKET_LEN) ∧ data = buff.take res

structure Inv (trace : List Event) (s : State) : Prop where
  positioned : Positioned s.pipe (unread trace) s.reader
  reads_le : (reads trace).length ≤ (writes trace).length
  gets : ∀ (k : ℕ) len res data, (reads trace)[k]? = some (len, res, data) →
    ∃ buff, (writes trace)[k]? = some buff ∧ Gets buff len res data

theorem inv_init (connections threads : ℕ) : Inv [] (init connections threads) where
  positioned := rfl
  reads_le := le_rfl
  gets := by simp [reads]

theorem length_cut (buff : List UInt8) :
    (cut buff).length = min buff.length IPC_MAX_PACKET_LEN := by
  rw [cut, List.length_take, min_comm]

/-- A new message goes behind the others. -/
theorem Positioned.write {pipe : List UInt8} {msgs : List (List UInt8)} {reader : ReadOp}
    (h : Positioned pipe msgs reader) (buff : List UInt8) :
    Positioned (pipe ++ packet buff) (msgs ++ [cut buff]) reader := by
  rw [packet_eq_frame]
  cases reader with
  | idle =>
    have hpipe : pipe = stream SIZE_T_LEN msgs := h
    show _ = _
    rw [stream_concat, hpipe]
  | body len count =>
    obtain ⟨hle, msg, rest, hmsgs, hcount, hpipe⟩ := h
    refine ⟨hle, msg, rest ++ [cut buff], ?_, hcount, ?_⟩
    · rw [hmsgs, List.cons_append]
    · rw [hpipe, stream_concat, List.append_assoc]
  | undefined => exact h

section Steps

variable {trace : List Event} {s : State}

/-- A step that touches neither the pipe nor the reader. -/
theorem Inv.move (h : Inv trace s) {es : List Event} (hwrites : writes (trace ++ es) = writes trace)
    (hreads : reads (trace ++ es) = reads trace) (mutexes : List (Option ℕ))
    (writers : List WriteOp) :
    Inv (trace ++ es) { s with mutexes := mutexes, writers := writers } where
  positioned := by
    unfold unread
    rw [hwrites, hreads]
    exact h.positioned
  reads_le := by
    rw [hwrites, hreads]
    exact h.reads_le
  gets := by
    rw [hwrites, hreads]
    exact h.gets

theorem Inv.write (h : Inv trace s) (buff : List UInt8) (writers : List WriteOp) :
    Inv (trace ++ [.wrote buff])
      { s with pipe := s.pipe ++ packet buff, writers := writers } := by
  have hwrites : writes (trace ++ [.wrote buff]) = writes trace ++ [buff] := by simp [writes]
  have hreads : reads (trace ++ [.wrote buff]) = reads trace := by simp [reads]
  have hunread : unread (trace ++ [.wrote buff]) = unread trace ++ [cut buff] := by
    unfold unread
    rw [hwrites, hreads, List.drop_append_of_le_length h.reads_le, List.map_append,
      List.map_singleton]
  refine ⟨?_, ?_, fun k len res data hk => ?_⟩
  · rw [hunread]
    exact h.positioned.write buff
  · rw [hwrites, hreads, List.length_append]
    exact h.reads_le.trans (Nat.le_add_right _ _)
  · rw [hreads] at hk
    obtain ⟨old, hold, hgets⟩ := h.gets k len res data hk
    refine ⟨old, ?_, hgets⟩
    rw [hwrites, List.getElem?_append_left (List.getElem?_eq_some_iff.mp hold).1]
    exact hold

/-- The header announces the first message. -/
theorem Inv.readHeader (h : Inv trace s) (hidle : s.reader = .idle) {len : ℕ}
    (hlen : len ≤ IPC_MAX_PACKET_LEN) {header pipe : List UInt8}
    (hread : pipeRead s.pipe SIZE_T_LEN = some (header, pipe)) :
    Inv trace { s with
      pipe := pipe
      reader := if header.length = SIZE_T_LEN ∧ ofBytes header ≤ IPC_MAX_PACKET_LEN then
        .body len (ofBytes header) else .undefined } := by
  have hpos := h.positioned
  rw [hidle] at hpos
  have hpipe : s.pipe = stream SIZE_T_LEN (unread trace) := hpos
  refine ⟨?_, h.reads_le, h.gets⟩
  obtain ⟨msg, rest, hunread⟩ : ∃ msg rest, unread trace = msg :: rest := by
    refine List.exists_cons_of_ne_nil fun hnil => ?_
    rw [hpipe, hnil] at hread
    cases hread
  have hshort : msg.length ≤ IPC_MAX_PACKET_LEN := by
    have hmem : msg ∈ unread trace := by rw [hunread]; exact List.mem_cons_self ..
    obtain ⟨buff, -, rfl⟩ := List.mem_map.mp hmem
    rw [length_cut]
    exact min_le_right _ _
  have hheader : header = bytesOf SIZE_T_LEN msg.length ∧
      pipe = msg ++ stream SIZE_T_LEN rest := by
    rw [hpipe, hunread, pipeRead, if_neg (by decide), take_stream_cons, drop_stream_cons] at hread
    split at hread
    · cases hread
    · cases hread
      exact ⟨rfl, rfl⟩
  obtain ⟨rfl, rfl⟩ := hheader
  have hcount : ofBytes (bytesOf SIZE_T_LEN msg.length) = msg.length :=
    ofBytes_bytesOf (hshort.trans_lt (by decide))
  rw [hcount, if_pos ⟨length_bytesOf _ _, hshort⟩]
  exact ⟨hlen, msg, rest, hunread, rfl, rfl⟩

/-- The body is the first message, and the next header comes after it. -/
theorem Inv.readBody (h : Inv trace s) {len count : ℕ} (hbody : s.reader = .body len count)
    {tempbuf pipe : List UInt8} (hread : pipeRead s.pipe count = some (tempbuf, pipe)) :
    let res := if len < tempbuf.length then len else tempbuf.length
    Inv (trace ++ [.read len res (tempbuf.take res)]) { s with pipe := pipe, reader := .idle } := by
  intro res
  have hpos := h.positioned
  rw [hbody] at hpos
  obtain ⟨-, msg, rest, hunread, rfl, hpipe⟩ := hpos
  have hall : tempbuf = msg ∧ pipe = stream SIZE_T_LEN rest := by
    rw [hpipe, pipeRead, List.take_left, List.drop_left] at hread
    split at hread
    · rename_i hzero
      cases hread
      rw [List.length_eq_zero_iff.mp hzero]
      exact ⟨rfl, rfl⟩
    · split at hread
      · cases hread
      · cases hread
        exact ⟨rfl, rfl⟩
  obtain ⟨rfl, rfl⟩ := hall
  set event : Event := .read len res (tempbuf.take res) with hevent
  have hwrites : writes (trace ++ [event]) = writes trace := by simp [writes, hevent]
  have hreads : reads (trace ++ [event]) = reads trace ++ [(len, res, tempbuf.take res)] := by
    simp [reads, hevent]
  have hdrop := List.map_eq_cons_iff.mp hunread
  obtain ⟨buff, later, hnext, hcut, hrest⟩ := hdrop
  have hat : (writes trace)[(reads trace).length]? = some buff := by
    have hhead := congrArg (·[0]?) hnext
    simpa using hhead
  have hlt := (List.getElem?_eq_some_iff.mp hat).1
  refine ⟨?_, ?_, fun k len' res' data hk => ?_⟩
  · show _ = _
    have htail : (writes trace).drop ((reads trace).length + 1) = later := by
      rw [← List.tail_drop, hnext, List.tail_cons]
    unfold unread
    rw [hwrites, hreads, List.length_append, List.length_singleton, htail, hrest]
  · rw [hwrites, hreads, List.length_append, List.length_singleton]
    exact hlt
  · rw [hreads] at hk
    rw [hwrites]
    rcases Nat.lt_or_ge k (reads trace).length with hlt' | hge
    · rw [List.getElem?_append_left hlt'] at hk
      exact h.gets k len' res' data hk
    · have hlast := (List.getElem?_eq_some_iff.mp hk).1
      rw [List.length_append, List.length_singleton] at hlast
      obtain rfl : k = (reads trace).length := by omega
      rw [List.getElem?_concat_length] at hk
      cases hk
      have hlen : tempbuf.length = min buff.length IPC_MAX_PACKET_LEN := by
        rw [← hcut, length_cut]
      have hres : res = min len (min buff.length IPC_MAX_PACKET_LEN) := by
        show (if len < tempbuf.length then len else tempbuf.length) = _
        rw [hlen]
        split <;> omega
      refine ⟨buff, hat, hres, ?_⟩
      rw [← hcut, cut, List.take_take, hres]
      congr 1
      omega

end Steps

theorem inv_step {capacity : ℕ} {trace : List Event} {s s' : State} {a : Action}
    {es : List Event} (h : Inv trace s) (hstep : step capacity s a = some (es, s')) :
    Inv (trace ++ es) s' := by
  cases a with
  | lock t conn buff =>
    simp only [step] at hstep
    split at hstep
    · cases hstep
      exact h.move (by simp) (by simp) _ _
    · cases hstep
  | write t =>
    simp only [step] at hstep
    split at hstep
    · split at hstep
      · cases hstep
        exact h.write _ _
      · cases hstep
    · cases hstep
  | unlock t =>
    simp only [step] at hstep
    split at hstep
    · cases hstep
      exact h.move (by simp [writes]) (by simp [reads]) _ _
    · cases hstep
  | readHeader len =>
    simp only [step] at hstep
    split at hstep
    · rename_i hcond
      obtain ⟨⟨header, pipe⟩, hread, heq⟩ := Option.map_eq_some_iff.mp hstep
      cases heq
      rw [List.append_nil]
      exact h.readHeader hcond.1 hcond.2 hread
    · cases hstep
  | readBody =>
    simp only [step] at hstep
    split at hstep
    · rename_i hbody
      obtain ⟨⟨tempbuf, pipe⟩, hread, heq⟩ := Option.map_eq_some_iff.mp hstep
      cases heq
      exact h.readBody hbody hread
    · cases hstep

/-! ## Message boundaries -/

/-- A call of `ipc_read` goes on as soon as there is a message. -/
theorem Inv.enabled {trace : List Event} {s : State} (h : Inv trace s) (capacity : ℕ) :
    (s.reader = .idle → unread trace ≠ [] → ∀ len ≤ IPC_MAX_PACKET_LEN,
      (step capacity s (.readHeader len)).isSome) ∧
    (s.reader ≠ .idle → (step capacity s .readBody).isSome) := by
  have hpos := h.positioned
  constructor
  · intro hidle hne len hlen
    rw [hidle] at hpos
    have hpipe : s.pipe = stream SIZE_T_LEN (unread trace) := hpos
    obtain ⟨msg, rest, hunread⟩ := List.exists_cons_of_ne_nil hne
    have hsome : s.pipe ≠ [] := by
      intro hnil
      have hlength := congrArg List.length hnil
      rw [hpipe, hunread, stream_cons, List.length_append, length_bytesOf] at hlength
      simp [SIZE_T_LEN] at hlength
    simp [step, hidle, hlen, pipeRead, hsome, SIZE_T_LEN]
  · intro hbusy
    cases hreader : s.reader with
    | idle => exact absurd hreader hbusy
    | undefined =>
      rw [hreader] at hpos
      exact hpos.elim
    | body len count =>
      rw [hreader] at hpos
      obtain ⟨-, msg, rest, -, rfl, hpipe⟩ := hpos
      unfold step pipeRead
      simp only [hreader]
      by_cases hzero : msg.length = 0
      · rw [if_pos hzero]
        rfl
      · have hsome : s.pipe ≠ [] := by
          rw [hpipe]
          intro hnil
          rw [(List.append_eq_nil_iff.mp hnil).1] at hzero
          exact hzero rfl
        rw [if_neg hzero, if_neg hsome]
        rfl

/-- **The pipe keeps message boundaries.** -/
theorem pipe_boundaries {capacity connections threads : ℕ} {trace : List Event} {s : State}
    (h : Run (step capacity) (init connections threads) trace s) :
    (∀ (k : ℕ) len res data, (reads trace)[k]? = some (len, res, data) →
      ∃ buff, (writes trace)[k]? = some buff ∧
        res = min len (min buff.length IPC_MAX_PACKET_LEN) ∧ data = buff.take res) ∧
    (s.reader = .idle → s.pipe = stream SIZE_T_LEN
      (((writes trace).drop (reads trace).length).map fun buff => buff.take IPC_MAX_PACKET_LEN)) ∧
    s.reader ≠ .undefined ∧
    (s.reader = .idle → (reads trace).length < (writes trace).length →
      ∀ len ≤ IPC_MAX_PACKET_LEN, (step capacity s (.readHeader len)).isSome) ∧
    (s.reader ≠ .idle → (step capacity s .readBody).isSome) := by
  have hinv : Inv trace s :=
    h.history (inv_init connections threads) fun _ _ _ _ _ hi hs => inv_step hi hs
  have hpos := hinv.positioned
  refine ⟨hinv.gets, fun hidle => ?_, fun hundefined => ?_, fun hidle hlt => ?_,
    (hinv.enabled capacity).2⟩
  · rw [hidle] at hpos
    exact hpos
  · rw [hundefined] at hpos
    exact hpos
  · refine (hinv.enabled capacity).1 hidle fun hnil => ?_
    have hlength := congrArg List.length hnil
    rw [unread, List.length_map, List.length_drop, List.length_nil] at hlength
    omega

/-- Two threads with a connection each; the second writes an empty message between the header and
the body of the first, which the reader takes only two bytes of. -/
theorem pipe_boundaries_short_read :
    ∃ s, Run (step 4096) (init 2 2)
        [.wrote [1, 2, 3], .wrote [], .read 2 2 [1, 2], .returned 1 0, .read 5 0 []] s ∧
      s.reader = .idle ∧ s.pipe = stream SIZE_T_LEN [] := by
  have hrun : ∃ s, exec (step 4096) (init 2 2)
      [.lock 0 0 [1, 2, 3], .lock 1 1 [], .write 0, .readHeader 2, .write 1, .readBody, .unlock 1,
        .readHeader 5, .readBody] =
      some ([.wrote [1, 2, 3], .wrote [], .read 2 2 [1, 2], .returned 1 0, .read 5 0 []], s) ∧
      s.reader = .idle := ⟨_, rfl, rfl⟩
  obtain ⟨s, hs, hidle⟩ := hrun
  exact ⟨s, run_of_exec hs, hidle, (pipe_boundaries (run_of_exec hs)).2.1 hidle⟩

end PlaneSim.Fifo
