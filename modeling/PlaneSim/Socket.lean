import PlaneSim.Lib.Lts
import PlaneSim.Lib.Lock
import PlaneSim.Wire

/-!
# The socket back end

Any number of threads, over any number of connections, call `ipc_write` of `ipc/socket.c` for one
socket, and any number of threads of the process that listens call `ipc_read`. A datagram arrives
whole; `sendto` waits for room, or fails with `ENOBUFS` and is tried again; both calls may also fail.

1. The datagrams read are those sent, in the order of `sendto` (`Inv.fifo`).
2. A call returns the length exactly when its datagram was sent, and `-1` otherwise, and no failure
   keeps a mutex (`Inv.results`, `Inv.mutexes`).
3. Messages of the simulation come out as they were sent (`run_messages`).
-/

namespace PlaneSim.Socket

open Lts Lock Memory

/-- Where a thread is in a call of `ipc_write`. -/
inductive WriteOp where
  | idle
  /-- In the loop around `sendto`. -/
  | sending (conn : ℕ) (buff : List UInt8)
  /-- Before `pthread_mutex_unlock`. -/
  | sent (conn : ℕ) (res : Int)
deriving DecidableEq, Repr

/-- Where a thread is in a call of `ipc_read`. -/
inductive ReadOp where
  | idle
  /-- In the loop around `read`. -/
  | reading (len : ℕ)
  /-- Before `pthread_mutex_unlock`. -/
  | got (res : Int)
deriving DecidableEq, Repr

inductive Event where
  | sent (thread : ℕ) (buff : List UInt8)
  | failed (thread : ℕ)
  | returned (thread : ℕ) (res : Int)
  | read (len res : ℕ) (data : List UInt8)
  | readFailed
  | readReturned (res : Int)
deriving DecidableEq, Repr

/-- `queue` is what the socket has received, `mutexes` are those of the connections to it. -/
structure State where
  queue : List (List UInt8)
  mutexes : List (Option ℕ)
  writers : List WriteOp
  readLock : Option ℕ
  readers : List ReadOp
deriving DecidableEq, Repr

/-- How `sendto` or `read` ends. -/
inductive Result where
  | done
  /-- `ENOBUFS` or `EINTR`. -/
  | again
  | failed
deriving DecidableEq, Repr

inductive Action where
  /-- `pthread_mutex_lock(&conn->mutex)` of a call of `ipc_write`. -/
  | lock (thread conn : ℕ) (buff : List UInt8)
  | sendto (thread : ℕ) (result : Result)
  | unlock (thread : ℕ)
  /-- `pthread_mutex_lock(&readLock)` of a call of `ipc_read`. -/
  | readLock (thread len : ℕ)
  | read (thread : ℕ) (result : Result)
  | readUnlock (thread : ℕ)
deriving DecidableEq, Repr

/-- `capacity` is that of the socket. -/
def step (capacity : ℕ) (s : State) : Action → Option (List Event × State)
  | .lock t conn buff =>
    if s.writers[t]? = some .idle ∧ s.mutexes[conn]? = some none then
      some ([], { s with mutexes := s.mutexes.set conn (some t)
                         writers := s.writers.set t (.sending conn buff) })
    else none
  | .sendto t result =>
    match s.writers[t]?, result with
    | some (.sending conn buff), .done =>
      if s.queue.length < capacity then
        some ([.sent t buff], { s with queue := s.queue ++ [buff]
                                       writers := s.writers.set t (.sent conn buff.length) })
      else none
    | some (.sending _ _), .again => some ([], s)
    | some (.sending conn _), .failed =>
      some ([.failed t], { s with writers := s.writers.set t (.sent conn (-1)) })
    | _, _ => none
  | .unlock t =>
    match s.writers[t]? with
    | some (.sent conn res) =>
      some ([.returned t res],
        { s with mutexes := s.mutexes.set conn none, writers := s.writers.set t .idle })
    | _ => none
  | .readLock r len =>
    if s.readers[r]? = some .idle ∧ s.readLock = none then
      some ([], { s with readLock := some r, readers := s.readers.set r (.reading len) })
    else none
  | .read r result =>
    match s.readers[r]?, result with
    | some (.reading len), .done =>
      match s.queue with
      | buff :: queue =>
        let res := min len buff.length
        some ([.read len res (buff.take res)],
          { s with queue := queue, readers := s.readers.set r (.got res) })
      | [] => none
    | some (.reading _), .again => some ([], s)
    | some (.reading _), .failed =>
      some ([.readFailed], { s with readers := s.readers.set r (.got (-1)) })
    | _, _ => none
  | .readUnlock r =>
    match s.readers[r]? with
    | some (.got res) =>
      some ([.readReturned res],
        { s with readLock := none, readers := s.readers.set r .idle })
    | _ => none

def init (connections writers readers : ℕ) : State where
  queue := []
  mutexes := List.replicate connections none
  writers := List.replicate writers .idle
  readLock := none
  readers := List.replicate readers .idle

/-- The datagrams, in the order of `sendto`. -/
def sends (trace : List Event) : List (List UInt8) :=
  trace.filterMap fun
    | .sent _ buff => some buff
    | _ => none

/-- What the calls of `ipc_read` got: the length of the buffer, the value returned, and that many
bytes of the buffer. -/
def reads (trace : List Event) : List (ℕ × ℕ × List UInt8) :=
  trace.filterMap fun
    | .read len res data => some (len, res, data)
    | _ => none

/-- How the `sendto`s of a thread ended. -/
def outcomes (t : ℕ) (trace : List Event) : List Int :=
  trace.filterMap fun
    | .sent t' buff => if t' = t then some buff.length else none
    | .failed t' => if t' = t then some (-1) else none
    | _ => none

/-- What the calls of `ipc_write` of a thread returned. -/
def returns (t : ℕ) (trace : List Event) : List Int :=
  trace.filterMap fun
    | .returned t' res => if t' = t then some res else none
    | _ => none

section Traces

variable (trace es : List Event) (t : ℕ)

@[simp] theorem sends_append : sends (trace ++ es) = sends trace ++ sends es :=
  List.filterMap_append

@[simp] theorem reads_append : reads (trace ++ es) = reads trace ++ reads es :=
  List.filterMap_append

@[simp] theorem outcomes_append :
    outcomes t (trace ++ es) = outcomes t trace ++ outcomes t es := List.filterMap_append

@[simp] theorem returns_append : returns t (trace ++ es) = returns t trace ++ returns t es :=
  List.filterMap_append

end Traces

/-! ## What a step does -/

inductive Steps (s : State) : List Event → State → Prop where
  | locked {t conn : ℕ} (buff : List UInt8) (idle : s.writers[t]? = some .idle)
      (free : s.mutexes[conn]? = some none) :
      Steps s [] { s with mutexes := s.mutexes.set conn (some t)
                          writers := s.writers.set t (.sending conn buff) }
  | sent {t conn : ℕ} {buff : List UInt8} (sending : s.writers[t]? = some (.sending conn buff)) :
      Steps s [.sent t buff] { s with queue := s.queue ++ [buff]
                                      writers := s.writers.set t (.sent conn buff.length) }
  | failed {t conn : ℕ} {buff : List UInt8} (sending : s.writers[t]? = some (.sending conn buff)) :
      Steps s [.failed t] { s with writers := s.writers.set t (.sent conn (-1)) }
  | unlocked {t conn : ℕ} {res : Int} (sent : s.writers[t]? = some (.sent conn res)) :
      Steps s [.returned t res]
        { s with mutexes := s.mutexes.set conn none, writers := s.writers.set t .idle }
  | readLocked {r : ℕ} (len : ℕ) (idle : s.readers[r]? = some .idle) (free : s.readLock = none) :
      Steps s [] { s with readLock := some r, readers := s.readers.set r (.reading len) }
  | read {r len : ℕ} {buff : List UInt8} {queue : List (List UInt8)}
      (reading : s.readers[r]? = some (.reading len)) (oldest : s.queue = buff :: queue) :
      Steps s [.read len (min len buff.length) (buff.take (min len buff.length))]
        { s with queue := queue, readers := s.readers.set r (.got (min len buff.length : ℕ)) }
  | readFailed {r len : ℕ} (reading : s.readers[r]? = some (.reading len)) :
      Steps s [.readFailed] { s with readers := s.readers.set r (.got (-1)) }
  | readUnlocked {r : ℕ} {res : Int} (got : s.readers[r]? = some (.got res)) :
      Steps s [.readReturned res]
        { s with readLock := none, readers := s.readers.set r .idle }
  | again : Steps s [] s

theorem step_cases {capacity : ℕ} {s s' : State} {a : Action} {es : List Event}
    (h : step capacity s a = some (es, s')) : Steps s es s' := by
  cases a with
  | lock t conn buff =>
    simp only [step] at h
    split at h
    · rename_i hpre
      cases h
      exact .locked buff hpre.1 hpre.2
    · cases h
  | sendto t result =>
    simp only [step] at h
    split at h
    · rename_i sending
      split at h
      · cases h
        exact .sent sending
      · cases h
    · cases h
      exact .again
    · rename_i sending
      cases h
      exact .failed sending
    · cases h
  | unlock t =>
    simp only [step] at h
    split at h
    · rename_i sent
      cases h
      exact .unlocked sent
    · cases h
  | readLock r len =>
    simp only [step] at h
    split at h
    · rename_i hpre
      cases h
      exact .readLocked len hpre.1 hpre.2
    · cases h
  | read r result =>
    simp only [step] at h
    split at h
    · rename_i reading
      split at h
      · rename_i oldest
        cases h
        exact .read reading oldest
      · cases h
    · cases h
      exact .again
    · rename_i reading
      cases h
      exact .readFailed reading
    · cases h
  | readUnlock r =>
    simp only [step] at h
    split at h
    · rename_i got
      cases h
      exact .readUnlocked got
    · cases h

/-! ## The invariant -/

/-- The connection whose mutex a thread holds. -/
def WriteOp.conn : WriteOp → Option ℕ
  | .idle => none
  | .sending conn _ => some conn
  | .sent conn _ => some conn

/-- What the call is going to return. -/
def WriteOp.owed : WriteOp → List Int
  | .sent _ res => [res]
  | _ => []

def ReadOp.inSection : ReadOp → Bool
  | .idle => false
  | _ => true

def connOf (writers : List WriteOp) (t : ℕ) : Option ℕ := writers[t]?.bind WriteOp.conn

def owedOf (writers : List WriteOp) (t : ℕ) : List Int := (writers[t]?.map WriteOp.owed).getD []

def InSection (readers : List ReadOp) (r : ℕ) : Prop :=
  ∃ op, readers[r]? = some op ∧ op.inSection = true

/-- What `ipc_read` gets of a datagram. -/
def Gets (buff : List UInt8) (got : ℕ × ℕ × List UInt8) : Prop :=
  got.2.1 = min got.1 buff.length ∧ got.2.2 = buff.take got.2.1

structure Inv (trace : List Event) (s : State) : Prop where
  fifo : ∃ taken, sends trace = taken ++ s.queue ∧ List.Forall₂ Gets taken (reads trace)
  results : ∀ t, outcomes t trace = returns t trace ++ owedOf s.writers t
  mutexes : HeldAll s.mutexes (connOf s.writers)
  readLock : Held s.readLock (InSection s.readers)

section Threads

variable {writers : List WriteOp} {readers : List ReadOp} {t u : ℕ} {old new : WriteOp}
  {oldRead newRead : ReadOp}

theorem connOf_eq (h : writers[t]? = some old) : connOf writers t = old.conn := by
  rw [connOf, h]
  rfl

theorem owedOf_eq (h : writers[t]? = some old) : owedOf writers t = old.owed := by
  rw [owedOf, h]
  rfl

theorem getElem?_set_at (h : writers[t]? = some old) (new : WriteOp) :
    (writers.set t new)[t]? = some new :=
  List.getElem?_set_self (List.getElem?_eq_some_iff.mp h).1

theorem connOf_set_ne (hne : u ≠ t) : connOf (writers.set t new) u = connOf writers u := by
  unfold connOf
  rw [List.getElem?_set_ne hne.symm]

theorem owedOf_set_ne (hne : u ≠ t) : owedOf (writers.set t new) u = owedOf writers u := by
  unfold owedOf
  rw [List.getElem?_set_ne hne.symm]

theorem inSection_of (h : readers[t]? = some oldRead) :
    InSection readers t ↔ oldRead.inSection = true := by
  unfold InSection
  simp [h]

theorem inSection_set_self (h : readers[t]? = some oldRead) :
    InSection (readers.set t newRead) t ↔ newRead.inSection = true :=
  inSection_of (List.getElem?_set_self (List.getElem?_eq_some_iff.mp h).1)

theorem inSection_set_ne (hne : u ≠ t) :
    InSection (readers.set t newRead) u ↔ InSection readers u := by
  unfold InSection
  rw [List.getElem?_set_ne hne.symm]

/-- A reader that stays in the loop, or comes out of it. -/
theorem inSection_set (h : readers[t]? = some oldRead)
    (hsame : newRead.inSection = oldRead.inSection) :
    InSection (readers.set t newRead) u ↔ InSection readers u := by
  by_cases hut : u = t
  · subst hut
    rw [inSection_set_self h, inSection_of h, hsame]
  · exact inSection_set_ne hut

end Threads

theorem connOf_idle (n t : ℕ) : connOf (List.replicate n .idle) t = none := by
  unfold connOf
  rw [List.getElem?_replicate]
  split <;> rfl

theorem owedOf_idle (n t : ℕ) : owedOf (List.replicate n .idle) t = [] := by
  unfold owedOf
  rw [List.getElem?_replicate]
  split <;> rfl

theorem inv_init (connections writers readers : ℕ) : Inv [] (init connections writers readers) where
  fifo := ⟨[], rfl, List.Forall₂.nil⟩
  results t := (owedOf_idle writers t).symm
  mutexes := heldAll_free (connOf_idle writers)
  readLock r := by
    refine ⟨nofun, ?_⟩
    rintro ⟨op, hop, hin⟩
    obtain rfl := List.eq_of_mem_replicate (List.mem_of_getElem? hop)
    cases hin

section Invariant

variable {trace es : List Event} {s : State}

/-- A step of a writer that keeps its mutex. -/
theorem Inv.sendto (h : Inv trace s) {t conn : ℕ} {buff : List UInt8}
    (ht : s.writers[t]? = some (.sending conn buff)) {res : Int} (queue : List (List UInt8))
    (hsends : sends trace ++ sends es = sends trace ++ queue) (hreads : reads es = [])
    (hself : outcomes t es = [res]) (hother : ∀ u, u ≠ t → outcomes u es = [])
    (hreturns : ∀ u, returns u es = []) :
    Inv (trace ++ es) { s with queue := s.queue ++ queue
                               writers := s.writers.set t (.sent conn res) } where
  fifo := by
    obtain ⟨taken, hsplit, hgets⟩ := h.fifo
    refine ⟨taken, ?_, ?_⟩
    · rw [sends_append, hsends, hsplit, List.append_assoc]
    · rwa [reads_append, hreads, List.append_nil]
  results u := by
    rw [outcomes_append, returns_append, hreturns, List.append_nil, h.results u]
    by_cases hut : u = t
    · subst hut
      rw [hself, owedOf_eq ht, owedOf_eq (getElem?_set_at ht _)]
      simp [WriteOp.owed]
    · rw [hother u hut, owedOf_set_ne hut, List.append_nil]
  mutexes := h.mutexes.congr fun u => by
    by_cases hut : u = t
    · subst hut
      rw [connOf_eq ht, connOf_eq (getElem?_set_at ht _)]
      rfl
    · exact connOf_set_ne hut
  readLock := h.readLock

/-- A step of a reader. -/
theorem Inv.reader (h : Inv trace s) (hsends : sends es = []) (houtcomes : ∀ t, outcomes t es = [])
    (hreturns : ∀ t, returns t es = []) {queue : List (List UInt8)} {lock : Option ℕ}
    {readers : List ReadOp}
    (hfifo : ∃ taken, sends trace = taken ++ queue ∧
      List.Forall₂ Gets taken (reads trace ++ reads es))
    (hlock : Held lock (InSection readers)) :
    Inv (trace ++ es) { s with queue := queue, readLock := lock, readers := readers } where
  fifo := by
    rw [sends_append, reads_append, hsends, List.append_nil]
    exact hfifo
  results t := by
    rw [outcomes_append, returns_append, houtcomes, hreturns, List.append_nil, List.append_nil]
    exact h.results t
  mutexes := h.mutexes
  readLock := hlock

end Invariant

theorem inv_steps {trace es : List Event} {s s' : State} (h : Inv trace s)
    (hstep : Steps s es s') : Inv (trace ++ es) s' := by
  cases hstep with
  | again => rwa [List.append_nil]
  | @locked t conn buff idle free =>
    rw [List.append_nil]
    refine ⟨h.fifo, fun u => ?_, h.mutexes.acquire free (connOf_eq idle)
      (connOf_eq (getElem?_set_at idle _)) fun u hu => connOf_set_ne hu, h.readLock⟩
    rw [h.results u]
    by_cases hut : u = t
    · subst hut
      rw [owedOf_eq idle, owedOf_eq (getElem?_set_at idle _)]
      rfl
    · rw [owedOf_set_ne hut]
  | @sent t conn buff sending =>
    exact h.sendto sending [buff] rfl rfl (by simp [outcomes])
      (fun u hu => by simp [outcomes, hu.symm]) fun u => rfl
  | @failed t conn buff sending =>
    have hnew : Inv (trace ++ [.failed t]) { s with
        queue := s.queue ++ [], writers := s.writers.set t (.sent conn (-1)) } :=
      h.sendto sending [] rfl rfl (by simp [outcomes])
        (fun u hu => by simp [outcomes, hu.symm]) fun u => rfl
    rwa [List.append_nil] at hnew
  | @unlocked t conn res sent =>
    have hfifo := h.fifo
    refine ⟨by simpa [sends, reads] using hfifo, fun u => ?_, h.mutexes.release (connOf_eq sent)
      (connOf_eq (getElem?_set_at sent _)) fun u hu => connOf_set_ne hu, h.readLock⟩
    rw [outcomes_append, returns_append, h.results u]
    by_cases hut : u = t
    · subst hut
      rw [owedOf_eq sent, owedOf_eq (getElem?_set_at sent _)]
      simp [outcomes, returns, WriteOp.owed]
    · rw [owedOf_set_ne hut]
      simp [outcomes, returns, Ne.symm hut]
  | @readLocked r len idle free =>
    have hlock := h.readLock
    rw [free] at hlock
    refine h.reader rfl (fun _ => rfl) (fun _ => rfl) (by simpa [reads] using h.fifo) ?_
    exact hlock.acquire ((inSection_set_self idle).mpr rfl) fun u hu => inSection_set_ne hu
  | @read r len buff queue reading oldest =>
    obtain ⟨taken, hsplit, hgets⟩ := h.fifo
    refine h.reader rfl (fun _ => rfl) (fun _ => rfl) ⟨taken ++ [buff], ?_, ?_⟩ ?_
    · rw [hsplit, oldest, List.append_assoc]
      rfl
    · exact List.rel_append hgets (.cons ⟨rfl, rfl⟩ .nil)
    · exact h.readLock.congr fun u => inSection_set reading rfl
  | @readFailed r len reading =>
    refine h.reader rfl (fun _ => rfl) (fun _ => rfl) (by simpa [reads] using h.fifo) ?_
    exact h.readLock.congr fun u => inSection_set reading rfl
  | @readUnlocked r res got =>
    refine h.reader rfl (fun _ => rfl) (fun _ => rfl) (by simpa [reads] using h.fifo) ?_
    exact h.readLock.release ((inSection_of got).mpr rfl)
      (fun hin => by rw [inSection_set_self got] at hin; cases hin) fun u hu => inSection_set_ne hu

theorem run_inv {capacity connections writers readers : ℕ} {trace : List Event} {s : State}
    (h : Run (step capacity) (init connections writers readers) trace s) : Inv trace s :=
  h.history (inv_init connections writers readers) fun _ _ _ _ _ hi hs =>
    inv_steps hi (step_cases hs)

/-! ## Messages -/

/-- A call of `ipc_read` for the union gets the message, over whatever the union held. -/
def Decodes {μ : Type*} (c : Codec μ) (msg : μ) (got : ℕ × ℕ × List UInt8) : Prop :=
  c.unionSize ≤ got.1 → got.2.1 = (c.layout msg).size ∧
    ∀ union, ∃ msg', c.read (got.2.2 ++ union) = some msg' ∧ c.seen msg' = msg

theorem Gets.decodes {μ : Type*} {c : Codec μ} {buff : List UInt8} {msg : μ}
    {got : ℕ × ℕ × List UInt8} (h : Gets buff got) (hpacket : c.Packet buff msg) :
    Decodes c msg got := by
  intro hlen
  obtain ⟨hres, hdata⟩ := h
  have hlength := hpacket.length_eq
  have hsize := c.size_le msg
  have hres : got.2.1 = buff.length := by omega
  obtain ⟨mem, hsend, hmem, rfl⟩ := hpacket
  refine ⟨hres.trans hlength, fun union => ?_⟩
  rw [hdata, hres, List.take_length]
  exact c.read_write msg mem union hsend hmem

theorem decodes_of_gets {μ : Type*} {c : Codec μ} {datagrams : List (List UInt8)}
    {got : List (ℕ × ℕ × List UInt8)} (hgets : List.Forall₂ Gets datagrams got) {msgs : List μ}
    (hpackets : List.Forall₂ c.Packet datagrams msgs) : List.Forall₂ (Decodes c) msgs got := by
  induction hgets generalizing msgs with
  | nil =>
    cases hpackets
    exact .nil
  | cons hhead _ ih =>
    obtain ⟨msg, msgs, hpacket, hrest, rfl⟩ := List.forall₂_cons_left_iff.mp hpackets
    exact .cons (hhead.decodes hpacket) (ih hrest)

/-- **Delivery.** Whatever the threads do and whatever calls fail: if all that is sent are messages,
the `k`-th one read is the `k`-th one sent, and the others are still in the socket. A call of
`ipc_write` returns `sizeof(msg)` exactly when its message was sent, and `-1` otherwise; and a mutex
is free when no call is between its lock and its unlock, so that no failure keeps one. -/
theorem run_messages {μ : Type*} (c : Codec μ) {capacity connections writers readers : ℕ}
    {trace : List Event} {s : State}
    (h : Run (step capacity) (init connections writers readers) trace s)
    (hsends : ∀ buff ∈ sends trace, ∃ msg, c.Packet buff msg) :
    (∃ taken waiting, List.Forall₂ c.Packet (sends trace) (taken ++ waiting) ∧
      List.Forall₂ (Decodes c) taken (reads trace) ∧ List.Forall₂ c.Packet s.queue waiting) ∧
    (∀ t, outcomes t trace = returns t trace ++ owedOf s.writers t) ∧
    (∀ (conn : ℕ) mutex, s.mutexes[conn]? = some mutex → mutex ≠ none →
      ∃ t, connOf s.writers t = some conn) ∧
    (s.readLock ≠ none → ∃ r, InSection s.readers r) := by
  have hinv := run_inv h
  refine ⟨?_, hinv.results, fun conn mutex hmutex => (hinv.mutexes conn mutex hmutex).exists_holder,
    hinv.readLock.exists_holder⟩
  obtain ⟨datagrams, hsplit, hgets⟩ := hinv.fifo
  rw [hsplit] at hsends ⊢
  obtain ⟨taken, htaken⟩ := c.exists_packets fun buff hbuff =>
    hsends buff (List.mem_append_left _ hbuff)
  obtain ⟨waiting, hwaiting⟩ := c.exists_packets fun buff hbuff =>
    hsends buff (List.mem_append_right _ hbuff)
  exact ⟨taken, waiting, List.rel_append htaken hwaiting, decodes_of_gets hgets htaken, hwaiting⟩

/-- The bytes of a message that an airline is done. -/
theorem packet_airlineDone : planeCodec.Packet [5, 0, 0, 0] .airlineDone :=
  ⟨[0, 0, 0, 0], .airlineDone, rfl, by decide +kernel⟩

/-- The bytes of the message that ends an airline. -/
theorem packet_finish : mapCodec.Packet [8, 0, 0, 0] .finish :=
  ⟨[0, 0, 0, 0], .finish, rfl, by decide +kernel⟩

/-- A thread sends a message of four bytes twice; it is short of buffers once, and the second call
fails. -/
theorem exec_two (type : UInt8) :
    exec (step 1) (init 1 1 1) [.lock 0 0 [type, 0, 0, 0], .sendto 0 .again, .sendto 0 .done,
      .unlock 0, .readLock 0 512, .read 0 .again, .read 0 .done, .readUnlock 0,
      .lock 0 0 [type, 0, 0, 0], .sendto 0 .failed, .unlock 0] =
        some ([.sent 0 [type, 0, 0, 0], .returned 0 4, .read 512 4 [type, 0, 0, 0],
          .readReturned 4, .failed 0, .returned 0 (-1)], ⟨[], [none], [.idle], none, [.idle]⟩) :=
  rfl

/-- In both directions. -/
theorem run_messages_two :
    (∃ trace s msg got, Run (step 1) (init 1 1 1) trace s ∧ reads trace = [got] ∧
      planeCodec.Packet [5, 0, 0, 0] msg ∧ Decodes planeCodec msg got ∧
      returns 0 trace = [4, -1] ∧ s.mutexes = [none]) ∧
    ∃ trace s msg got, Run (step 1) (init 1 1 1) trace s ∧ reads trace = [got] ∧
      mapCodec.Packet [8, 0, 0, 0] msg ∧ Decodes mapCodec msg got ∧ s.queue = [] := by
  constructor
  · have hrun := run_of_exec (exec_two 5)
    obtain ⟨⟨taken, waiting, hpackets, hdecodes, hwaiting⟩, -, -, -⟩ :=
      run_messages planeCodec hrun (by
        intro buff hbuff
        obtain rfl := List.mem_singleton.mp hbuff
        exact ⟨_, packet_airlineDone⟩)
    obtain ⟨msg, rest, hmsg, hnil, rfl⟩ := List.forall₂_cons_right_iff.mp hdecodes
    obtain rfl : rest = [] := List.forall₂_nil_right_iff.mp hnil
    exact ⟨_, _, msg, _, hrun, rfl, (List.forall₂_cons.mp hpackets).1, hmsg, by decide, rfl⟩
  · have hrun := run_of_exec (exec_two 8)
    obtain ⟨⟨taken, waiting, hpackets, hdecodes, hwaiting⟩, -, -, -⟩ :=
      run_messages mapCodec hrun (by
        intro buff hbuff
        obtain rfl := List.mem_singleton.mp hbuff
        exact ⟨_, packet_finish⟩)
    obtain ⟨msg, rest, hmsg, hnil, rfl⟩ := List.forall₂_cons_right_iff.mp hdecodes
    obtain rfl : rest = [] := List.forall₂_nil_right_iff.mp hnil
    exact ⟨_, _, msg, _, hrun, rfl, (List.forall₂_cons.mp hpackets).1, hmsg, rfl⟩

end PlaneSim.Socket
