import PlaneSim.Lib.CInt

/-!
# Vectors in memory

`utils/vector.c`, with the array as it is allocated and with the lock. The capacity is stored
nowhere: the array grows by five entries whenever the size is a multiple of five.

1. The calls, on the memory they work on (`addToVector`, `getFromVector`).
2. While every index asked for is below the size, a vector is a list and its lock is free between
   the calls. An index that is not below the size leaves the lock taken. The old size is returned
   in an `int`. `behavesAsList_iff`: these are the only two ways to go wrong.
-/

namespace PlaneSim.Heap

open CInt

variable {α : Type*}

/-- `struct Vector`. An entry of the array that nobody wrote is `none`; an item is a `void*`, which
is `none` for `NULL`. -/
structure Vector (α : Type*) where
  pointer : List (Option (Option α))
  size : ℕ
  lock : Bool
deriving DecidableEq, Repr

/-- A call that does not return: it waits for a lock that its own thread holds, or it reads or
writes what it must not. -/
inductive Fault where
  | blocked
  | undefined
deriving DecidableEq, Repr

def createVector : Vector α where
  pointer := []
  size := 0
  lock := false

def pthreadMutexLock (vector : Vector α) : Except Fault (Vector α) :=
  if vector.lock then .error .blocked else .ok { vector with lock := true }

def pthreadMutexUnlock (vector : Vector α) : Vector α := { vector with lock := false }

/-- `realloc` to `n` entries. -/
def realloc (pointer : List (Option (Option α))) (n : ℕ) : List (Option (Option α)) :=
  pointer.take n ++ List.replicate (n - pointer.length) none

/-- `pointer[i] = item`. -/
def store (pointer : List (Option (Option α))) (i : ℕ) (item : Option α) :
    Except Fault (List (Option (Option α))) :=
  if i < pointer.length then .ok (pointer.set i (some item)) else .error .undefined

/-- `pointer[i]`. -/
def load (pointer : List (Option (Option α))) (i : ℕ) : Except Fault (Option α) :=
  match pointer[i]?.join with
  | some item => .ok item
  | none => .error .undefined

/-- The array `addToVector` writes to. -/
def reserve (vector : Vector α) : List (Option (Option α)) :=
  if vector.size % 5 = 0 then realloc vector.pointer (vector.size + 5) else vector.pointer

/-- `addToVector`; `granted` says whether `realloc` finds the memory. -/
def addToVector (granted : Bool) (vector : Vector α) (item : Option α) :
    Except Fault (Int × Vector α) := do
  let vector ← pthreadMutexLock vector
  if vector.size % 5 = 0 ∧ !granted then
    pure (-1, { vector with pointer := [] })
  else
    let pointer ← store (reserve vector) vector.size item
    let vector := { vector with pointer := pointer, size := vector.size + 1 }
    let ans := toInt (vector.size - 1)
    pure (ans, pthreadMutexUnlock vector)

def getFromVector (vector : Vector α) (index : UInt32) : Except Fault (Option α × Vector α) := do
  let vector ← pthreadMutexLock vector
  if index.toNat ≥ vector.size then
    pure (none, vector)
  else
    let ans ← load vector.pointer index.toNat
    pure (ans, pthreadMutexUnlock vector)

/-! ## The list in a vector -/

/-- The vector holds `items`. -/
structure Holds (vector : Vector α) (items : List (Option α)) : Prop where
  size_eq : vector.size = items.length
  capacity : vector.pointer.length = (items.length + 4) / 5 * 5
  stored : ∀ (i : ℕ) (item : Option α), items[i]? = some item →
    vector.pointer[i]? = some (some item)

theorem holds_createVector : Holds (createVector : Vector α) [] where
  size_eq := rfl
  capacity := by simp [createVector]
  stored := by simp

theorem length_realloc (pointer : List (Option (Option α))) {n : ℕ} (h : pointer.length ≤ n) :
    (realloc pointer n).length = n := by
  unfold realloc
  rw [List.length_append, List.length_take, List.length_replicate]
  omega

theorem getElem?_realloc {pointer : List (Option (Option α))} {n i : ℕ} (h : pointer.length ≤ n)
    (hi : i < pointer.length) : (realloc pointer n)[i]? = pointer[i]? := by
  unfold realloc
  rw [List.take_of_length_le h, List.getElem?_append_left hi]

/-- There is room for one more item. -/
theorem Holds.reserve {vector : Vector α} {items : List (Option α)} (h : Holds vector items) :
    (reserve vector).length = (items.length + 1 + 4) / 5 * 5 ∧
      ∀ (i : ℕ) (item : Option α), items[i]? = some item →
        (Heap.reserve vector)[i]? = some (some item) := by
  have hcap := h.capacity
  have hsize := h.size_eq
  unfold Heap.reserve
  split
  · have hle : vector.pointer.length ≤ vector.size + 5 := by omega
    rw [length_realloc _ hle]
    refine ⟨by omega, fun i item hi => ?_⟩
    have hlt := (List.getElem?_eq_some_iff.mp (h.stored i item hi)).1
    rw [getElem?_realloc hle hlt]
    exact h.stored i item hi
  · exact ⟨by omega, h.stored⟩

theorem pthreadMutexLock_free {vector : Vector α} (hfree : vector.lock = false) :
    pthreadMutexLock vector = .ok { vector with lock := true } := by
  rw [pthreadMutexLock, hfree]
  rfl

/-- Adding appends, and returns the old length in an `int`. -/
theorem addToVector_spec {vector : Vector α} {items : List (Option α)} (h : Holds vector items)
    (hfree : vector.lock = false) (item : Option α) :
    ∃ vector', addToVector true vector item = .ok (toInt items.length, vector') ∧
      Holds vector' (items ++ [item]) ∧ vector'.lock = false := by
  obtain ⟨hlen, hstored⟩ := h.reserve
  have hsize : vector.size = items.length := h.size_eq
  have hroom : vector.size < (reserve vector).length := by omega
  have hstore : store (reserve { vector with lock := true }) vector.size item =
      .ok ((reserve vector).set vector.size (some item)) := if_pos hroom
  refine ⟨{ pointer := (reserve vector).set vector.size (some item), size := vector.size + 1,
            lock := false }, ?_, ⟨?_, ?_, fun i x hi => ?_⟩, rfl⟩
  · unfold addToVector
    rw [pthreadMutexLock_free hfree]
    simp only [bind, Except.bind, hstore, pure, Except.pure]
    simp [hsize, pthreadMutexUnlock]
  · rw [List.length_append, List.length_singleton, ← hsize]
  · rw [List.length_set, List.length_append, List.length_singleton]
    exact hlen
  · dsimp only
    rw [hsize]
    rcases Nat.lt_or_ge i items.length with hlt | hge
    · rw [List.getElem?_append_left hlt] at hi
      rw [List.getElem?_set_ne (by omega)]
      exact hstored i x hi
    · have hlast := (List.getElem?_eq_some_iff.mp hi).1
      rw [List.length_append, List.length_singleton] at hlast
      obtain rfl : i = items.length := by omega
      rw [List.getElem?_concat_length] at hi
      rw [List.getElem?_set_self (by omega), Option.some.inj hi]

/-- Below the size the item is returned, and nothing changes. -/
theorem getFromVector_spec {vector : Vector α} {items : List (Option α)} (h : Holds vector items)
    (hfree : vector.lock = false) {index : UInt32} {item : Option α}
    (hat : items[index.toNat]? = some item) :
    getFromVector vector index = .ok (item, vector) := by
  have hlt := (List.getElem?_eq_some_iff.mp hat).1
  have hsize := h.size_eq
  unfold getFromVector
  rw [pthreadMutexLock_free hfree]
  simp only [bind, Except.bind, pure, Except.pure, load, h.stored _ _ hat, Option.join_some]
  rw [if_neg (by omega)]
  cases vector
  simp_all [pthreadMutexUnlock]

/-- **The slip.** From the size on the answer is `NULL`, and the lock stays taken. -/
theorem getFromVector_of_le {vector : Vector α} (hfree : vector.lock = false) {index : UInt32}
    (hge : vector.size ≤ index.toNat) :
    getFromVector vector index = .ok (none, { vector with lock := true }) := by
  unfold getFromVector
  rw [pthreadMutexLock_free hfree]
  exact if_pos hge

/-! ## Sequences of calls -/

inductive Call (α : Type*) where
  | addToVector (item : Option α)
  | getFromVector (index : UInt32)
deriving DecidableEq, Repr

/-- What a call returns. -/
inductive Answer (α : Type*) where
  | position (ans : Int)
  | item (ans : Option α)
deriving DecidableEq, Repr

/-- The call on a vector; memory is always found. -/
def Call.run (vector : Vector α) : Call α → Except Fault (Answer α × Vector α)
  | .addToVector item => (Heap.addToVector true vector item).map fun r => (.position r.1, r.2)
  | .getFromVector index => (Heap.getFromVector vector index).map fun r => (.item r.1, r.2)

/-- The call on a list: what it should return, and the list after it. -/
def Call.onList (items : List (Option α)) : Call α → Answer α × List (Option α)
  | .addToVector item => (.position items.length, items ++ [item])
  | .getFromVector index => (.item items[index.toNat]?.join, items)

/-- From a vector that holds `items`, every call returns what it returns on the list, and leaves a
vector that holds the list and whose lock is free. -/
def BehavesAsList (vector : Vector α) (items : List (Option α)) : List (Call α) → Prop
  | [] => True
  | call :: rest => ∃ vector', call.run vector = .ok ((call.onList items).1, vector') ∧
      Holds vector' (call.onList items).2 ∧ vector'.lock = false ∧
      BehavesAsList vector' (call.onList items).2 rest

/-- With `size` items at first, every index asked for is below the size, and what is returned for
an item fits in an `int`. -/
def InRange : ℕ → List (Call α) → Prop
  | _, [] => True
  | size, .addToVector _ :: rest => (size : Int) ≤ INT_MAX ∧ InRange (size + 1) rest
  | size, .getFromVector index :: rest => index.toNat < size ∧ InRange size rest

/-- A call that returns is judged by what it returns and leaves. -/
theorem behavesAsList_cons {vector vector' : Vector α} {items : List (Option α)} {call : Call α}
    {answer : Answer α} (hrun : call.run vector = .ok (answer, vector')) (rest : List (Call α)) :
    BehavesAsList vector items (call :: rest) ↔ answer = (call.onList items).1 ∧
      Holds vector' (call.onList items).2 ∧ vector'.lock = false ∧
      BehavesAsList vector' (call.onList items).2 rest := by
  constructor
  · rintro ⟨v, hv, hrest⟩
    rw [hrun] at hv
    obtain ⟨hanswer, rfl⟩ := Prod.mk.inj (Except.ok.inj hv)
    exact ⟨hanswer, hrest⟩
  · rintro ⟨rfl, hrest⟩
    exact ⟨vector', hrun, hrest⟩

theorem position_eq_iff (size : ℕ) :
    (Answer.position (toInt size) : Answer α) = .position size ↔ (size : Int) ≤ INT_MAX := by
  have hfits := (fits_toInt size).2
  constructor
  · intro h
    have hint := Answer.position.inj h
    omega
  · intro h
    rw [toInt_of_fits ⟨by omega, h⟩]

theorem behavesAsList_iff_inRange {calls : List (Call α)} :
    ∀ {vector : Vector α} {items : List (Option α)}, Holds vector items → vector.lock = false →
      (BehavesAsList vector items calls ↔ InRange items.length calls) := by
  induction calls with
  | nil => exact fun _ _ => Iff.rfl
  | cons call rest ih =>
    intro vector items h hfree
    cases call with
    | addToVector item =>
      obtain ⟨vector', hadd, hholds, hfree'⟩ := addToVector_spec h hfree item
      have hrun : (Call.addToVector item).run vector =
          .ok (.position (toInt items.length), vector') := by
        rw [Call.run, hadd, Except.map]
      have hrest := ih hholds hfree'
      rw [List.length_append, List.length_singleton] at hrest
      rw [behavesAsList_cons hrun, InRange, ← hrest, ← position_eq_iff]
      constructor
      · exact fun ⟨hans, _, _, hbehaves⟩ => ⟨hans, hbehaves⟩
      · exact fun ⟨hans, hbehaves⟩ => ⟨hans, hholds, hfree', hbehaves⟩
    | getFromVector index =>
      by_cases hlt : index.toNat < items.length
      · have hat := List.getElem?_eq_getElem hlt
        have hrun : (Call.getFromVector index).run vector =
            .ok (((Call.getFromVector index).onList items).1, vector) := by
          rw [Call.run, getFromVector_spec h hfree hat, Call.onList, hat]
          rfl
        rw [behavesAsList_cons hrun, InRange, ← ih h hfree]
        constructor
        · exact fun ⟨_, _, _, hbehaves⟩ => ⟨hlt, hbehaves⟩
        · exact fun ⟨_, hbehaves⟩ => ⟨rfl, h, hfree, hbehaves⟩
      · have hge : vector.size ≤ index.toNat := by
          rw [h.size_eq]
          omega
        have hrun : (Call.getFromVector index).run vector =
            .ok (.item none, { vector with lock := true }) := by
          rw [Call.run, getFromVector_of_le hfree hge]
          rfl
        -- the lock stays taken
        rw [behavesAsList_cons hrun, InRange]
        constructor
        · rintro ⟨-, -, hfree', -⟩
          cases hfree'
        · exact fun ⟨hlt', _⟩ => absurd hlt' hlt

/-- **Vectors as lists.** -/
theorem behavesAsList_iff (calls : List (Call α)) :
    BehavesAsList createVector [] calls ↔ InRange 0 calls :=
  behavesAsList_iff_inRange holds_createVector rfl

/-- A lock that was left taken blocks every call. -/
theorem Call.run_of_lock {vector : Vector α} (htaken : vector.lock = true) (call : Call α) :
    call.run vector = .error .blocked := by
  have hlock : pthreadMutexLock vector = .error .blocked := if_pos htaken
  cases call with
  | addToVector item =>
    rw [Call.run, Heap.addToVector, hlock]
    rfl
  | getFromVector index =>
    rw [Call.run, Heap.getFromVector, hlock]
    rfl

/-- Looking up the first item of an empty vector returns `NULL`; no later call returns. -/
theorem not_behavesAsList_empty :
    ¬BehavesAsList (createVector : Vector ℕ) [] [.getFromVector 0] ∧
      ∃ vector', (Call.getFromVector 0).run (createVector : Vector ℕ) = .ok (.item none, vector') ∧
        ∀ call : Call ℕ, call.run vector' = .error .blocked := by
  have hrun : (Call.getFromVector 0).run (createVector : Vector ℕ) =
      .ok (.item none, { createVector with lock := true }) := by
    rw [Call.run, getFromVector_of_le rfl (Nat.zero_le _)]
    rfl
  refine ⟨fun h => ?_, _, hrun, Call.run_of_lock rfl⟩
  obtain ⟨-, -, hfree, -⟩ := (behavesAsList_cons hrun []).mp h
  cases hfree

end PlaneSim.Heap
