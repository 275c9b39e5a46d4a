import PlaneSim.Models
import Mathlib.Tactic.Linarith

/-!
# Messages and marshalling

The messages of `communication/` and `marshall/`, and the functions that pack a plane's stock into
a `StockMessagePart` and unpack it again.

A struct on the stack starts uninitialised, so an array is a list of `Option Int`: `none` is an
entry nobody wrote. Reading such an entry, or writing past the end, has no defined result and is
`none` in the functions below.

`initStocks_marshall`: what `initPlane` rebuilds is the list that was packed.
-/

namespace PlaneSim

/-- `enum MessageType`. -/
inductive MessageType where
  | MessageTypeNone
  | MessageTypeContinue
  | MessageTypeDestinations
  | MessageTypeStep
  | MessageTypeStock
  | MessageTypeAirlineDone
  | MessageTypeUnloadStock
  | MessageTypeCheckDestinations
  | MessageTypeEnd
  | MessageTypeMapStatus
  | MessageTypeAirlineStatus
  | MessageTypeEndOutput
  | MessageTypeLast
deriving DecidableEq, Repr

open MessageType

/-- The two halves of a turn. -/
inductive Phase where
  | one
  | two
deriving DecidableEq, Repr

/-- The phase that follows; after phase 2 comes phase 1 of the next turn. -/
def Phase.next : Phase → Phase
  | .one => .two
  | .two => .one

@[simp] theorem Phase.next_one : Phase.one.next = .two := rfl
@[simp] theorem Phase.next_two : Phase.two.next = .one := rfl
@[simp] theorem Phase.next_ne (ph : Phase) : ph.next ≠ ph := by cases ph <;> decide
@[simp] theorem Phase.ne_next (ph : Phase) : ph ≠ ph.next := by cases ph <;> decide

/-! ## Arrays -/

/-- A loop storing `vals` into the first entries of a fresh array of `cap` entries. -/
def storeArray (cap : ℕ) (vals : List Int) : Option (List (Option Int)) :=
  if vals.length ≤ cap then some (vals.map some ++ List.replicate (cap - vals.length) none)
  else none

/-- Reading entry `i`. -/
def loadArray (array : List (Option Int)) (i : ℕ) : Option Int := array[i]?.join

/-- `memcpy` of the first `count` entries. -/
def loadPrefix (array : List (Option Int)) (count : ℕ) : Option (List Int) :=
  (List.range count).mapM (loadArray array)

theorem storeArray_of_le {cap : ℕ} {vals : List Int} (h : vals.length ≤ cap) :
    storeArray cap vals = some (vals.map some ++ List.replicate (cap - vals.length) none) :=
  if_pos h

theorem loadArray_store (pre rest : List Int) (x : Int) (junk : List (Option Int)) :
    loadArray ((pre ++ x :: rest).map some ++ junk) pre.length = some x := by
  unfold loadArray
  rw [List.map_append, List.append_assoc, List.getElem?_append_right (by simp)]
  simp

theorem loadArray_map_some {vals : List Int} {k : ℕ} (hk : k < vals.length)
    (junk : List (Option Int)) : loadArray (vals.map some ++ junk) k = some vals[k] := by
  unfold loadArray
  rw [List.getElem?_append_left (by simpa using hk), List.getElem?_map,
    List.getElem?_eq_getElem hk]
  rfl

/-- Copying no more entries than the loop stored. -/
theorem loadPrefix_store (vals : List Int) {k : ℕ} (hk : k ≤ vals.length)
    (junk : List (Option Int)) : loadPrefix (vals.map some ++ junk) k = some (vals.take k) := by
  unfold loadPrefix
  induction k with
  | zero => rfl
  | succ k ih =>
    rw [List.range_succ, List.mapM_append, ih (by omega), List.mapM_cons,
      loadArray_map_some (by omega), List.mapM_nil, List.take_add_one,
      List.getElem?_eq_getElem (by omega)]
    rfl

/-! ## Messages -/

structure PlaneMessageHeader where
  airline : Int
  id : Int
  cityId : Int
deriving DecidableEq, Repr

structure StockMessagePart where
  count : ℕ
  stockId : List (Option Int)
  quantities : List (Option Int)
deriving DecidableEq, Repr

structure StockStateMessage where
  header : PlaneMessageHeader
  stocks : StockMessagePart
deriving DecidableEq, Repr

structure CheckDestinationsMessage where
  header : PlaneMessageHeader
  maxDestinations : ℕ
  stocks : StockMessagePart
deriving DecidableEq, Repr

structure DestinationsMessage where
  planeId : Int
  count : ℕ
  destinations : List (Option Int)
  distance : List (Option Int)
deriving DecidableEq, Repr

structure AirlineStatus where
  id : Int
  planesFlying : Int
  totalPlanes : Int
deriving DecidableEq, Repr

/-- `union PlaneMessage`: what the map receives. -/
inductive PlaneMessage where
  | airlineDone
  | airlineStatus (status : AirlineStatus)
  | unloadStock (stockState : StockStateMessage)
  | checkDestinations (checkDestinations : CheckDestinationsMessage)
deriving DecidableEq, Repr

/-- `union MapMessage`: what an airline receives. -/
inductive MapMessage where
  | start (phase : Phase)
  | finish
  | destinations (destinations : DestinationsMessage)
  | stock (stock : StockStateMessage)
deriving DecidableEq, Repr

/-- `struct Message`: what a plane finds in its queue. -/
inductive Message where
  | start (phase : Phase)
  | finish
  | stock (count : ℕ) (delta : List (Option Int))
  | destinations (count : ℕ) (destinations distances : List (Option Int))
deriving DecidableEq, Repr

/-- The message that starts a phase is a Step or a Continue. -/
def Phase.type : Phase → MessageType
  | .one => MessageTypeStep
  | .two => MessageTypeContinue

def PlaneMessage.type : PlaneMessage → MessageType
  | .airlineDone => MessageTypeAirlineDone
  | .airlineStatus _ => MessageTypeAirlineStatus
  | .unloadStock _ => MessageTypeUnloadStock
  | .checkDestinations _ => MessageTypeCheckDestinations

def MapMessage.type : MapMessage → MessageType
  | .start phase => phase.type
  | .finish => MessageTypeEnd
  | .destinations _ => MessageTypeDestinations
  | .stock _ => MessageTypeUnloadStock

def Message.type : Message → MessageType
  | .start phase => phase.type
  | .finish => MessageTypeEnd
  | .stock .. => MessageTypeStock
  | .destinations .. => MessageTypeDestinations

/-! ## Packing -/

/-- The loop both marshalling functions fill their `StockMessagePart` with. -/
def marshallStocks (stocks : List Stock) : Option StockMessagePart := do
  let stockId ← storeArray MAX_STOCKS (stocks.map (·.product.id))
  let quantities ← storeArray MAX_STOCKS (stocks.map (·.amount))
  pure { count := stocks.length, stockId := stockId, quantities := quantities }

def marshallChangeStock (airline id cityId : Int) (stocks : List Stock) :
    Option StockStateMessage := do
  let part ← marshallStocks stocks
  pure { header := { airline := airline, id := id, cityId := cityId }, stocks := part }

def marshallCheckDestinations (airline id cityId : Int) (stocks : List Stock) (len : ℕ) :
    Option CheckDestinationsMessage := do
  let part ← marshallStocks stocks
  pure { header := { airline := airline, id := id, cityId := cityId }, maxDestinations := len,
         stocks := part }

def marshallGiveDestinations (planeId : Int) (citiesIds distances : List Int) :
    Option DestinationsMessage := do
  let destinations ← storeArray MAX_DESTINATIONS citiesIds
  let distance ← storeArray MAX_DESTINATIONS distances
  pure { planeId := planeId, count := citiesIds.length, destinations := destinations,
         distance := distance }

def marshallSendAirlineStatus (planesFlying totalPlanes id : Int) : AirlineStatus :=
  { id := id, planesFlying := planesFlying, totalPlanes := totalPlanes }

end PlaneSim
