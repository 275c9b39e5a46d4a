import PlaneSim.Exchange
import PlaneSim.Lib.Layout

/-!
# Messages as bytes

A message is written to a connection as the bytes of a struct on the sender's stack, and read into
a union of the receiver's. What nobody wrote, in an array or as padding, is whatever was on the
stack, and behind a struct smaller than the union there is what the union held before.

1. The layouts of the structs, on a machine with an `int` of 4 bytes and a `size_t` of 8.
2. What a receiver reads are the entries the sender wrote, and anything in the others
   (`read_write`).
-/

namespace PlaneSim

open Memory MessageType CInt

/-! ## Layouts -/

def intKind : Kind := { width := 4, signed := true }

def enumKind : Kind := { width := 4, signed := false }

def sizeKind : Kind := { width := 8, signed := false }

def intLayout : Layout := .scalar intKind (by decide)

def enumLayout : Layout := .scalar enumKind (by decide)

def sizeLayout : Layout := .scalar sizeKind (by decide)

def PlaneMessageHeader.layout : Layout := .struct [enumLayout, intLayout, intLayout, intLayout]

def StockMessagePart.layout : Layout :=
  .struct [sizeLayout, intLayout.array MAX_STOCKS, intLayout.array MAX_STOCKS]

def StockStateMessage.layout : Layout :=
  .struct [PlaneMessageHeader.layout, StockMessagePart.layout]

def CheckDestinationsMessage.layout : Layout :=
  .struct [PlaneMessageHeader.layout, sizeLayout, StockMessagePart.layout]

def DestinationsMessage.layout : Layout :=
  .struct [enumLayout, intLayout, sizeLayout, intLayout.array MAX_DESTINATIONS,
    intLayout.array MAX_DESTINATIONS]

def AirlineStatus.layout : Layout := .struct [intLayout, intLayout, intLayout]

/-- `struct AirlineStatusMessage` -/
def AirlineStatus.messageLayout : Layout := .struct [enumLayout, AirlineStatus.layout]

/-- The struct a message is written from. -/
def PlaneMessage.layout : PlaneMessage → Layout
  | .airlineDone => enumLayout
  | .airlineStatus _ => AirlineStatus.messageLayout
  | .unloadStock _ => StockStateMessage.layout
  | .checkDestinations _ => CheckDestinationsMessage.layout

def MapMessage.layout : MapMessage → Layout
  | .start _ => enumLayout
  | .finish => enumLayout
  | .destinations _ => DestinationsMessage.layout
  | .stock _ => StockStateMessage.layout

/-- `sizeof(union PlaneMessage)` -/
def PlaneMessage.size : ℕ := CheckDestinationsMessage.layout.size

/-- `sizeof(union MapMessage)` -/
def MapMessage.size : ℕ := StockStateMessage.layout.size

def IPC_MAX_PACKET_LEN : ℕ := 512

theorem StockMessagePart.size_layout :
    StockMessagePart.layout.size = 408 ∧ StockMessagePart.layout.align = 8 := by
  have hsize : (intLayout.array MAX_STOCKS).size = 200 := Layout.size_array (by decide) _
  have halign : (intLayout.array MAX_STOCKS).align = 4 := Layout.align_array _ _
  unfold StockMessagePart.layout Layout.struct
  simp only [List.foldl_cons, List.foldl_nil, Layout.size_close, Layout.align_close,
    Layout.size_field, Layout.align_field, hsize, halign]
  decide

theorem StockStateMessage.size_layout : StockStateMessage.layout.size = 424 := by
  unfold StockStateMessage.layout Layout.struct
  simp only [List.foldl_cons, List.foldl_nil, Layout.size_close, Layout.size_field,
    Layout.align_field, StockMessagePart.size_layout]
  decide

theorem CheckDestinationsMessage.size_layout : CheckDestinationsMessage.layout.size = 432 := by
  unfold CheckDestinationsMessage.layout Layout.struct
  simp only [List.foldl_cons, List.foldl_nil, Layout.size_close, Layout.size_field,
    Layout.align_field, StockMessagePart.size_layout]
  decide

/-- The bytes of a message fit the union it is read into, and that fits a packet. -/
theorem PlaneMessage.size_le (msg : PlaneMessage) :
    msg.layout.size ≤ PlaneMessage.size ∧ PlaneMessage.size ≤ IPC_MAX_PACKET_LEN := by
  unfold PlaneMessage.size
  rw [CheckDestinationsMessage.size_layout]
  refine ⟨?_, by decide⟩
  cases msg with
  | airlineDone => exact show enumLayout.size ≤ 432 by decide
  | airlineStatus status => exact show AirlineStatus.messageLayout.size ≤ 432 by decide
  | unloadStock msg => exact StockStateMessage.size_layout.trans_le (by decide)
  | checkDestinations msg => exact CheckDestinationsMessage.size_layout.le

theorem MapMessage.size_le (msg : MapMessage) :
    msg.layout.size ≤ MapMessage.size ∧ MapMessage.size ≤ IPC_MAX_PACKET_LEN := by
  unfold MapMessage.size
  rw [StockStateMessage.size_layout]
  refine ⟨?_, by decide⟩
  cases msg with
  | start phase | finish => exact show enumLayout.size ≤ 424 by decide
  | destinations msg => exact show DestinationsMessage.layout.size ≤ 424 by decide
  | stock msg => exact StockStateMessage.size_layout.le

/-! ## Writing -/

def MessageType.value : MessageType → Int
  | MessageTypeNone => 0
  | MessageTypeContinue => 1
  | MessageTypeDestinations => 2
  | MessageTypeStep => 3
  | MessageTypeStock => 4
  | MessageTypeAirlineDone => 5
  | MessageTypeUnloadStock => 6
  | MessageTypeCheckDestinations => 7
  | MessageTypeEnd => 8
  | MessageTypeMapStatus => 9
  | MessageTypeAirlineStatus => 10
  | MessageTypeEndOutput => 11
  | MessageTypeLast => 12

/-- The scalars of the header behind the type. -/
def PlaneMessageHeader.values (header : PlaneMessageHeader) : List (Option Int) :=
  [some header.airline, some header.id, some header.cityId]

def StockMessagePart.values (stocks : StockMessagePart) : List (Option Int) :=
  some (stocks.count : Int) :: (stocks.stockId ++ stocks.quantities)

def DestinationsMessage.values (msg : DestinationsMessage) : List (Option Int) :=
  some msg.planeId :: some (msg.count : Int) :: (msg.destinations ++ msg.distance)

def AirlineStatus.values (status : AirlineStatus) : List (Option Int) :=
  [some status.id, some status.planesFlying, some status.totalPlanes]

/-- The scalars of a message in the order of its struct. -/
def PlaneMessage.values (msg : PlaneMessage) : List (Option Int) :=
  some msg.type.value ::
    match msg with
    | .airlineDone => []
    | .airlineStatus status => status.values
    | .unloadStock msg => msg.header.values ++ msg.stocks.values
    | .checkDestinations msg =>
      msg.header.values ++ some (msg.maxDestinations : Int) :: msg.stocks.values

def MapMessage.values (msg : MapMessage) : List (Option Int) :=
  some msg.type.value ::
    match msg with
    | .start _ => []
    | .finish => []
    | .destinations msg => msg.values
    | .stock msg => msg.header.values ++ msg.stocks.values

/-- The packet written for a message, from a struct in memory that held `mem`. -/
def PlaneMessage.write (msg : PlaneMessage) (mem : List UInt8) : List UInt8 :=
  storeAll msg.layout.slots msg.values mem

def MapMessage.write (msg : MapMessage) (mem : List UInt8) : List UInt8 :=
  storeAll msg.layout.slots msg.values mem

/-! ## Reading -/

/-- The type in the first bytes of a union. -/
def readType (mem : List UInt8) : Int := (loadAll enumLayout.slots mem).headD 0

def StockMessagePart.ofValues : List Int → Option StockMessagePart
  | count :: entries =>
    some { count := count.toNat
           stockId := (entries.take MAX_STOCKS).map some
           quantities := (entries.drop MAX_STOCKS).map some }
  | _ => none

def StockStateMessage.ofValues : List Int → Option StockStateMessage
  | _ :: airline :: id :: cityId :: rest => do
    let stocks ← StockMessagePart.ofValues rest
    pure { header := { airline := airline, id := id, cityId := cityId }, stocks := stocks }
  | _ => none

def CheckDestinationsMessage.ofValues : List Int → Option CheckDestinationsMessage
  | _ :: airline :: id :: cityId :: maxDestinations :: rest => do
    let stocks ← StockMessagePart.ofValues rest
    pure { header := { airline := airline, id := id, cityId := cityId }
           maxDestinations := maxDestinations.toNat, stocks := stocks }
  | _ => none

def DestinationsMessage.ofValues : List Int → Option DestinationsMessage
  | _ :: planeId :: count :: entries =>
    some { planeId := planeId, count := count.toNat
           destinations := (entries.take MAX_DESTINATIONS).map some
           distance := (entries.drop MAX_DESTINATIONS).map some }
  | _ => none

def AirlineStatus.ofValues : List Int → Option AirlineStatus
  | [_, id, planesFlying, totalPlanes] =>
    some { id := id, planesFlying := planesFlying, totalPlanes := totalPlanes }
  | _ => none

/-- The member of `union PlaneMessage` that `runMap` looks at. -/
def PlaneMessage.read (mem : List UInt8) : Option PlaneMessage :=
  if readType mem = MessageTypeAirlineDone.value then some .airlineDone
  else if readType mem = MessageTypeUnloadStock.value then
    (StockStateMessage.ofValues (loadAll StockStateMessage.layout.slots mem)).map .unloadStock
  else if readType mem = MessageTypeAirlineStatus.value then
    (AirlineStatus.ofValues (loadAll AirlineStatus.messageLayout.slots mem)).map .airlineStatus
  else if readType mem = MessageTypeCheckDestinations.value then
    (CheckDestinationsMessage.ofValues (loadAll CheckDestinationsMessage.layout.slots mem)).map
      .checkDestinations
  else none

/-- The member of `union MapMessage` that `listen` looks at. -/
def MapMessage.read (mem : List UInt8) : Option MapMessage :=
  if readType mem = MessageTypeStep.value then some (.start .one)
  else if readType mem = MessageTypeContinue.value then some (.start .two)
  else if readType mem = MessageTypeDestinations.value then
    (DestinationsMessage.ofValues (loadAll DestinationsMessage.layout.slots mem)).map .destinations
  else if readType mem = MessageTypeUnloadStock.value then
    (StockStateMessage.ofValues (loadAll StockStateMessage.layout.slots mem)).map .stock
  else if readType mem = MessageTypeEnd.value then some .finish
  else none

/-! ## What is read -/

/-- An array of which only the first `count` entries are looked at. -/
def written (count : ℕ) (array : List (Option Int)) : List (Option Int) :=
  array.take count ++ List.replicate (array.length - count) none

def StockMessagePart.written (stocks : StockMessagePart) : StockMessagePart :=
  { stocks with
    stockId := PlaneSim.written stocks.count stocks.stockId
    quantities := PlaneSim.written stocks.count stocks.quantities }

def DestinationsMessage.written (msg : DestinationsMessage) : DestinationsMessage :=
  { msg with
    destinations := PlaneSim.written msg.count msg.destinations
    distance := PlaneSim.written msg.count msg.distance }

/-- The message without the entries behind its count. -/
def PlaneMessage.written : PlaneMessage → PlaneMessage
  | .unloadStock msg => .unloadStock { msg with stocks := msg.stocks.written }
  | .checkDestinations msg => .checkDestinations { msg with stocks := msg.stocks.written }
  | msg => msg

def MapMessage.written : MapMessage → MapMessage
  | .stock msg => .stock { msg with stocks := msg.stocks.written }
  | .destinations msg => .destinations msg.written
  | msg => msg

theorem written_append {xs : List Int} (junk : List (Option Int)) :
    written xs.length (xs.map some ++ junk) = xs.map some ++ List.replicate junk.length none := by
  unfold written
  rw [List.take_left' (List.length_map _), List.length_append, List.length_map, Nat.add_sub_cancel_left]

/-- Every number of the header is an `int`. -/
def PlaneMessageHeader.Fits (header : PlaneMessageHeader) : Prop :=
  CInt.Fits header.airline ∧ CInt.Fits header.id ∧ CInt.Fits header.cityId

/-- A list of stocks that can be packed: short enough, and every number an `int`. -/
structure StocksFit (stocks : List Stock) : Prop where
  length_le : stocks.length ≤ MAX_STOCKS
  product : ∀ stock ∈ stocks, CInt.Fits stock.product.id
  amount : ∀ stock ∈ stocks, CInt.Fits stock.amount

/-- A message as the marshalling functions make it, of numbers that are `int`s. -/
inductive PlaneMessage.Sendable : PlaneMessage → Prop where
  | airlineDone : Sendable .airlineDone
  | airlineStatus {status : AirlineStatus} (id : Fits status.id) (flying : Fits status.planesFlying)
      (total : Fits status.totalPlanes) : Sendable (.airlineStatus status)
  | unloadStock {header : PlaneMessageHeader} {stocks : List Stock} (head : header.Fits)
      (fit : StocksFit stocks) :
      Sendable (.unloadStock { header := header, stocks := packed stocks })
  | checkDestinations {header : PlaneMessageHeader} {stocks : List Stock} {len : ℕ}
      (head : header.Fits) (fit : StocksFit stocks) (len_lt : len < 256 ^ 8) :
      Sendable (.checkDestinations
        { header := header, maxDestinations := len, stocks := packed stocks })

inductive MapMessage.Sendable : MapMessage → Prop where
  | start (phase : Phase) : Sendable (.start phase)
  | finish : Sendable .finish
  | stock {header : PlaneMessageHeader} {stocks : List Stock} (head : header.Fits)
      (fit : StocksFit stocks) : Sendable (.stock { header := header, stocks := packed stocks })
  | destinations {planeId : Int} {citiesIds distances : List Int} {msg : DestinationsMessage}
      (id : Fits planeId) (cities_fit : ∀ id ∈ citiesIds, Fits id)
      (distances_fit : ∀ distance ∈ distances, Fits distance)
      (length_eq : distances.length = citiesIds.length)
      (marshalled : marshallGiveDestinations planeId citiesIds distances = some msg) :
      Sendable (.destinations msg)

section Read

variable {stocks : List Stock} {header : PlaneMessageHeader} {mem : List UInt8}
  {vals : List (Option Int)} {loaded : List Int}

theorem fits_intKind {x : Int} (h : Fits x) : intKind.Fits x := by
  unfold Fits INT_MAX at h
  unfold Kind.Fits intKind
  norm_num
  omega

theorem fits_sizeKind {n : ℕ} (h : n < 256 ^ 8) : sizeKind.Fits n := by
  unfold Kind.Fits sizeKind
  norm_num at h ⊢
  omega

theorem fits_type (type : MessageType) : enumKind.Fits type.value := by
  unfold Kind.Fits enumKind
  cases type <;> decide

/-- The scalars of an array of `int`s. -/
theorem kinds_intArray (n : ℕ) : (intLayout.array n).kinds = List.replicate n intKind := by
  rw [Layout.kinds_array]
  exact List.flatten_replicate_singleton

theorem StockMessagePart.kinds_layout : StockMessagePart.layout.kinds =
    sizeKind :: (List.replicate MAX_STOCKS intKind ++ List.replicate MAX_STOCKS intKind) := by
  unfold StockMessagePart.layout
  rw [Layout.kinds_struct]
  simp only [List.flatMap_cons, List.flatMap_nil, kinds_intArray, List.append_nil]
  rfl

theorem StockStateMessage.kinds_layout : StockStateMessage.layout.kinds =
    enumKind :: ([intKind, intKind, intKind] ++ StockMessagePart.layout.kinds) := by
  unfold StockStateMessage.layout
  rw [Layout.kinds_struct]
  simp only [List.flatMap_cons, List.flatMap_nil, List.append_nil]
  rfl

theorem CheckDestinationsMessage.kinds_layout : CheckDestinationsMessage.layout.kinds =
    enumKind :: ([intKind, intKind, intKind] ++ sizeKind :: StockMessagePart.layout.kinds) := by
  unfold CheckDestinationsMessage.layout
  rw [Layout.kinds_struct]
  simp only [List.flatMap_cons, List.flatMap_nil, List.append_nil]
  rfl

theorem DestinationsMessage.kinds_layout : DestinationsMessage.layout.kinds =
    enumKind :: intKind :: sizeKind ::
      (List.replicate MAX_DESTINATIONS intKind ++ List.replicate MAX_DESTINATIONS intKind) := by
  unfold DestinationsMessage.layout
  rw [Layout.kinds_struct]
  simp only [List.flatMap_cons, List.flatMap_nil, kinds_intArray, List.append_nil]
  rfl

/-- An array filled from a list that fits it. -/
theorem fit_stored {xs : List Int} (h : ∀ x ∈ xs, Fits x) {cap : ℕ} (hcap : xs.length ≤ cap) :
    Fit (List.replicate cap intKind) (xs.map some ++ List.replicate (cap - xs.length) none) := by
  have hfit := fit_array (fun x hx => fits_intKind (h x hx)) (cap - xs.length)
  rwa [Nat.add_sub_cancel' hcap] at hfit

theorem fit_header (h : header.Fits) : Fit [intKind, intKind, intKind] header.values :=
  fit_cons.mpr ⟨fits_intKind h.1, fit_cons.mpr ⟨fits_intKind h.2.1,
    fit_cons.mpr ⟨fits_intKind h.2.2, List.Forall₂.nil⟩⟩⟩

theorem fit_packed (h : StocksFit stocks) :
    Fit StockMessagePart.layout.kinds (packed stocks).values := by
  have hlen := h.length_le
  rw [StockMessagePart.kinds_layout]
  refine fit_cons.mpr ⟨fits_sizeKind (lt_of_le_of_lt hlen (by decide)), Fit.append ?_ ?_⟩
  · have hids : ∀ x ∈ stocks.map (·.product.id), Fits x := by
      simpa using h.product
    have hfit := fit_stored hids (by simpa using hlen)
    rwa [List.length_map] at hfit
  · have hamounts : ∀ x ∈ stocks.map (·.amount), Fits x := by
      simpa using h.amount
    have hfit := fit_stored hamounts (by simpa using hlen)
    rwa [List.length_map] at hfit

/-- What a sender writes is of the types of its struct. -/
theorem PlaneMessage.Sendable.fit {msg : PlaneMessage} (h : msg.Sendable) :
    Fit msg.layout.kinds msg.values := by
  cases h with
  | airlineDone => exact fit_cons.mpr ⟨fits_type _, List.Forall₂.nil⟩
  | airlineStatus id flying total =>
    exact fit_cons.mpr ⟨fits_type _, fit_cons.mpr ⟨fits_intKind id,
      fit_cons.mpr ⟨fits_intKind flying, fit_cons.mpr ⟨fits_intKind total, List.Forall₂.nil⟩⟩⟩⟩
  | unloadStock head fit =>
    show Fit StockStateMessage.layout.kinds _
    rw [StockStateMessage.kinds_layout]
    exact fit_cons.mpr ⟨fits_type _, (fit_header head).append (fit_packed fit)⟩
  | checkDestinations head fit len_lt =>
    show Fit CheckDestinationsMessage.layout.kinds _
    rw [CheckDestinationsMessage.kinds_layout]
    exact fit_cons.mpr ⟨fits_type _, (fit_header head).append
      (fit_cons.mpr ⟨fits_sizeKind len_lt, fit_packed fit⟩)⟩

theorem marshallGiveDestinations_eq {planeId : Int} {citiesIds distances : List Int}
    {msg : DestinationsMessage} (hlen : distances.length = citiesIds.length)
    (h : marshallGiveDestinations planeId citiesIds distances = some msg) :
    citiesIds.length ≤ MAX_DESTINATIONS ∧ msg =
      { planeId := planeId, count := citiesIds.length
        destinations := citiesIds.map some ++
          List.replicate (MAX_DESTINATIONS - citiesIds.length) none
        distance := distances.map some ++
          List.replicate (MAX_DESTINATIONS - distances.length) none } := by
  have hcities : citiesIds.length ≤ MAX_DESTINATIONS := by
    by_contra hlt
    unfold marshallGiveDestinations storeArray at h
    rw [if_neg hlt] at h
    cases h
  unfold marshallGiveDestinations at h
  rw [storeArray_of_le hcities, storeArray_of_le (hlen ▸ hcities)] at h
  cases h
  exact ⟨hcities, rfl⟩

theorem MapMessage.Sendable.fit {msg : MapMessage} (h : msg.Sendable) :
    Fit msg.layout.kinds msg.values := by
  cases h with
  | start phase | finish => exact fit_cons.mpr ⟨fits_type _, List.Forall₂.nil⟩
  | stock head fit =>
    show Fit StockStateMessage.layout.kinds _
    rw [StockStateMessage.kinds_layout]
    exact fit_cons.mpr ⟨fits_type _, (fit_header head).append (fit_packed fit)⟩
  | destinations id cities_fit distances_fit length_eq marshalled =>
    obtain ⟨hcap, rfl⟩ := marshallGiveDestinations_eq length_eq marshalled
    show Fit DestinationsMessage.layout.kinds _
    rw [DestinationsMessage.kinds_layout]
    exact fit_cons.mpr ⟨fits_type _, fit_cons.mpr ⟨fits_intKind id,
      fit_cons.mpr ⟨fits_sizeKind (lt_of_le_of_lt hcap (by decide)),
        (fit_stored cities_fit hcap).append (fit_stored distances_fit (length_eq ▸ hcap))⟩⟩⟩

/-! The loads of a receiver -/

/-- A struct begins with its type. -/
theorem readType_eq {a : Layout} (h : a.slots.head? = some { offset := 0, kind := enumKind })
    {type : Int} (hagree : Agree (some type :: vals) (loadAll a.slots mem)) : readType mem = type := by
  obtain ⟨rest, hload, -⟩ := agree_cons hagree
  obtain ⟨slots, hslots⟩ := List.head?_eq_some_iff.mp h
  rw [hslots] at hload
  exact (List.cons.inj hload).1

/-- Of two arrays filled from lists of one length, what their count covers is read. -/
theorem read_arrays {xs ys : List Int} {cap : ℕ} (hcap : xs.length ≤ cap)
    (hlen : ys.length = xs.length)
    (hagree : Agree (xs.map some ++ List.replicate (cap - xs.length) none ++
      (ys.map some ++ List.replicate (cap - ys.length) none)) loaded) :
    written xs.length ((loaded.take cap).map some) =
        xs.map some ++ List.replicate (cap - xs.length) none ∧
      written xs.length ((loaded.drop cap).map some) =
        ys.map some ++ List.replicate (cap - ys.length) none := by
  obtain ⟨junk, rest, rfl, hjunk, hrest⟩ := agree_array hagree
  rw [← List.append_nil (ys.map some ++ _)] at hrest
  obtain ⟨junk', rest, rfl, hjunk', hnil⟩ := agree_array hrest
  cases hnil
  have hfirst : (xs ++ junk).length = cap := by
    rw [List.length_append, hjunk]
    omega
  rw [List.take_left' hfirst, List.drop_left' hfirst, List.append_nil, List.map_append,
    List.map_append, written_append, List.length_map, hjunk, ← hlen, written_append,
    List.length_map, hjunk']
  exact ⟨rfl, rfl⟩

theorem read_packed (h : stocks.length ≤ MAX_STOCKS) (hagree : Agree (packed stocks).values loaded) :
    ∃ part, StockMessagePart.ofValues loaded = some part ∧ part.written = packed stocks := by
  obtain ⟨rest, rfl, hrest⟩ := agree_cons hagree
  refine ⟨_, rfl, ?_⟩
  have hids : (stocks.map (·.product.id)).length = stocks.length := List.length_map _
  have hamounts : (stocks.map (·.amount)).length = stocks.length := List.length_map _
  unfold packed at hrest ⊢
  dsimp only at hrest
  rw [← hids] at h
  have hread := read_arrays h (hamounts.trans hids.symm) (by rwa [hids, hamounts])
  rw [hids, hamounts] at hread
  unfold StockMessagePart.written
  dsimp only
  rw [Int.toNat_natCast, hread.1, hread.2]

/-- The type and the header come first. -/
theorem agree_header {type : Int} (hagree : Agree (some type :: (header.values ++ vals)) loaded) :
    ∃ rest, loaded = type :: header.airline :: header.id :: header.cityId :: rest ∧
      Agree vals rest := by
  obtain ⟨l1, rfl, h1⟩ := agree_cons hagree
  obtain ⟨l2, rfl, h2⟩ := agree_cons h1
  obtain ⟨l3, rfl, h3⟩ := agree_cons h2
  obtain ⟨l4, rfl, h4⟩ := agree_cons h3
  exact ⟨l4, rfl, h4⟩

theorem read_stockState (h : stocks.length ≤ MAX_STOCKS) {type : Int}
    (hagree : Agree (some type :: (header.values ++ (packed stocks).values)) loaded) :
    ∃ msg, StockStateMessage.ofValues loaded = some msg ∧
      { msg with stocks := msg.stocks.written } =
        ({ header := header, stocks := packed stocks } : StockStateMessage) := by
  obtain ⟨rest, rfl, hrest⟩ := agree_header hagree
  obtain ⟨part, hpart, hwritten⟩ := read_packed h hrest
  simp only [StockStateMessage.ofValues, hpart]
  exact ⟨_, rfl, by rw [hwritten]⟩

theorem read_checkDestinations (h : stocks.length ≤ MAX_STOCKS) {type : Int} {len : ℕ}
    (hagree : Agree (some type :: (header.values ++ some (len : Int) :: (packed stocks).values))
      loaded) :
    ∃ msg, CheckDestinationsMessage.ofValues loaded = some msg ∧
      { msg with stocks := msg.stocks.written } =
        ({ header := header, maxDestinations := len, stocks := packed stocks } :
          CheckDestinationsMessage) := by
  obtain ⟨l1, rfl, h1⟩ := agree_header hagree
  obtain ⟨l2, rfl, h2⟩ := agree_cons h1
  obtain ⟨part, hpart, hwritten⟩ := read_packed h h2
  simp only [CheckDestinationsMessage.ofValues, hpart]
  exact ⟨_, rfl, by rw [hwritten, Int.toNat_natCast]⟩

theorem read_airlineStatus {status : AirlineStatus} {type : Int}
    (hagree : Agree (some type :: status.values) loaded) :
    AirlineStatus.ofValues loaded = some status := by
  obtain ⟨l1, rfl, h1⟩ := agree_cons hagree
  obtain ⟨l2, rfl, h2⟩ := agree_cons h1
  obtain ⟨l3, rfl, h3⟩ := agree_cons h2
  obtain ⟨l4, rfl, h4⟩ := agree_cons h3
  cases h4
  rfl

theorem read_destinations {planeId : Int} {citiesIds distances : List Int}
    {msg : DestinationsMessage} (hlen : distances.length = citiesIds.length)
    (hmsg : marshallGiveDestinations planeId citiesIds distances = some msg) {type : Int}
    (hagree : Agree (some type :: msg.values) loaded) :
    ∃ msg', DestinationsMessage.ofValues loaded = some msg' ∧ msg'.written = msg := by
  obtain ⟨hcap, rfl⟩ := marshallGiveDestinations_eq hlen hmsg
  obtain ⟨l1, rfl, h1⟩ := agree_cons hagree
  obtain ⟨l2, rfl, h2⟩ := agree_cons h1
  obtain ⟨l3, rfl, h3⟩ := agree_cons h2
  have hread := read_arrays hcap hlen h3
  refine ⟨_, rfl, ?_⟩
  unfold DestinationsMessage.written
  dsimp only
  rw [Int.toNat_natCast, hread.1, hread.2]

/-- **Reading a request.** Whatever the stack of the sender and the union of the receiver held, the
map reads the message that was sent, and anything in the entries nobody wrote. -/
theorem PlaneMessage.read_write {msg : PlaneMessage} (h : msg.Sendable)
    (hmem : mem.length = msg.layout.size) (rest : List UInt8) :
    ∃ msg', PlaneMessage.read (msg.write mem ++ rest) = some msg' ∧ msg'.written = msg := by
  have hagree := msg.layout.load_store h.fit hmem rest
  have htype : readType (msg.write mem ++ rest) = msg.type.value :=
    readType_eq (by cases msg <;> rfl) hagree
  unfold PlaneMessage.read
  rw [htype]
  cases h with
  | airlineDone => exact ⟨.airlineDone, rfl, rfl⟩
  | airlineStatus id flying total =>
    exact ⟨_, congrArg (Option.map PlaneMessage.airlineStatus) (read_airlineStatus hagree), rfl⟩
  | unloadStock head fit =>
    obtain ⟨msg', hread, hwritten⟩ := read_stockState fit.length_le hagree
    exact ⟨_, congrArg (Option.map PlaneMessage.unloadStock) hread,
      congrArg PlaneMessage.unloadStock hwritten⟩
  | checkDestinations head fit len_lt =>
    obtain ⟨msg', hread, hwritten⟩ := read_checkDestinations fit.length_le hagree
    exact ⟨_, congrArg (Option.map PlaneMessage.checkDestinations) hread,
      congrArg PlaneMessage.checkDestinations hwritten⟩

/-- **Reading a reply.** -/
theorem MapMessage.read_write {msg : MapMessage} (h : msg.Sendable)
    (hmem : mem.length = msg.layout.size) (rest : List UInt8) :
    ∃ msg', MapMessage.read (msg.write mem ++ rest) = some msg' ∧ msg'.written = msg := by
  have hagree := msg.layout.load_store h.fit hmem rest
  have htype : readType (msg.write mem ++ rest) = msg.type.value :=
    readType_eq (by cases msg <;> rfl) hagree
  unfold MapMessage.read
  rw [htype]
  cases h with
  | start phase =>
    refine ⟨.start phase, ?_, rfl⟩
    cases phase <;> rfl
  | finish => exact ⟨.finish, rfl, rfl⟩
  | stock head fit =>
    obtain ⟨msg', hread, hwritten⟩ := read_stockState fit.length_le hagree
    exact ⟨_, congrArg (Option.map MapMessage.stock) hread, congrArg MapMessage.stock hwritten⟩
  | destinations id cities_fit distances_fit length_eq marshalled =>
    obtain ⟨msg', hread, hwritten⟩ := read_destinations length_eq marshalled hagree
    exact ⟨_, congrArg (Option.map MapMessage.destinations) hread,
      congrArg MapMessage.destinations hwritten⟩

end Read

/-- The messages to the map. -/
def planeCodec : Codec PlaneMessage where
  layout := PlaneMessage.layout
  unionSize := PlaneMessage.size
  write := PlaneMessage.write
  read := PlaneMessage.read
  seen := PlaneMessage.written
  Sendable := PlaneMessage.Sendable
  size_le msg := msg.size_le.1
  length_write msg _ hmem := length_store msg.values fun s hs => hmem ▸ msg.layout.within s hs
  read_write _ _ rest h hmem := PlaneMessage.read_write h hmem rest

/-- The messages to an airline. -/
def mapCodec : Codec MapMessage where
  layout := MapMessage.layout
  unionSize := MapMessage.size
  write := MapMessage.write
  read := MapMessage.read
  seen := MapMessage.written
  Sendable := MapMessage.Sendable
  size_le msg := msg.size_le.1
  length_write msg _ hmem := length_store msg.values fun s hs => hmem ▸ msg.layout.within s hs
  read_write _ _ rest h hmem := MapMessage.read_write h hmem rest

end PlaneSim
