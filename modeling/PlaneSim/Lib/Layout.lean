import PlaneSim.Lib.Framing
import Mathlib.Data.Int.ModEq
import Mathlib.Data.List.Forall2

/-!
# The layout of C data

An object in memory is a list of bytes; what it consists of are scalars, each in a slot of its own.
`Layout` carries the proof that the slots are in order and inside the object, and is built the way a
compiler lays out structures and arrays, with padding where a field has to be aligned.

1. Slots: what is written into one is read from it, and from no other (`get_put`,
   `get_put_of_disjoint`).
2. Layouts of scalars, arrays and structures.
3. Writing some of the scalars and reading them, with anything in the others, in the padding and
   behind the object (`load_store`).
-/

namespace PlaneSim.Memory

open Framing

/-! ## Slots -/

/-- An integer type: how many bytes it has, and whether it has a sign. -/
structure Kind where
  width : ℕ
  signed : Bool
deriving DecidableEq, Repr

/-- The values of an integer type. -/
def Kind.Fits (k : Kind) (x : Int) : Prop :=
  if k.signed then -(256 ^ k.width : ℕ) ≤ 2 * x ∧ 2 * x < (256 ^ k.width : ℕ)
  else 0 ≤ x ∧ x < (256 ^ k.width : ℕ)

/-- The value whose bytes make the number `n`. -/
def Kind.value (k : Kind) (n : ℕ) : Int :=
  if k.signed ∧ 256 ^ k.width ≤ 2 * n then n - (256 ^ k.width : ℕ) else n

/-- A scalar at an offset. -/
structure Slot where
  offset : ℕ
  kind : Kind
deriving DecidableEq, Repr

def Slot.stop (s : Slot) : ℕ := s.offset + s.kind.width

def Slot.shift (base : ℕ) (s : Slot) : Slot := { s with offset := base + s.offset }

/-- Two's complement, the lowest byte first. -/
def Slot.put (s : Slot) (mem : List UInt8) (x : Int) : List UInt8 :=
  mem.take s.offset ++ bytesOf s.kind.width (x % (256 ^ s.kind.width : ℕ)).toNat ++ mem.drop s.stop

def Slot.get (s : Slot) (mem : List UInt8) : Int :=
  s.kind.value (ofBytes ((mem.drop s.offset).take s.kind.width))

section Slots

variable {s t : Slot} {mem rest : List UInt8} {x : Int}

theorem length_put (h : s.stop ≤ mem.length) : (s.put mem x).length = mem.length := by
  unfold Slot.put
  unfold Slot.stop at *
  simp only [List.length_append, List.length_take, length_bytesOf, List.length_drop]
  omega

/-- The number two's complement stores for a value. -/
theorem toNat_emod {m : ℕ} (hlo : -m ≤ x) (hhi : x < m) :
    ((x % m).toNat : Int) = if x < 0 then x + m else x := by
  by_cases hneg : x < 0
  · have hmod : x % (m : Int) = x + m := by
      rw [← Int.add_emod_right]
      exact Int.emod_eq_of_lt (by omega) (by omega)
    rw [hmod, if_pos hneg]
    omega
  · rw [Int.emod_eq_of_lt (by omega) hhi, if_neg hneg]
    omega

theorem bytes_put (h : s.stop ≤ mem.length) : ((s.put mem x).drop s.offset).take s.kind.width =
    bytesOf s.kind.width (x % (256 ^ s.kind.width : ℕ)).toNat := by
  have hoff : (mem.take s.offset).length = s.offset := by
    rw [List.length_take]
    unfold Slot.stop at h
    omega
  rw [Slot.put, List.append_assoc, List.drop_left' hoff]
  exact List.take_left' (length_bytesOf _ _)

theorem get_put (h : s.stop ≤ mem.length) (hx : s.kind.Fits x) : s.get (s.put mem x) = x := by
  have hpow : 0 < 256 ^ s.kind.width := Nat.pow_pos (by decide)
  unfold Slot.get
  rw [bytes_put h]
  unfold Kind.Fits at hx
  unfold Kind.value
  -- with a sign, what is stored is the value or the value plus `256 ^ width`
  by_cases hsigned : s.kind.signed
  · rw [if_pos hsigned] at hx
    have hn := toNat_emod (show -((256 ^ s.kind.width : ℕ) : Int) ≤ x by omega) (by omega)
    rw [ofBytes_bytesOf (by split at hn <;> omega)]
    by_cases hneg : x < 0
    · rw [if_pos hneg] at hn
      rw [if_pos ⟨hsigned, by omega⟩]
      omega
    · rw [if_neg hneg] at hn
      rw [if_neg (by omega)]
      exact hn
  · rw [if_neg hsigned] at hx
    have hn := toNat_emod (show -((256 ^ s.kind.width : ℕ) : Int) ≤ x by omega) hx.2
    rw [if_neg (by omega)] at hn
    rw [ofBytes_bytesOf (by omega), if_neg (by tauto)]
    exact hn

/-- The slots do not overlap. -/
def Slot.Disjoint (s t : Slot) : Prop := s.stop ≤ t.offset ∨ t.stop ≤ s.offset

theorem get_put_of_disjoint (h : s.stop ≤ mem.length) (hdis : s.Disjoint t) :
    t.get (s.put mem x) = t.get mem := by
  have hbytes : ((s.put mem x).drop t.offset).take t.kind.width =
      (mem.drop t.offset).take t.kind.width := by
    unfold Slot.Disjoint at hdis
    unfold Slot.stop at *
    apply List.ext_getElem?
    intro i
    unfold Slot.put
    unfold Slot.stop
    simp only [List.getElem?_take, List.getElem?_drop, List.append_assoc, List.getElem?_append,
      List.length_take, length_bytesOf]
    grind
  unfold Slot.get
  rw [hbytes]

/-- What comes behind the object does not matter. -/
theorem get_append (h : s.stop ≤ mem.length) : s.get (mem ++ rest) = s.get mem := by
  unfold Slot.get
  unfold Slot.stop at h
  have hbytes : ((mem ++ rest).drop s.offset).take s.kind.width =
      (mem.drop s.offset).take s.kind.width := by
    rw [List.drop_append_of_le_length (by omega), List.take_append_of_le_length]
    rw [List.length_drop]
    omega
  rw [hbytes]

end Slots

/-! ## Layouts -/

/-- The next multiple of `align`. -/
def roundUp (n align : ℕ) : ℕ := (n + align - 1) / align * align

theorem le_roundUp {n align : ℕ} (h : 0 < align) : n ≤ roundUp n align := by
  have hdiv := Nat.div_add_mod (n + align - 1) align
  have hmod := Nat.mod_lt (n + align - 1) h
  unfold roundUp
  rw [Nat.mul_comm]
  omega

theorem roundUp_of_dvd {n align : ℕ} (h : 0 < align) (hdvd : align ∣ n) : roundUp n align = n := by
  obtain ⟨k, rfl⟩ := hdvd
  unfold roundUp
  rw [Nat.add_sub_assoc h, Nat.mul_add_div h, Nat.div_eq_of_lt (by omega), Nat.add_zero, Nat.mul_comm]

/-- How a type lies in memory: the slots of its scalars, in order and inside the object. -/
structure Layout where
  size : ℕ
  align : ℕ
  slots : List Slot
  align_pos : 0 < align
  ordered : slots.Pairwise fun s t => s.stop ≤ t.offset
  within : ∀ s ∈ slots, s.stop ≤ size

namespace Layout

/-- The integer types of the scalars. -/
def kinds (a : Layout) : List Kind := a.slots.map (·.kind)

def scalar (k : Kind) (h : 0 < k.width) : Layout where
  size := k.width
  align := k.width
  slots := [⟨0, k⟩]
  align_pos := h
  ordered := List.pairwise_singleton _ _
  within := by simp [Slot.stop]

def empty : Layout where
  size := 0
  align := 1
  slots := []
  align_pos := Nat.one_pos
  ordered := List.Pairwise.nil
  within := nofun

/-- The next field of a structure. -/
def field (a b : Layout) : Layout where
  size := roundUp a.size b.align + b.size
  align := max a.align b.align
  slots := a.slots ++ b.slots.map (Slot.shift (roundUp a.size b.align))
  align_pos := lt_max_of_lt_left a.align_pos
  ordered := by
    rw [List.pairwise_append]
    refine ⟨a.ordered, ?_, ?_⟩
    · rw [List.pairwise_map]
      refine b.ordered.imp fun h => ?_
      unfold Slot.stop Slot.shift at *
      dsimp only at *
      omega
    · intro s hs t ht
      obtain ⟨t, -, rfl⟩ := List.mem_map.mp ht
      have := a.within s hs
      have := le_roundUp (n := a.size) b.align_pos
      unfold Slot.shift
      dsimp only
      omega
  within := by
    intro s hs
    rcases List.mem_append.mp hs with hs | hs
    · have := a.within s hs
      have := le_roundUp (n := a.size) b.align_pos
      omega
    · obtain ⟨t, ht, rfl⟩ := List.mem_map.mp hs
      have := b.within t ht
      unfold Slot.stop Slot.shift at *
      dsimp only at *
      omega

/-- The padding behind the last field. -/
def close (a : Layout) : Layout :=
  { a with
    size := roundUp a.size a.align
    within := fun s hs => (a.within s hs).trans (le_roundUp a.align_pos) }

/-- A structure with the given fields. -/
def struct (fields : List Layout) : Layout := (fields.foldl field empty).close

def array (a : Layout) : ℕ → Layout
  | 0 => empty
  | n + 1 => (a.array n).field a

@[simp] theorem size_field (a b : Layout) :
    (a.field b).size = roundUp a.size b.align + b.size := rfl

@[simp] theorem align_field (a b : Layout) : (a.field b).align = max a.align b.align := rfl

@[simp] theorem size_close (a : Layout) : a.close.size = roundUp a.size a.align := rfl

@[simp] theorem align_close (a : Layout) : a.close.align = a.align := rfl

section Kinds

variable (a b : Layout)

theorem kinds_field : (a.field b).kinds = a.kinds ++ b.kinds := by
  unfold kinds field
  rw [List.map_append, List.map_map]
  rfl

theorem kinds_struct (fields : List Layout) : (struct fields).kinds = fields.flatMap kinds := by
  have hfold : ∀ (fields : List Layout) (a : Layout),
      (fields.foldl field a).kinds = a.kinds ++ fields.flatMap kinds := by
    intro fields
    induction fields with
    | nil => intro a; simp
    | cons b fields ih =>
      intro a
      rw [List.foldl_cons, ih, kinds_field, List.flatMap_cons, List.append_assoc]
  exact hfold fields empty

theorem kinds_array (n : ℕ) : (a.array n).kinds = (List.replicate n a.kinds).flatten := by
  induction n with
  | zero => rfl
  | succ n ih =>
    rw [array, kinds_field, ih, List.replicate_succ', List.flatten_append]
    simp

end Kinds

/-- Between the entries of an array there is no padding. -/
theorem size_array {a : Layout} (h : a.align ∣ a.size) (n : ℕ) : (a.array n).size = n * a.size := by
  induction n with
  | zero => exact (Nat.zero_mul _).symm
  | succ n ih =>
    rw [array, size_field, ih, roundUp_of_dvd a.align_pos (h.mul_left n), Nat.succ_mul]

theorem align_array (a : Layout) (n : ℕ) : (a.array (n + 1)).align = a.align := by
  induction n with
  | zero => exact max_eq_right a.align_pos
  | succ n ih =>
    rw [array, align_field, ih]
    exact max_self _

end Layout

/-! ## Storing and loading -/

/-- Writing the values given; what is `none` is not written. -/
def storeAll : List Slot → List (Option Int) → List UInt8 → List UInt8
  | s :: slots, some x :: vals, mem => storeAll slots vals (s.put mem x)
  | _ :: slots, none :: vals, mem => storeAll slots vals mem
  | _, _, mem => mem

def loadAll (slots : List Slot) (mem : List UInt8) : List Int := slots.map (·.get mem)

/-- Every value that has been written is of its integer type. -/
def Fit (kinds : List Kind) (vals : List (Option Int)) : Prop :=
  List.Forall₂ (fun k v => ∀ x ∈ v, Kind.Fits k x) kinds vals

/-- The values loaded are those that have been written. -/
def Agree (vals : List (Option Int)) (loaded : List Int) : Prop :=
  List.Forall₂ (fun v y => ∀ x ∈ v, y = x) vals loaded

section Store

variable {slots : List Slot} {vals : List (Option Int)} {mem : List UInt8}

theorem length_store (vals : List (Option Int)) (h : ∀ s ∈ slots, s.stop ≤ mem.length) :
    (storeAll slots vals mem).length = mem.length := by
  fun_induction storeAll slots vals mem with
  | case1 s slots x vals mem ih =>
    have hput := length_put (x := x) (h s List.mem_cons_self)
    rw [ih fun t ht => hput ▸ h t (List.mem_cons_of_mem _ ht), hput]
  | case2 s slots vals mem ih => exact ih fun t ht => h t (List.mem_cons_of_mem _ ht)
  | case3 => rfl

/-- Frame rule: a slot before those written is left alone. -/
theorem get_store {t : Slot} (h : ∀ s ∈ slots, s.stop ≤ mem.length)
    (ht : ∀ s ∈ slots, t.stop ≤ s.offset) : t.get (storeAll slots vals mem) = t.get mem := by
  fun_induction storeAll slots vals mem with
  | case1 s slots x vals mem ih =>
    have hs := h s List.mem_cons_self
    rw [ih (fun u hu => (length_put (x := x) hs) ▸ h u (List.mem_cons_of_mem _ hu))
      fun u hu => ht u (List.mem_cons_of_mem _ hu)]
    exact get_put_of_disjoint hs (.inr (ht s List.mem_cons_self))
  | case2 s slots vals mem ih =>
    exact ih (fun u hu => h u (List.mem_cons_of_mem _ hu))
      fun u hu => ht u (List.mem_cons_of_mem _ hu)
  | case3 => rfl

/-- What has been written is loaded, whatever the memory was. -/
theorem agree_load_store (hord : slots.Pairwise fun s t => s.stop ≤ t.offset)
    (h : ∀ s ∈ slots, s.stop ≤ mem.length) (hfit : Fit (slots.map (·.kind)) vals) :
    Agree vals (loadAll slots (storeAll slots vals mem)) := by
  induction slots generalizing vals mem with
  | nil =>
    cases hfit
    exact List.Forall₂.nil
  | cons s slots ih =>
    obtain ⟨hbefore, hord⟩ := List.pairwise_cons.mp hord
    have hs := h s List.mem_cons_self
    have hrest : ∀ t ∈ slots, t.stop ≤ mem.length := fun t ht => h t (List.mem_cons_of_mem _ ht)
    rw [List.map_cons] at hfit
    obtain _ | @⟨_, v, _, vals, hv, hfit⟩ := hfit
    cases v with
    | none => exact List.Forall₂.cons nofun (ih hord hrest hfit)
    | some x =>
      have hput := length_put (x := x) hs
      rw [← hput] at hrest
      refine List.Forall₂.cons ?_ (ih hord hrest hfit)
      rintro _ ⟨⟩
      exact (get_store hrest hbefore).trans (get_put hs (hv x rfl))

end Store

section Agree

variable {kinds kinds' : List Kind} {k : Kind} {x : Int} {vals vals' : List (Option Int)}
  {loaded : List Int}

theorem fit_cons : Fit (k :: kinds) (some x :: vals) ↔ k.Fits x ∧ Fit kinds vals := by
  unfold Fit
  rw [List.forall₂_cons]
  simp

theorem Fit.append (h : Fit kinds vals) (h' : Fit kinds' vals') :
    Fit (kinds ++ kinds') (vals ++ vals') :=
  List.rel_append h h'

/-- An array of which the first entries are written. -/
theorem fit_array {xs : List Int} (h : ∀ x ∈ xs, k.Fits x) (n : ℕ) :
    Fit (List.replicate (xs.length + n) k) (xs.map some ++ List.replicate n none) := by
  rw [List.replicate_add]
  refine Fit.append ?_ ?_
  · induction xs with
    | nil => exact List.Forall₂.nil
    | cons x xs ih =>
      exact fit_cons.mpr ⟨h x List.mem_cons_self, ih fun y hy => h y (List.mem_cons_of_mem _ hy)⟩
  · induction n with
    | zero => exact List.Forall₂.nil
    | succ n ih => exact List.Forall₂.cons nofun ih

theorem agree_cons (h : Agree (some x :: vals) loaded) :
    ∃ rest, loaded = x :: rest ∧ Agree vals rest := by
  obtain ⟨y, rest, hxy, hrest, rfl⟩ := List.forall₂_cons_left_iff.mp h
  exact ⟨rest, by rw [hxy x rfl], hrest⟩

theorem agree_array {xs : List Int} {n : ℕ}
    (h : Agree (xs.map some ++ List.replicate n none ++ vals) loaded) :
    ∃ junk rest, loaded = xs ++ junk ++ rest ∧ junk.length = n ∧ Agree vals rest := by
  induction xs generalizing loaded with
  | nil =>
    induction n generalizing loaded with
    | zero => exact ⟨[], loaded, rfl, rfl, h⟩
    | succ n ih =>
      obtain ⟨y, rest, -, hrest, rfl⟩ := List.forall₂_cons_left_iff.mp h
      obtain ⟨junk, rest, rfl, rfl, hvals⟩ := ih hrest
      exact ⟨y :: junk, rest, rfl, rfl, hvals⟩
  | cons x xs ih =>
    obtain ⟨rest, rfl, hrest⟩ := agree_cons h
    obtain ⟨junk, rest, rfl, rfl, hvals⟩ := ih hrest
    exact ⟨junk, rest, rfl, rfl, hvals⟩

end Agree

/-- **Round trip.** An object is written into memory that may hold anything, padding included, and
its bytes are copied over the first bytes of another object: what is loaded there are the values
written. -/
theorem Layout.load_store (a : Layout) {vals : List (Option Int)} (hfit : Fit a.kinds vals)
    {mem : List UInt8} (hmem : mem.length = a.size) (rest : List UInt8) :
    Agree vals (loadAll a.slots (storeAll a.slots vals mem ++ rest)) := by
  have hwithin : ∀ s ∈ a.slots, s.stop ≤ mem.length := fun s hs => hmem ▸ a.within s hs
  have hload : loadAll a.slots (storeAll a.slots vals mem ++ rest) =
      loadAll a.slots (storeAll a.slots vals mem) := by
    apply List.map_congr_left
    intro s hs
    exact get_append ((length_store vals hwithin).symm ▸ hwithin s hs)
  rw [hload]
  exact agree_load_store a.ordered hwithin hfit

/-! ## Messages -/

/-- Messages that are written as structs, each with a layout, and read from one union. -/
structure Codec (μ : Type*) where
  layout : μ → Layout
  /-- `sizeof` the union. -/
  unionSize : ℕ
  write : μ → List UInt8 → List UInt8
  read : List UInt8 → Option μ
  /-- What of a message the reader looks at. -/
  seen : μ → μ
  Sendable : μ → Prop
  size_le : ∀ msg, (layout msg).size ≤ unionSize
  length_write : ∀ msg mem, mem.length = (layout msg).size → (write msg mem).length = mem.length
  read_write : ∀ msg mem rest, Sendable msg → mem.length = (layout msg).size →
    ∃ msg', read (write msg mem ++ rest) = some msg' ∧ seen msg' = msg

/-- The bytes are those of a struct for the message, whatever the memory of the struct held. -/
def Codec.Packet {μ : Type*} (c : Codec μ) (buff : List UInt8) (msg : μ) : Prop :=
  ∃ mem, c.Sendable msg ∧ mem.length = (c.layout msg).size ∧ buff = c.write msg mem

theorem Codec.Packet.length_eq {μ : Type*} {c : Codec μ} {buff : List UInt8} {msg : μ}
    (h : c.Packet buff msg) : buff.length = (c.layout msg).size := by
  obtain ⟨mem, -, hmem, rfl⟩ := h
  rw [c.length_write msg mem hmem, hmem]

theorem Codec.exists_packets {μ : Type*} (c : Codec μ) {buffs : List (List UInt8)}
    (h : ∀ buff ∈ buffs, ∃ msg, c.Packet buff msg) : ∃ msgs, List.Forall₂ c.Packet buffs msgs := by
  induction buffs with
  | nil => exact ⟨[], .nil⟩
  | cons buff buffs ih =>
    obtain ⟨msg, hmsg⟩ := h buff List.mem_cons_self
    obtain ⟨msgs, hmsgs⟩ := ih fun b hb => h b (List.mem_cons_of_mem _ hb)
    exact ⟨msg :: msgs, .cons hmsg hmsgs⟩

end PlaneSim.Memory
