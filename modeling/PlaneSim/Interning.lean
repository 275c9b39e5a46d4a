import PlaneSim.Models
import PlaneSim.Vector
import Mathlib.Data.Finset.Dedup
import Mathlib.Data.Finset.Card
import Mathlib.Data.Nat.Digits.Defs

/-!
# The product table in memory

`getProduct` and the look-ups as `models/product.c` has them: a product is a cell of memory, the
table is a vector of addresses, and the id comes from `addToVector` after the insertion.

1. Up to `2 ^ 31` products the calls do what they do on a list of products (`Tabled`).
2. Ids and positions keep in step over any requests for at most `2 ^ 31` different names, and over
   no others (`keepsInStep_iff`).
-/

namespace PlaneSim.Heap

open CInt

/-! ## Memory -/

/-- A `Product` in memory. From `malloc` until it is assigned the id is `none`. -/
structure Cell where
  id : Option Int
  name : Name
deriving DecidableEq, Repr

/-- The products that were allocated, a freed one being `none`, and the table of their addresses. -/
structure Memory where
  cells : List (Option Cell)
  products : Vector ℕ
deriving DecidableEq, Repr

/-- Before the first request. -/
def Memory.empty : Memory where
  cells := []
  products := createVector

/-- The product behind a pointer. -/
def Memory.deref (memory : Memory) (product : Option ℕ) : Except Fault Cell :=
  match product.bind fun address => memory.cells[address]?.join with
  | some cell => .ok cell
  | none => .error .undefined

/-- `getFromVector` on the table. -/
def Memory.getFromVector (memory : Memory) (index : UInt32) :
    Except Fault (Option ℕ × Memory) := do
  let (item, products) ← Heap.getFromVector memory.products index
  pure (item, { memory with products := products })

/-! ## The calls -/

/-- The loop of `getProductId`; `i` is the next index and `left` the number of indices left. -/
def searchName (productName : Name) : ℕ → ℕ → Memory → Except Fault (Int × Memory)
  | 0, _, memory => pure (-1, memory)
  | left + 1, i, memory => do
    let (product, memory) ← memory.getFromVector (UInt32.ofNat i)
    let cell ← memory.deref product
    if productName = cell.name then
      match cell.id with
      | some id => pure (id, memory)
      | none => .error .undefined
    else searchName productName left (i + 1) memory

def getProductId (productName : Name) (memory : Memory) : Except Fault (Int × Memory) :=
  searchName productName memory.products.size 0 memory

/-- `getProductName`: the name it copies into the caller's buffer. -/
def getProductName (id : Int) (memory : Memory) : Except Fault (Name × Memory) := do
  let (product, memory) ← memory.getFromVector (UInt32.ofInt id)
  let cell ← memory.deref product
  pure (cell.name, memory)

/-- `getProduct`: the address it returns; memory is always found. -/
def getProduct (name : Name) (memory : Memory) : Except Fault (Option ℕ × Memory) := do
  let (i, memory) ← getProductId name memory
  if i ≠ -1 then
    memory.getFromVector (UInt32.ofInt i)
  else
    let res := memory.cells.length
    let cells := memory.cells ++ [some { id := none, name := name }]
    let (i, products) ← addToVector true memory.products (some res)
    if i = -1 then
      pure (none, { cells := cells.set res none, products := products })
    else
      pure (some res, { cells := cells.set res (some { id := some i, name := name }),
                        products := products })

/-- One request after the other, with what each returns. -/
def requests (names : List Name) : Except Fault (List (Option ℕ) × Memory) :=
  names.foldlM (fun (returned, memory) name => do
    let (product, memory) ← getProduct name memory
    pure (returned ++ [product], memory)) ([], Memory.empty)

/-! ## The list of products in memory -/

/-- The memory holds the products of `table`, each at the address that is its position. -/
structure Tabled (memory : Memory) (table : List Product) : Prop where
  holds : Holds memory.products ((List.range table.length).map some)
  free : memory.products.lock = false
  cells : memory.cells = table.map fun p => some { id := some p.id, name := p.name }

theorem tabled_empty : Tabled Memory.empty [] where
  holds := holds_createVector
  free := rfl
  cells := rfl

section Calls

variable {memory : Memory} {table : List Product}

theorem Tabled.size_eq (h : Tabled memory table) : memory.products.size = table.length := by
  rw [h.holds.size_eq, List.length_map, List.length_range]

theorem Tabled.getFromVector (h : Tabled memory table) {index : UInt32} {i : ℕ}
    (hindex : index.toNat = i) (hlt : i < table.length) :
    memory.getFromVector index = .ok (some i, memory) := by
  subst hindex
  have hat : ((List.range table.length).map some)[index.toNat]? = some (some index.toNat) := by
    rw [List.getElem?_map, List.getElem?_range hlt]
    rfl
  rw [Memory.getFromVector, getFromVector_spec h.holds h.free hat]
  rfl

theorem Tabled.deref (h : Tabled memory table) {i : ℕ} {p : Product} (hp : table[i]? = some p) :
    memory.deref (some i) = .ok { id := some p.id, name := p.name } := by
  have hcell : memory.cells[i]?.join = some { id := some p.id, name := p.name } := by
    rw [h.cells, List.getElem?_map, hp]
    rfl
  rw [Memory.deref, Option.bind_some, hcell]

/-- An index that is a position. -/
theorem toNat_index {i n : ℕ} (hi : i < n) (hn : n ≤ 2147483648) :
    (UInt32.ofNat i).toNat = i ∧ (UInt32.ofInt i).toNat = i := by
  have hint : UInt32.ofInt i = UInt32.ofNat i := by
    unfold UInt32.ofInt
    congr 1
    omega
  rw [hint, UInt32.toNat_ofNat']
  omega

/-- The search from position `i` on. -/
theorem Tabled.searchName (h : Tabled memory table) (hn : table.length ≤ 2147483648)
    (productName : Name) :
    ∀ left i, i + left = table.length → searchName productName left i memory =
      .ok (PlaneSim.getProductId productName (table.drop i), memory) := by
  intro left
  induction left with
  | zero =>
    intro i hi
    rw [List.drop_of_length_le (by omega)]
    rfl
  | succ left ih =>
    intro i hi
    have hlt : i < table.length := by omega
    have hindex := (toNat_index hlt hn).1
    have hget := h.getFromVector hindex hlt
    have hderef := h.deref (List.getElem?_eq_getElem hlt)
    have hnext := ih (i + 1) (by omega)
    rw [Heap.searchName, hget, List.drop_eq_getElem_cons hlt, PlaneSim.getProductId]
    simp only [bind, Except.bind, hderef, hnext]
    by_cases hname : productName = table[i].name
    · rw [if_pos hname, List.find?_cons_of_pos (by simpa using hname)]
      rfl
    · rw [if_neg hname, List.find?_cons_of_neg (by simpa using hname)]
      rfl

theorem Tabled.getProductId (h : Tabled memory table) (hn : table.length ≤ 2147483648)
    (productName : Name) : getProductId productName memory =
      .ok (PlaneSim.getProductId productName table, memory) := by
  rw [Heap.getProductId, h.size_eq, h.searchName hn productName _ 0 (Nat.zero_add _),
    List.drop_zero]

/-- The name at a position. -/
theorem Tabled.getProductName (h : Tabled memory table) (hn : table.length ≤ 2147483648) {i : ℕ}
    {p : Product} (hp : table[i]? = some p) : getProductName i memory = .ok (p.name, memory) := by
  have hlt := (List.getElem?_eq_some_iff.mp hp).1
  have hindex := (toNat_index hlt hn).2
  have hget := h.getFromVector hindex hlt
  rw [Heap.getProductName, hget]
  simp only [bind, Except.bind, h.deref hp]
  rfl

/-- A product that is in the table is returned, and nothing changes. -/
theorem Tabled.getProduct_known (h : Tabled memory table) (hw : WellFormed table)
    (hn : table.length ≤ 2147483648) {i : ℕ} {p : Product} (hp : table[i]? = some p) :
    getProduct p.name memory = .ok (some i, memory) := by
  have hlt := (List.getElem?_eq_some_iff.mp hp).1
  have hindex := (toNat_index hlt hn).2
  have hid : PlaneSim.getProductId p.name table = i := by
    rw [getProductId_of_mem hw (List.mem_of_getElem? hp), hw.id_eq i p hp]
  have hget := h.getFromVector hindex hlt
  rw [Heap.getProduct, h.getProductId hn, hid]
  simp only [bind, Except.bind]
  rw [if_pos (by omega), hget]

/-- A product that is not in the table is appended. Its id is the position, in an `int`. -/
theorem Tabled.getProduct_new (h : Tabled memory table) (hn : table.length ≤ 2147483648)
    {name : Name} (hnew : name ∉ table.map Product.name) :
    ∃ memory', getProduct name memory = .ok (some table.length, memory') ∧
      Tabled memory' (table ++ [{ id := toInt table.length, name := name }]) := by
  obtain ⟨products, hadd, hholds, hfree⟩ := addToVector_spec h.holds h.free (some table.length)
  rw [List.length_map, List.length_range] at hadd
  have hne : toInt table.length ≠ -1 := by
    intro he
    have hmod := toInt_emod table.length
    rw [he] at hmod
    omega
  generalize toInt (table.length : Int) = id at *
  have hlen : memory.cells.length = table.length := by
    rw [h.cells, List.length_map]
  refine ⟨{ cells := memory.cells ++ [some { id := some id, name := name }],
            products := products }, ?_, ⟨?_, hfree, ?_⟩⟩
  · rw [Heap.getProduct, h.getProductId hn, getProductId_of_not_mem hnew]
    have hset : ∀ old new : Option Cell, (memory.cells ++ [old]).set table.length new =
        memory.cells ++ [new] := by
      intro old new
      rw [← hlen, List.set_append_right _ _ le_rfl, Nat.sub_self, List.set_cons_zero]
    simp only [bind, Except.bind, ne_eq, not_true_eq_false, if_false, hlen, hadd, hne, hset, pure,
      Except.pure]
  · rw [List.length_append, List.length_singleton, List.range_succ, List.map_append]
    exact hholds
  · rw [List.map_append, h.cells]
    rfl

end Calls

/-- **The table in memory is the list.** -/
theorem Tabled.getProduct {memory : Memory} {table : List Product} (h : Tabled memory table)
    (hw : WellFormed table) (hn : table.length ≤ 2147483648) {name : Name}
    (hroom : name ∈ table.map Product.name ∨ table.length < 2147483648) :
    ∃ i product memory' table', PlaneSim.getProduct name table = some (product, table') ∧
      Heap.getProduct name memory = .ok (some i, memory') ∧ Tabled memory' table' ∧
      table'[i]? = some product ∧ product.name = name := by
  by_cases hknown : name ∈ table.map Product.name
  · obtain ⟨p, hp, rfl⟩ := List.mem_map.mp hknown
    obtain ⟨i, hi⟩ := List.mem_iff_getElem?.mp hp
    exact ⟨i, p, memory, table, getProduct_of_mem hw hp, h.getProduct_known hw hn hi, h, hi, rfl⟩
  · obtain ⟨memory', hget, htabled⟩ := h.getProduct_new hn hknown
    have hlt := hroom.resolve_left hknown
    have hid : toInt table.length = table.length :=
      toInt_of_fits ⟨by omega, by unfold INT_MAX; omega⟩
    rw [hid] at htabled
    exact ⟨table.length, _, memory', _, getProduct_of_not_mem hknown, hget, htabled,
      List.getElem?_concat_length, rfl⟩

/-! ## After some requests -/

/-- The state after the requests for `names`. -/
structure After (names : List Name) (returned : List (Option ℕ)) (memory : Memory)
    (table : List Product) : Prop where
  run : requests names = .ok (returned, memory)
  tabled : Tabled memory table
  wellFormed : WellFormed table
  names_iff : ∀ name, name ∈ table.map Product.name ↔ name ∈ names
  length_eq : returned.length = names.length
  returned_eq : ∀ (k : ℕ) (name : Name), names[k]? = some name → ∃ (i : ℕ) (product : Product),
    returned[k]? = some (some i) ∧ table[i]? = some product ∧ product.name = name

theorem after_nil : After [] [] Memory.empty [] where
  run := rfl
  tabled := tabled_empty
  wellFormed := wellFormed_nil
  names_iff := by simp
  length_eq := rfl
  returned_eq := by simp

/-- There are as many products as different names. -/
theorem After.length_table {names : List Name} {returned : List (Option ℕ)} {memory : Memory}
    {table : List Product} (h : After names returned memory table) :
    table.length = names.toFinset.card := by
  have hset : (table.map Product.name).toFinset = names.toFinset := by
    ext name
    rw [List.mem_toFinset, List.mem_toFinset]
    exact h.names_iff name
  rw [← hset, List.toFinset_card_of_nodup h.wellFormed.nodup, List.length_map]

theorem requests_concat {names : List Name} {returned : List (Option ℕ)}
    {memory memory' : Memory} {name : Name} {product : Option ℕ}
    (h : requests names = .ok (returned, memory))
    (hget : getProduct name memory = .ok (product, memory')) :
    requests (names ++ [name]) = .ok (returned ++ [product], memory') := by
  unfold requests at h ⊢
  rw [List.foldlM_append, h]
  simp only [bind, Except.bind, List.foldlM_cons, List.foldlM_nil, hget, pure, Except.pure]

theorem getElem?_extended {l l' : List Product} (h : l <+: l') {i : ℕ} {p : Product}
    (hp : l[i]? = some p) : l'[i]? = some p := by
  obtain ⟨hi, rfl⟩ := List.getElem?_eq_some_iff.mp hp
  exact List.prefix_iff_getElem?.mp h i hi

theorem toFinset_concat (names : List Name) (name : Name) :
    (names ++ [name]).toFinset = insert name names.toFinset := by
  ext x
  simp

/-- A request only adds to the list. -/
theorem getProduct_grows {table table' : List Product} {name : Name} {p : Product}
    (hw : WellFormed table) (h : PlaneSim.getProduct name table = some (p, table')) :
    table <+: table' ∧
      ∀ x, x ∈ table'.map Product.name ↔ x ∈ table.map Product.name ∨ x = name := by
  by_cases hknown : name ∈ table.map Product.name
  · obtain ⟨q, hq, rfl⟩ := List.mem_map.mp hknown
    rw [getProduct_of_mem hw hq] at h
    cases h
    refine ⟨List.prefix_rfl, fun x => ⟨.inl, ?_⟩⟩
    rintro (hx | rfl)
    · exact hx
    · exact hknown
  · rw [getProduct_of_not_mem hknown] at h
    cases h
    exact ⟨List.prefix_append _ _, by simp⟩

/-- One more request. -/
theorem After.concat {names : List Name} {returned : List (Option ℕ)} {memory : Memory}
    {table : List Product} (h : After names returned memory table) (name : Name)
    (hn : (names ++ [name]).toFinset.card ≤ 2147483648) :
    ∃ i memory' table', After (names ++ [name]) (returned ++ [some i]) memory' table' ∧
      table <+: table' := by
  have hlen := h.length_table
  rw [toFinset_concat] at hn
  have hle := Finset.card_le_card (Finset.subset_insert name names.toFinset)
  have hroom : name ∈ table.map Product.name ∨ table.length < 2147483648 := by
    by_cases hknown : name ∈ table.map Product.name
    · exact .inl hknown
    · have hnew : name ∉ names.toFinset := by
        rw [List.mem_toFinset, ← h.names_iff]
        exact hknown
      rw [Finset.card_insert_of_notMem hnew] at hn
      exact .inr (by omega)
  obtain ⟨i, p, memory', table', hlist, hget, htabled, hp, hname⟩ :=
    h.tabled.getProduct h.wellFormed (by omega) hroom
  have hgrown := getProduct_grows h.wellFormed hlist
  refine ⟨i, memory', table', ⟨requests_concat h.run hget, htabled,
    h.wellFormed.getProduct hlist, fun x => ?_, by simp [h.length_eq], fun k x hk => ?_⟩,
    hgrown.1⟩
  · rw [hgrown.2, h.names_iff, List.mem_append, List.mem_singleton]
  · rcases Nat.lt_or_ge k names.length with hlt | hge
    · rw [List.getElem?_append_left hlt] at hk
      obtain ⟨j, q, hret, hq, hqname⟩ := h.returned_eq k x hk
      refine ⟨j, q, ?_, getElem?_extended hgrown.1 hq, hqname⟩
      rw [List.getElem?_append_left (by rw [h.length_eq]; exact hlt)]
      exact hret
    · have hlast := (List.getElem?_eq_some_iff.mp hk).1
      rw [List.length_append, List.length_singleton] at hlast
      obtain rfl : k = names.length := by omega
      rw [List.getElem?_concat_length] at hk
      obtain rfl := Option.some.inj hk
      refine ⟨i, p, ?_, hp, hname⟩
      rw [← h.length_eq, List.getElem?_concat_length]

/-- Some more requests. -/
theorem After.append {names : List Name} {returned : List (Option ℕ)} {memory : Memory}
    {table : List Product} (h : After names returned memory table) (more : List Name) :
    (names ++ more).toFinset.card ≤ 2147483648 → ∃ returned' memory' table',
      After (names ++ more) returned' memory' table' ∧ table <+: table' := by
  induction more using List.reverseRecOn with
  | nil =>
    intro _
    rw [List.append_nil]
    exact ⟨_, _, _, h, List.prefix_rfl⟩
  | append_singleton more name ih =>
    intro hn
    rw [← List.append_assoc] at hn ⊢
    have hle : (names ++ more).toFinset ⊆ (names ++ more ++ [name]).toFinset := by
      rw [toFinset_concat]
      exact Finset.subset_insert _ _
    obtain ⟨_, _, table1, h1, hgrown1⟩ := ih ((Finset.card_le_card hle).trans hn)
    obtain ⟨_, _, table2, h2, hgrown2⟩ := h1.concat name hn
    exact ⟨_, _, table2, h2, hgrown1.trans hgrown2⟩

/-! ## Ids and positions -/

/-- The address at position `i` of the table, with the product that is there. -/
def entryAt (memory : Memory) (i : ℕ) : Option (ℕ × Product) :=
  if i < memory.products.size then do
    let address ← memory.products.pointer[i]?.join.join
    let cell ← memory.cells[address]?.join
    let id ← cell.id
    pure (address, { id := id, name := cell.name })
  else none

/-- After the requests for `names`, which returned `returned`. -/
structure InStep (names : List Name) (returned : List (Option ℕ)) (memory : Memory) : Prop where
  entry : ∀ i < memory.products.size, ∃ e, entryAt memory i = some e
  id_eq : ∀ i e, entryAt memory i = some e → e.2.id = i
  distinct : ∀ i j e e', entryAt memory i = some e → entryAt memory j = some e' →
    e.2.name = e'.2.name → i = j
  position : ∀ name ∈ names, ∃ i e, entryAt memory i = some e ∧ e.2.name = name ∧
    getProductId name memory = .ok (i, memory)
  never : ∀ name ∉ names, getProductId name memory = .ok (-1, memory)
  repeated : ∀ (k : ℕ) (name : Name), names[k]? = some name → ∃ product,
    returned[k]? = some product ∧ getProduct name memory = .ok (product, memory)
  name_back : ∀ name ∈ names, ∃ id, getProductId name memory = .ok (id, memory) ∧
    getProductName id memory = .ok (name, memory)

/-- After all requests, and after the first few of them; what was in the table then is there
still. -/
def KeepsInStep (names : List Name) : Prop :=
  ∃ returned memory, requests names = .ok (returned, memory) ∧
    ∀ pre, pre <+: names → ∃ returned' memory', requests pre = .ok (returned', memory') ∧
      InStep pre returned' memory' ∧
      ∀ i e, entryAt memory' i = some e → entryAt memory i = some e

theorem Tabled.entryAt {memory : Memory} {table : List Product} (h : Tabled memory table) (i : ℕ) :
    entryAt memory i = table[i]?.map fun p => (i, p) := by
  rw [Heap.entryAt, h.size_eq]
  split
  · rename_i hlt
    have hpointer := h.holds.stored i (some i) (by
      rw [List.getElem?_map, List.getElem?_range hlt]
      rfl)
    rw [hpointer, h.cells, List.getElem?_eq_getElem hlt]
    simp [List.getElem?_eq_getElem hlt]
  · rw [List.getElem?_eq_none (by omega)]
    rfl

theorem After.inStep {names : List Name} {returned : List (Option ℕ)} {memory : Memory}
    {table : List Product} (h : After names returned memory table)
    (hn : table.length ≤ 2147483648) : InStep names returned memory := by
  have hat : ∀ i e, Heap.entryAt memory i = some e → table[i]? = some e.2 := by
    intro i e he
    rw [h.tabled.entryAt] at he
    obtain ⟨p, hp, rfl⟩ := Option.map_eq_some_iff.mp he
    exact hp
  have hknown : ∀ name ∈ names, ∃ (i : ℕ) (p : Product), table[i]? = some p ∧ p.name = name ∧
      getProductId name memory = .ok (i, memory) := by
    intro name hname
    obtain ⟨p, hp, rfl⟩ := List.mem_map.mp ((h.names_iff name).mpr hname)
    obtain ⟨i, hi⟩ := List.mem_iff_getElem?.mp hp
    refine ⟨i, p, hi, rfl, ?_⟩
    rw [h.tabled.getProductId hn, getProductId_of_mem h.wellFormed hp, h.wellFormed.id_eq i p hi]
  refine ⟨fun i hi => ?_, fun i e he => h.wellFormed.id_eq i _ (hat i e he),
    fun i j e e' he he' hname => ?_, fun name hname => ?_, fun name hname => ?_,
    fun k name hk => ?_, fun name hname => ?_⟩
  · rw [h.tabled.size_eq] at hi
    rw [h.tabled.entryAt, List.getElem?_eq_getElem hi]
    exact ⟨_, rfl⟩
  · have hi := hat i e he
    have hj := hat j e' he'
    have hsame := h.wellFormed.eq_of_name (List.mem_of_getElem? hi) (List.mem_of_getElem? hj) hname
    have h1 := h.wellFormed.id_eq i _ hi
    have h2 := h.wellFormed.id_eq j _ hj
    rw [hsame] at h1
    omega
  · obtain ⟨i, p, hi, hp, hid⟩ := hknown name hname
    refine ⟨i, (i, p), ?_, hp, hid⟩
    rw [h.tabled.entryAt, hi]
    rfl
  · rw [h.tabled.getProductId hn,
      getProductId_of_not_mem fun hmem => hname ((h.names_iff name).mp hmem)]
  · obtain ⟨i, p, hret, hi, rfl⟩ := h.returned_eq k name hk
    exact ⟨some i, hret, h.tabled.getProduct_known h.wellFormed hn hi⟩
  · obtain ⟨i, p, hi, hp, hid⟩ := hknown name hname
    refine ⟨i, hid, ?_⟩
    rw [h.tabled.getProductName hn hi, hp]

theorem keepsInStep_of_le {names : List Name} (hn : names.toFinset.card ≤ 2147483648) :
    KeepsInStep names := by
  have hafter : ∀ pre, pre <+: names → ∃ returned' memory' table' returned memory table,
      After pre returned' memory' table' ∧ After names returned memory table ∧
      table' <+: table := by
    rintro pre ⟨post, rfl⟩
    have hsub : pre.toFinset ⊆ (pre ++ post).toFinset := fun x hx => by
      rw [List.mem_toFinset] at hx ⊢
      exact List.mem_append_left _ hx
    obtain ⟨_, _, _, h1, -⟩ := after_nil.append pre ((Finset.card_le_card hsub).trans hn)
    obtain ⟨_, _, _, h2, hgrown⟩ := h1.append post hn
    exact ⟨_, _, _, _, _, _, h1, h2, hgrown⟩
  obtain ⟨_, _, _, returned, memory, table, -, hall, -⟩ := hafter names List.prefix_rfl
  refine ⟨returned, memory, hall.run, fun pre hpre => ?_⟩
  obtain ⟨returned', memory', table', _, _, table1, h1, h2, hgrown⟩ := hafter pre hpre
  obtain ⟨-, rfl⟩ := Prod.mk.inj (Except.ok.inj (hall.run.symm.trans h2.run))
  have hlen := h2.length_table
  have hle := hgrown.length_le
  refine ⟨returned', memory', h1.run, h1.inStep (by omega), fun i e he => ?_⟩
  rw [h1.tabled.entryAt] at he
  rw [h2.tabled.entryAt]
  obtain ⟨p, hp, rfl⟩ := Option.map_eq_some_iff.mp he
  rw [getElem?_extended hgrown hp]
  rfl

/-- The names before the one that makes them more than `n`. -/
theorem exists_split {n : ℕ} (names : List Name) : n < names.toFinset.card →
    ∃ pre name post, names = pre ++ name :: post ∧ name ∉ pre ∧ pre.toFinset.card = n := by
  induction names using List.reverseRecOn with
  | nil =>
    intro h
    exact absurd h (Nat.not_lt_zero n)
  | append_singleton init name ih =>
    intro h
    by_cases hinit : n < init.toFinset.card
    · obtain ⟨pre, x, post, hsplit, hx, hcard⟩ := ih hinit
      exact ⟨pre, x, post ++ [name], by rw [hsplit]; simp, hx, hcard⟩
    · rw [toFinset_concat] at h
      have hnew : name ∉ init.toFinset := fun hmem => by
        rw [Finset.insert_eq_of_mem hmem] at h
        exact hinit h
      rw [Finset.card_insert_of_notMem hnew] at h
      exact ⟨init, name, [], rfl, by rwa [List.mem_toFinset] at hnew, by omega⟩

/-- The product at position `2 ^ 31` gets a negative id. -/
theorem wrong_id {pre : List Name} {name : Name} (hcard : pre.toFinset.card = 2147483648)
    (hnew : name ∉ pre) : ∃ returned memory, requests (pre ++ [name]) = .ok (returned, memory) ∧
      entryAt memory 2147483648 = some (2147483648, { id := -2147483648, name := name }) := by
  obtain ⟨returned, memory, table, h, -⟩ := after_nil.append pre hcard.le
  rw [List.nil_append] at h
  have hlen : table.length = 2147483648 := h.length_table.trans hcard
  obtain ⟨memory', hget, htabled⟩ := h.tabled.getProduct_new hlen.le
    fun hmem => hnew ((h.names_iff name).mp hmem)
  have hid : toInt (2147483648 : ℕ) = -2147483648 := by decide +kernel
  have hlast : (table ++ [{ id := toInt table.length, name := name }])[2147483648]? =
      some { id := -2147483648, name := name } := by
    rw [← hlen, List.getElem?_concat_length, hlen, hid]
  refine ⟨_, memory', requests_concat h.run hget, ?_⟩
  rw [htabled.entryAt, hlast]
  rfl

theorem not_keepsInStep_of_lt {names : List Name} (hn : 2147483648 < names.toFinset.card) :
    ¬KeepsInStep names := by
  obtain ⟨pre, name, post, rfl, hnew, hcard⟩ := exists_split names hn
  rintro ⟨_, _, -, hpre⟩
  obtain ⟨_, memory, hrun, hstep, -⟩ := hpre (pre ++ [name]) ⟨post, by simp⟩
  obtain ⟨_, memory', hrun', hentry⟩ := wrong_id hcard hnew
  obtain ⟨-, rfl⟩ := Prod.mk.inj (Except.ok.inj (hrun.symm.trans hrun'))
  have hid : (-2147483648 : Int) = (2147483648 : ℕ) := hstep.id_eq _ _ hentry
  omega

/-- **Interning keeps ids and positions in step** for at most `2 ^ 31` different names. -/
theorem keepsInStep_iff (names : List Name) :
    KeepsInStep names ↔ names.toFinset.card ≤ 2147483648 := by
  constructor
  · intro h
    by_contra hlarge
    exact not_keepsInStep_of_lt (not_le.mp hlarge) h
  · exact keepsInStep_of_le

/-! ## Too many names -/

/-- The `n`-th name: its binary digits, written with two letters. -/
def nameOf (n : ℕ) : Name := (Nat.digits 2 n).map fun d => if d = 0 then 'a' else 'b'

theorem nameOf_injective : Function.Injective nameOf := by
  have hback : ∀ n, (nameOf n).map (fun c => if c = 'a' then 0 else 1) = Nat.digits 2 n := by
    intro n
    rw [nameOf, List.map_map]
    refine (List.map_congr_left fun d hd => ?_).trans (List.map_id _)
    have hlt := Nat.digits_lt_base (by decide) hd
    obtain rfl | rfl : d = 0 ∨ d = 1 := by omega
    · rfl
    · rfl
  intro m n h
  have hdigits := congrArg (List.map fun c => if c = 'a' then 0 else 1) h
  rw [hback, hback] at hdigits
  exact Nat.digits.injective 2 hdigits

theorem card_names (n : ℕ) : ((List.range n).map nameOf).toFinset.card = n := by
  rw [List.toFinset_card_of_nodup (List.nodup_range.map nameOf_injective), List.length_map,
    List.length_range]

/-- All of `2 ^ 31 + 1` names are new, and the last product is not found at its id. -/
theorem not_keepsInStep_names :
    ¬KeepsInStep ((List.range (2147483648 + 1)).map nameOf) ∧
      ∃ returned memory,
        requests ((List.range (2147483648 + 1)).map nameOf) = .ok (returned, memory) ∧
        entryAt memory 2147483648 =
          some (2147483648, { id := -2147483648, name := nameOf 2147483648 }) := by
  refine ⟨not_keepsInStep_of_lt ?_, ?_⟩
  · rw [card_names]
    exact Nat.lt_succ_self _
  · rw [List.range_succ, List.map_append, List.map_singleton]
    refine wrong_id (card_names _) fun hmem => ?_
    obtain ⟨m, hm, hname⟩ := List.mem_map.mp hmem
    rw [nameOf_injective hname] at hm
    exact absurd (List.mem_range.mp hm) (lt_irrefl _)

end PlaneSim.Heap
