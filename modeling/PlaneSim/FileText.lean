import PlaneSim.Parser
import Mathlib.Data.List.Induction

/-!
# Stock lists in a file

What the two file formats share. A file is read product name by product name, so the product table
is a function of the names asked for so far, repetitions included (`tableOf`); a name keeps its
product however many more are asked for (`productOf_append`). `readStocks_layout` is the stock loop
on a described list followed by the next header or by the end of the file.
-/

namespace PlaneSim

open Scanf CInt

/-! ## The table after a sequence of names -/

/-- The table when the names asked for were `seen`: each once, in order of first appearance. -/
def tableOf (seen : List Name) : List Product :=
  seen.eraseDups.mapIdx fun i name => { id := i, name := name }

/-- The product called `name` in that table. -/
def productOf (seen : List Name) (name : Name) : Product :=
  { id := seen.eraseDups.idxOf name, name := name }

/-- The stocks of a described list. -/
def stocksOf (seen : List Name) (list : List (Name × Int)) : List Stock :=
  list.map fun s => { amount := s.2, product := productOf seen s.1 }

theorem eraseDups_concat {α : Type} [BEq α] [LawfulBEq α] (l : List α) (a : α) :
    (l ++ [a]).eraseDups = if a ∈ l then l.eraseDups else l.eraseDups ++ [a] := by
  rw [List.eraseDups_append]
  unfold List.removeAll
  split_ifs with h <;> simp [h, List.eraseDups_cons]

theorem nodup_eraseDups {α : Type} [BEq α] [LawfulBEq α] (l : List α) : l.eraseDups.Nodup := by
  induction l using List.reverseRecOn with
  | nil => simp
  | append_singleton l a ih =>
    rw [eraseDups_concat]
    split_ifs with h
    · exact ih
    · exact List.Nodup.append ih (by simp) (by simpa [List.mem_eraseDups] using h)

theorem eraseDups_of_nodup {α : Type} [BEq α] [LawfulBEq α] {l : List α} (h : l.Nodup) :
    l.eraseDups = l := by
  induction l using List.reverseRecOn with
  | nil => simp
  | append_singleton l a ih =>
    obtain ⟨hl, -, ha⟩ := List.nodup_append.mp h
    rw [eraseDups_concat, if_neg (fun hm => ha a hm a (by simp) rfl), ih hl]

@[simp] theorem tableOf_map_name (seen : List Name) :
    (tableOf seen).map Product.name = seen.eraseDups := by
  refine List.ext_getElem? fun i => ?_
  simp only [tableOf, List.getElem?_map, List.getElem?_mapIdx, Option.map_map]
  cases seen.eraseDups[i]? <;> rfl

theorem wellFormed_tableOf (seen : List Name) : WellFormed (tableOf seen) := by
  refine ⟨fun i p hi => ?_, by rw [tableOf_map_name]; exact nodup_eraseDups seen⟩
  rw [tableOf, List.getElem?_mapIdx] at hi
  obtain ⟨name, -, rfl⟩ := Option.map_eq_some_iff.mp hi
  rfl

theorem mem_tableOf {seen : List Name} {name : Name} (h : name ∈ seen) :
    productOf seen name ∈ tableOf seen := by
  have hm : name ∈ seen.eraseDups := List.mem_eraseDups.mpr h
  refine List.mem_of_getElem? (i := seen.eraseDups.idxOf name) ?_
  rw [tableOf, List.getElem?_mapIdx, List.getElem?_eq_getElem (List.idxOf_lt_length_of_mem hm),
    List.getElem_idxOf]
  rfl

/-- A well-formed table is the table of its own names. -/
theorem WellFormed.eq_tableOf {products : List Product} (h : WellFormed products) :
    products = tableOf (products.map Product.name) := by
  refine List.ext_getElem? fun i => ?_
  rw [tableOf, eraseDups_of_nodup h.nodup, List.getElem?_mapIdx, List.getElem?_map]
  cases hi : products[i]? with
  | none => rfl
  | some p =>
    rw [Option.map_some, Option.map_some, ← h.id_eq i p hi]

theorem tableOf_prefix (seen more : List Name) : tableOf seen <+: tableOf (seen ++ more) := by
  unfold tableOf
  rw [List.eraseDups_append, List.mapIdx_append]
  exact List.prefix_append _ _

theorem productOf_append {seen : List Name} {name : Name} (h : name ∈ seen) (more : List Name) :
    productOf (seen ++ more) name = productOf seen name := by
  unfold productOf
  rw [List.eraseDups_append, List.idxOf_append_of_mem (List.mem_eraseDups.mpr h)]

theorem stocksOf_append {seen : List Name} {list : List (Name × Int)}
    (h : ∀ s ∈ list, s.1 ∈ seen) (more : List Name) :
    stocksOf (seen ++ more) list = stocksOf seen list :=
  List.map_congr_left fun s hs => by rw [productOf_append (h s hs)]

/-- One more name is asked for. -/
theorem getProduct_tableOf (seen : List Name) (name : Name) :
    getProduct name (tableOf seen) =
      some (productOf (seen ++ [name]) name, tableOf (seen ++ [name])) := by
  by_cases hn : name ∈ seen
  · have hg := getProduct_of_mem (wellFormed_tableOf seen) (mem_tableOf hn)
    have htable : tableOf (seen ++ [name]) = tableOf seen := by
      rw [tableOf, eraseDups_concat, if_pos hn, tableOf]
    rw [productOf_append hn, htable]
    exact hg
  · rw [getProduct_of_not_mem (by rwa [tableOf_map_name, List.mem_eraseDups])]
    have hlen : (tableOf seen).length = seen.eraseDups.length := by
      rw [← tableOf_map_name seen, List.length_map]
    have hidx : (seen.eraseDups ++ [name]).idxOf name = seen.eraseDups.length := by
      rw [List.idxOf_append_of_notMem (by rwa [List.mem_eraseDups])]
      simp
    rw [hlen]
    simp only [tableOf, productOf, eraseDups_concat, if_neg hn, hidx, List.mapIdx_append,
      List.mapIdx_cons, List.mapIdx_nil, Nat.zero_add]

theorem initStock_tableOf (seen : List Name) (name : Name) (amount : Int) :
    initStock name amount (tableOf seen) =
      some ({ amount := amount, product := productOf (seen ++ [name]) name },
        tableOf (seen ++ [name])) := by
  unfold initStock
  rw [getProduct_tableOf]
  rfl

/-! ## Tokens -/

/-- A name of the files: a word that fits a name buffer. -/
def IsName (name : Name) : Prop := IsWord name ∧ name.length < CITY_NAME_MAX_LENGTH

/-- A described stock list: the names and the amounts fit. -/
def IsStockList (list : List (Name × Int)) : Prop := ∀ s ∈ list, IsName s.1 ∧ Fits s.2

def stockTokens (list : List (Name × Int)) : List Token :=
  list.flatMap fun s => [.word s.1, .num s.2]

/-- What follows a header is a word, or the file ends. -/
def NoNumber (ts : List Token) : Prop := ∀ n rest, ts ≠ .num n :: rest

theorem fscanf_layout {ts : List Token} {cs : List Char} (format : List Directive)
    (items : List Item) (eof : Bool) (ts' : List Token) (hl : Layout ts cs)
    (ht : tokScan format ts = some (items, eof, ts'))
    (hitems : ∀ item ∈ items, checkItem item = .ok ()) :
    ∃ cs', fscanf format cs =
        .ok (if eof ∧ items = [] then -1 else items.length, items, cs') ∧ Layout ts' cs' := by
  obtain ⟨cs', hscan, hl'⟩ := scan_layout hl ht
  refine ⟨cs', ?_, hl'⟩
  have hcheck : items.forM checkItem = Except.ok () := by
    clear ht hscan
    induction items with
    | nil => rfl
    | cons item items ih =>
      show checkItem item >>= (fun _ => items.forM checkItem) = _
      rw [hitems item (by simp)]
      exact ih fun i hi => hitems i (by simp [hi])
  unfold fscanf
  rw [hscan]
  dsimp only
  rw [hcheck]
  rfl

theorem checkItem_name {name : Name} (h : IsName name) : checkItem (.str name) = .ok () :=
  if_pos h.2

theorem checkItem_int {n : Int} (h : Fits n) : checkItem (.int n) = .ok () :=
  if_pos h

/-- `"%s %d\n"` on a name and a number. -/
theorem fscanf_pair {name : Name} {n : Int} {t : List Token} {cs : List Char}
    (hl : Layout (.word name :: .num n :: t) cs) (hname : IsName name) (hn : Fits n) :
    ∃ cs', fscanf [.str, .space, .int, .space] cs = .ok (2, [.str name, .int n], cs') ∧
      Layout t cs' := by
  obtain ⟨cs', h, hl'⟩ := fscanf_layout [.str, .space, .int, .space]
    [.str name, .int n] false t hl rfl
    (by simpa using ⟨checkItem_name hname, checkItem_int hn⟩)
  exact ⟨cs', by simpa using h, hl'⟩

/-- `"%s %d\n"` runs into the next header. -/
theorem fscanf_header {name : Name} {ts : List Token} {cs : List Char}
    (hl : Layout (.word name :: ts) cs) (hname : IsName name) (hts : NoNumber ts) :
    ∃ cs', fscanf [.str, .space, .int, .space] cs = .ok (1, [.str name], cs') ∧
      Layout ts cs' := by
  have ht : ∃ eof, tokScan [.str, .space, .int, .space] (.word name :: ts) =
      some ([.str name], eof, ts) := by
    match ts with
    | [] => exact ⟨true, rfl⟩
    | .word w :: rest => exact ⟨false, rfl⟩
    | .num n :: rest => exact absurd rfl (hts n rest)
  obtain ⟨eof, ht⟩ := ht
  obtain ⟨cs', h, hl'⟩ := fscanf_layout _ _ _ _ hl ht (by simpa using checkItem_name hname)
  exact ⟨cs', by simpa using h, hl'⟩

/-- `"%s %d\n"` at the end of the file. -/
theorem fscanf_end {cs : List Char} (hl : Layout [] cs) :
    ∃ cs', fscanf [.str, .space, .int, .space] cs = .ok (-1, [], cs') ∧ Layout [] cs' := by
  obtain ⟨cs', h, hl'⟩ := fscanf_layout [.str, .space, .int, .space] [] true [] hl rfl
    (by simp)
  exact ⟨cs', by simpa using h, hl'⟩

/-- `"%s\n"` on a header. -/
theorem fscanf_name {name : Name} {ts : List Token} {cs : List Char}
    (hl : Layout (.word name :: ts) cs) (hname : IsName name) :
    ∃ cs', fscanf [.str, .space] cs = .ok (1, [.str name], cs') ∧ Layout ts cs' := by
  obtain ⟨cs', h, hl'⟩ := fscanf_layout [.str, .space] [.str name] false ts hl rfl
    (by simpa using checkItem_name hname)
  exact ⟨cs', by simpa using h, hl'⟩

/-! ## The stock loop -/

/-- The file ends, or a header comes next. -/
def AtHeader : List Token → Prop
  | [] => True
  | .word name :: ts => IsName name ∧ NoNumber ts
  | .num _ :: _ => False

/-- The result of the `fscanf` that ends the stock loop before these tokens. -/
def stopState (ts : List Token) : Int := if ts = [] then -1 else 1

/-- Where the stock loop stops: with the header in `buffer`, or at the end of the file with what
was in `buffer` before. -/
def Stopped (buffer : Option Name) : List Token → Reader → Prop
  | [], r => r.buffer = buffer ∧ Layout [] r.stream
  | .word name :: ts, r => r.buffer = some name ∧ Layout ts r.stream
  | .num _ :: _, _ => False

/-- The name left in `buffer` by a described list. -/
def lastName (buffer : Option Name) (list : List (Name × Int)) : Option Name :=
  ((list.map Prod.fst).getLast?).or buffer

/-- The `fscanf` that ends the loop. -/
theorem readStocks_stop (fuel : ℕ) {ts : List Token} {r : Reader} (vec : List Stock)
    (hts : AtHeader ts) (hl : Layout ts r.stream) :
    ∃ r', readStocks (fuel + 1) r vec = .ok (stopState ts, r', vec) ∧
      r'.products = r.products ∧ Stopped r.buffer ts r' := by
  match ts with
  | [] =>
    obtain ⟨cs', hscan, hl'⟩ := fscanf_end hl
    exact ⟨{ r with stream := cs' }, by rw [readStocks, hscan]; rfl, rfl, rfl, hl'⟩
  | .word name :: ts =>
    obtain ⟨cs', hscan, hl'⟩ := fscanf_header hl hts.1 hts.2
    exact ⟨{ r with stream := cs', buffer := some name }, by rw [readStocks, hscan]; rfl, rfl, rfl,
      hl'⟩

/-- **The stock loop.** The described stocks are read, in order, and the loop stops at the next
header or at the end of the file. -/
theorem readStocks_layout {list : List (Name × Int)} (hlist : IsStockList list) {ts : List Token}
    (hts : AtHeader ts) {fuel : ℕ} {seen : List Name} {r : Reader} {vec : List Stock}
    (hfuel : list.length < fuel) (htable : r.products = tableOf seen)
    (hl : Layout (stockTokens list ++ ts) r.stream) :
    ∃ r', readStocks fuel r vec =
        .ok (stopState ts, r', vec ++ stocksOf (seen ++ list.map Prod.fst) list) ∧
      r'.products = tableOf (seen ++ list.map Prod.fst) ∧
      Stopped (lastName r.buffer list) ts r' := by
  induction list generalizing fuel seen r vec with
  | nil =>
    obtain ⟨fuel, rfl⟩ : ∃ n, fuel = n + 1 := ⟨fuel - 1, by simp at hfuel; omega⟩
    obtain ⟨r', hread, hproducts, hstop⟩ := readStocks_stop fuel vec hts hl
    refine ⟨r', ?_, ?_, hstop⟩
    · simpa [stocksOf] using hread
    · simpa [htable] using hproducts
  | cons s list ih =>
    obtain ⟨fuel, rfl⟩ : ∃ n, fuel = n + 1 := ⟨fuel - 1, by simp at hfuel; omega⟩
    obtain ⟨name, amount⟩ := s
    obtain ⟨hname, hfits⟩ := hlist (name, amount) (by simp)
    obtain ⟨cs1, hscan, hl1⟩ := fscanf_pair (t := stockTokens list ++ ts) hl hname hfits
    have hstep : readStocks (fuel + 1) r vec = readStocks fuel
        { stream := cs1, buffer := some name, aux := some amount
          products := tableOf (seen ++ [name]) }
        (vec ++ [{ amount := amount, product := productOf (seen ++ [name]) name }]) := by
      rw [readStocks, hscan]
      simp only [bind, Except.bind, htable, initStock_tableOf]
    have hstocks : vec ++ [{ amount := amount, product := productOf (seen ++ [name]) name }] ++
        stocksOf (seen ++ [name] ++ list.map Prod.fst) list =
          vec ++ stocksOf (seen ++ ((name, amount) :: list).map Prod.fst) ((name, amount) :: list) := by
      rw [← productOf_append (by simp) (list.map Prod.fst)]
      simp [stocksOf]
    have hseen : seen ++ [name] ++ list.map Prod.fst =
        seen ++ ((name, amount) :: list).map Prod.fst := by simp
    have hlast : lastName (some name) list = lastName r.buffer ((name, amount) :: list) := by
      cases h : (list.map Prod.fst).getLast? <;> simp [lastName, h, List.getLast?_cons]
    obtain ⟨r', hread, hproducts, hstop⟩ :=
      @ih (fun s hs => hlist s (by simp [hs])) fuel (seen ++ [name])
        { stream := cs1, buffer := some name, aux := some amount
          products := tableOf (seen ++ [name]) }
        (vec ++ [{ amount := amount, product := productOf (seen ++ [name]) name }])
        (by simp at hfuel; omega) rfl hl1
    refine ⟨r', ?_, ?_, ?_⟩
    · rw [hstep, hread, hstocks]
    · rw [hproducts, hseen]
    · rw [← hlast]
      exact hstop

end PlaneSim
