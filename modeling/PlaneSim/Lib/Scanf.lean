import Mathlib.Data.List.Basic
import Mathlib.Data.Char

/-!
# The directives of `fscanf`

`scan` runs a format of white space, `%s` and `%d` directives over a stream of characters: the
items assigned, whether the input ended before a conversion, and what is left of the stream. A
`Char` stands for one byte of the input, so that a length is a number of bytes.

A text is a `Layout` of a list of tokens when it is their spellings with white space between them.
`tokScan` runs the same format over the tokens; `scan_layout` says that this is what `scan` does on
every layout of them. A reader of such texts can then be verified over tokens alone.
-/

namespace PlaneSim.Scanf

/-- `isspace` in the C locale. -/
def isSpace (c : Char) : Bool :=
  c = ' ' || c = '\n' || c = '\t' || c = '\r' || c = '\x0b' || c = '\x0c'

inductive Directive where
  | space
  | str
  | int
deriving DecidableEq, Repr

inductive Item where
  | str (s : List Char)
  | int (n : Int)
deriving DecidableEq, Repr

def skipSpace (cs : List Char) : List Char := cs.dropWhile isSpace

/-- The value of a string of decimal digits. -/
def digitsValue (ds : List Char) : ℕ := ds.foldl (fun n d => 10 * n + (d.toNat - '0'.toNat)) 0

def scanSign : List Char → Bool × List Char
  | '-' :: cs => (true, cs)
  | '+' :: cs => (false, cs)
  | cs => (false, cs)

/-- The longest prefix that reads as an integer; with no digit only the sign is consumed. -/
def scanInt (cs : List Char) : Option Int × List Char :=
  let (neg, rest) := scanSign cs
  match rest.takeWhile Char.isDigit with
  | [] => (none, rest)
  | d :: ds =>
    let n : Int := digitsValue (d :: ds)
    (some (if neg then -n else n), rest.dropWhile Char.isDigit)

/-- Items, end of input before a conversion, rest of the stream. -/
abbrev Scan (σ : Type) := List Item × Bool × List σ

def scan : List Directive → List Char → Scan Char
  | [], cs => ([], false, cs)
  | .space :: ds, cs => scan ds (skipSpace cs)
  | .str :: ds, cs =>
    match skipSpace cs with
    | [] => ([], true, [])
    | c :: cs =>
      let (items, eof, rest) := scan ds ((c :: cs).dropWhile (!isSpace ·))
      (.str ((c :: cs).takeWhile (!isSpace ·)) :: items, eof, rest)
  | .int :: ds, cs =>
    match skipSpace cs with
    | [] => ([], true, [])
    | c :: cs =>
      match scanInt (c :: cs) with
      | (none, rest) => ([], false, rest)
      | (some n, rest) =>
        let (items, eof, rest) := scan ds rest
        (.int n :: items, eof, rest)

/-! ## Tokens -/

inductive Token where
  | word (w : List Char)
  | num (n : Int)
deriving DecidableEq, Repr

/-- A word starts with a letter and has no white space in it. -/
def IsWord (w : List Char) : Prop :=
  (∃ c rest, w = c :: rest ∧ c.isAlpha) ∧ ∀ c ∈ w, isSpace c = false

/-- A numeral: digits after an optional sign. -/
def IsNumeral (cs : List Char) (n : Int) : Prop :=
  ∃ d ds, (∀ c ∈ d :: ds, c.isDigit) ∧
    ((cs = d :: ds ∧ n = digitsValue (d :: ds)) ∨ (cs = '+' :: d :: ds ∧ n = digitsValue (d :: ds)) ∨
      (cs = '-' :: d :: ds ∧ n = -digitsValue (d :: ds)))

def Spells : Token → List Char → Prop
  | .word w, cs => cs = w ∧ IsWord w
  | .num n, cs => IsNumeral cs n

/-- The end of the text, or white space. -/
def Boundary (cs : List Char) : Prop := ∀ c ∈ cs.head?, isSpace c

/-- The texts a list of tokens can be written as. -/
inductive Layout : List Token → List Char → Prop where
  | nil (ws : List Char) (space : ∀ c ∈ ws, isSpace c) : Layout [] ws
  | cons {t : Token} {ts : List Token} {w cs rest : List Char} (space : ∀ c ∈ w, isSpace c)
      (spells : Spells t cs) (boundary : Boundary rest) (tail : Layout ts rest) :
      Layout (t :: ts) (w ++ cs ++ rest)

/-- `scan` over tokens. Nothing is said about `%s` on a number. -/
def tokScan : List Directive → List Token → Option (Scan Token)
  | [], ts => some ([], false, ts)
  | .space :: ds, ts => tokScan ds ts
  | .str :: _, [] => some ([], true, [])
  | .str :: ds, .word w :: ts =>
    (tokScan ds ts).map fun (items, eof, rest) => (.str w :: items, eof, rest)
  | .str :: _, .num _ :: _ => none
  | .int :: _, [] => some ([], true, [])
  | .int :: ds, .num n :: ts =>
    (tokScan ds ts).map fun (items, eof, rest) => (.int n :: items, eof, rest)
  | .int :: _, .word w :: ts => some ([], false, .word w :: ts)

/-! ## White space -/

theorem skipSpace_append {ws : List Char} (cs : List Char) (h : ∀ c ∈ ws, isSpace c) :
    skipSpace (ws ++ cs) = skipSpace cs := by
  unfold skipSpace
  induction ws with
  | nil => rfl
  | cons w ws ih =>
    rw [List.cons_append, List.dropWhile_cons_of_pos (h w (by simp))]
    exact ih fun c hc => h c (by simp [hc])

theorem skipSpace_of_head {c : Char} {cs : List Char} (h : isSpace c = false) :
    skipSpace (c :: cs) = c :: cs := by
  unfold skipSpace
  rw [List.dropWhile_cons_of_neg (by simpa using h)]

theorem isSpace_of_isAlpha {c : Char} (h : c.isAlpha) : isSpace c = false := by
  have hne : ∀ d : Char, d.isAlpha = false → c ≠ d := by
    rintro d hd rfl
    rw [hd] at h
    cases h
  simp [isSpace, hne ' ' (by decide), hne '\n' (by decide), hne '\t' (by decide),
    hne '\r' (by decide), hne '\x0b' (by decide), hne '\x0c' (by decide)]

theorem isSpace_of_isDigit {c : Char} (h : c.isDigit) : isSpace c = false := by
  have hne : ∀ d : Char, d.isDigit = false → c ≠ d := by
    rintro d hd rfl
    rw [hd] at h
    cases h
  simp [isSpace, hne ' ' (by decide), hne '\n' (by decide), hne '\t' (by decide),
    hne '\r' (by decide), hne '\x0b' (by decide), hne '\x0c' (by decide)]

/-- A spelling starts with a character that is not white space. -/
theorem Spells.head {t : Token} {cs : List Char} (h : Spells t cs) :
    ∃ c rest, cs = c :: rest ∧ isSpace c = false := by
  cases t with
  | word w =>
    obtain ⟨rfl, ⟨c, rest, rfl, hc⟩, -⟩ := h
    exact ⟨c, rest, rfl, isSpace_of_isAlpha hc⟩
  | num n =>
    obtain ⟨d, ds, hd, ⟨rfl, -⟩ | ⟨rfl, -⟩ | ⟨rfl, -⟩⟩ := h
    · exact ⟨d, ds, rfl, isSpace_of_isDigit (hd d (by simp))⟩
    · exact ⟨'+', _, rfl, by decide⟩
    · exact ⟨'-', _, rfl, by decide⟩

/-- A token without white space before it. -/
theorem Layout.packed {t : Token} {ts : List Token} {cs rest : List Char} (spells : Spells t cs)
    (boundary : Boundary rest) (tail : Layout ts rest) : Layout (t :: ts) (cs ++ rest) :=
  Layout.cons (w := []) (by simp) spells boundary tail

/-- Skipping white space in a layout. -/
theorem Layout.skipSpace {ts : List Token} {cs : List Char} (h : Layout ts cs) :
    Layout ts (skipSpace cs) := by
  cases h with
  | nil ws space =>
    refine .nil _ ?_
    have := skipSpace_append [] space
    rw [List.append_nil] at this
    rw [this]
    simp [Scanf.skipSpace]
  | @cons t ts ws cs rest space spells boundary tail =>
    obtain ⟨c, r, rfl, hc⟩ := spells.head
    rw [List.append_assoc, skipSpace_append _ space, List.cons_append, skipSpace_of_head hc]
    exact .packed spells boundary tail

/-- The next token of a layout, after white space. -/
theorem Layout.next {t : Token} {ts : List Token} {cs : List Char} (h : Layout (t :: ts) cs) :
    ∃ w rest, Scanf.skipSpace cs = w ++ rest ∧ Spells t w ∧ Boundary rest ∧ Layout ts rest := by
  cases h with
  | @cons t ts ws w rest space spells boundary tail =>
    refine ⟨w, rest, ?_, spells, boundary, tail⟩
    obtain ⟨c, r, rfl, hc⟩ := spells.head
    rw [List.append_assoc, skipSpace_append _ space, List.cons_append, skipSpace_of_head hc]

theorem Layout.skipSpace_nil {cs : List Char} (h : Layout [] cs) : Scanf.skipSpace cs = [] := by
  cases h with
  | nil ws space =>
    have := skipSpace_append [] space
    rwa [List.append_nil] at this

/-- Every token takes at least one character. -/
theorem Layout.length_le {ts : List Token} {cs : List Char} (h : Layout ts cs) :
    ts.length ≤ cs.length := by
  induction h with
  | nil => simp
  | cons _ spells _ _ ih =>
    obtain ⟨c, r, rfl, -⟩ := spells.head
    simp only [List.length_cons, List.length_append]
    omega

/-- White space before a layout. -/
theorem Layout.space {c : Char} (hc : isSpace c) {ts : List Token} {cs : List Char}
    (h : Layout ts cs) : Layout ts (c :: cs) := by
  cases h with
  | nil ws hws => exact .nil _ (by simpa [hc] using hws)
  | @cons t ts w cs rest hw spells boundary tail =>
    exact .cons (w := c :: w) (by simpa [hc] using hw) spells boundary tail

/-- The text with one spelling a line. -/
def lines (pieces : List (Token × List Char)) : List Char :=
  pieces.flatMap fun p => p.2 ++ ['\n']

theorem layout_lines {p : List (Token × List Char)} (h : ∀ t ∈ p, Spells t.1 t.2) :
    Layout (p.map Prod.fst) (lines p) := by
  induction p with
  | nil => exact .nil [] (by simp)
  | cons p rest ih =>
    have htail := (ih fun q hq => h q (by simp [hq])).space (c := '\n') (by decide)
    have hnl : Boundary ('\n' :: lines rest) := by
      intro c hc
      cases hc
      decide
    rw [lines, List.flatMap_cons, List.append_assoc]
    exact .packed (h p (by simp)) hnl htail

/-- A spelling by digits alone. -/
theorem spells_digits {d : Char} {ds : List Char} (hdigit : (d :: ds).all Char.isDigit = true) :
    Spells (.num (digitsValue (d :: ds))) (d :: ds) :=
  ⟨d, ds, List.all_eq_true.mp hdigit, .inl ⟨rfl, rfl⟩⟩

/-! ## Conversions -/

theorem takeWhile_append_boundary {p : Char → Bool} {w rest : List Char} (hw : ∀ c ∈ w, p c)
    (hrest : ∀ c ∈ rest.head?, p c = false) :
    (w ++ rest).takeWhile p = w ∧ (w ++ rest).dropWhile p = rest := by
  have hstop : rest.takeWhile p = [] ∧ rest.dropWhile p = rest := by
    cases rest with
    | nil => exact ⟨rfl, rfl⟩
    | cons c cs =>
      have hc := hrest c (by simp)
      exact ⟨List.takeWhile_cons_of_neg (by simp [hc]), List.dropWhile_cons_of_neg (by simp [hc])⟩
  rw [List.takeWhile_append_of_pos hw, List.dropWhile_append_of_pos hw, hstop.1, hstop.2,
    List.append_nil]
  exact ⟨rfl, rfl⟩

theorem not_isDigit_of_isSpace {c : Char} (h : isSpace c) : c.isDigit = false := by
  by_contra hd
  rw [isSpace_of_isDigit (by simpa using hd)] at h
  cases h

/-- Reading a numeral. -/
theorem scanInt_numeral {w rest : List Char} {n : Int} (hw : IsNumeral w n)
    (hrest : Boundary rest) : scanInt (w ++ rest) = (some n, rest) := by
  obtain ⟨d, ds, hd, hcase⟩ := hw
  obtain ⟨htake, hdrop⟩ := takeWhile_append_boundary hd fun c hc =>
    not_isDigit_of_isSpace (hrest c hc)
  have hne : d ≠ '-' ∧ d ≠ '+' := by
    have := hd d (by simp)
    constructor <;> rintro rfl <;> exact absurd this (by decide)
  unfold scanInt
  rcases hcase with ⟨rfl, rfl⟩ | ⟨rfl, rfl⟩ | ⟨rfl, rfl⟩
  · have hsign : scanSign (d :: ds ++ rest) = (false, d :: ds ++ rest) := by
      rw [List.cons_append]
      unfold scanSign
      split <;> simp_all
    rw [hsign]
    dsimp only
    rw [htake, hdrop]
    rfl
  · rw [List.cons_append, scanSign]
    dsimp only
    rw [htake, hdrop]
    rfl
  · rw [List.cons_append, scanSign]
    dsimp only
    rw [htake, hdrop]
    rfl

/-- A word is not a number, and nothing of it is consumed. -/
theorem scanInt_word {w rest : List Char} (hw : IsWord w) :
    scanInt (w ++ rest) = (none, w ++ rest) := by
  obtain ⟨⟨c, r, rfl, hc⟩, -⟩ := hw
  have hne : ∀ d : Char, d.isAlpha = false → c ≠ d := by
    rintro d hd rfl
    rw [hd] at hc
    cases hc
  have hsign : scanSign (c :: r ++ rest) = (false, c :: r ++ rest) := by
    rw [List.cons_append]
    unfold scanSign
    split
    · rename_i heq; cases heq; exact absurd rfl (hne '-' (by decide))
    · rename_i heq; cases heq; exact absurd rfl (hne '+' (by decide))
    · rfl
  have hdig : c.isDigit = false := by
    by_contra hd
    rw [Bool.not_eq_false] at hd
    have halpha : (decide ('A'.val ≤ c.val ∧ c.val ≤ 'Z'.val) ||
        (decide ('a'.val ≤ c.val) && decide (c.val ≤ 'z'.val))) = true := hc
    have hdigit : (decide ('0'.val ≤ c.val) && decide (c.val ≤ '9'.val)) = true := hd
    simp only [Bool.and_eq_true, Bool.or_eq_true, decide_eq_true_eq] at halpha hdigit
    obtain ⟨h1, h2⟩ := hdigit
    rcases halpha with ⟨h3, h4⟩ | ⟨h3, h4⟩ <;>
      simp only [UInt32.le_iff_toNat_le] at h1 h2 h3 h4 <;> revert h1 h2 h3 h4 <;>
      simp <;> omega
  unfold scanInt
  rw [hsign]
  dsimp only
  rw [List.cons_append, List.takeWhile_cons_of_neg (by simp [hdig])]

/-- **Scanning a layout.** On a text laid out from tokens `scan` assigns what `tokScan` assigns, and
leaves a layout of the tokens it leaves. -/
theorem scan_layout :
    ∀ {ds : List Directive} {ts ts' : List Token} {cs : List Char} {items : List Item} {eof : Bool},
      Layout ts cs → tokScan ds ts = some (items, eof, ts') →
        ∃ cs', scan ds cs = (items, eof, cs') ∧ Layout ts' cs' := by
  intro ds
  induction ds with
  | nil =>
    intro ts ts' cs items eof hl ht
    cases ht
    exact ⟨cs, rfl, hl⟩
  | cons d ds ih =>
    intro ts ts' cs items eof hl ht
    cases d with
    | space => exact ih hl.skipSpace ht
    | str =>
      cases ts with
      | nil =>
        cases ht
        exact ⟨[], by rw [scan, hl.skipSpace_nil], .nil [] (by simp)⟩
      | cons t ts =>
        cases t with
        | num n => cases ht
        | word w =>
          obtain ⟨⟨items1, eof1, ts1⟩, hrec, heq⟩ := Option.map_eq_some_iff.mp ht
          cases heq
          obtain ⟨w', rest, hskip, ⟨rfl, hword⟩, hbound, htail⟩ := hl.next
          obtain ⟨cs', hscan, hl'⟩ := ih htail hrec
          obtain ⟨htake, hdrop⟩ := takeWhile_append_boundary (p := (!isSpace ·)) (w := w')
            (by simpa using hword.2) fun c hc => by simp [hbound c hc]
          obtain ⟨c, r, rfl, -⟩ := hword.1
          refine ⟨cs', ?_, hl'⟩
          rw [scan, hskip, List.cons_append]
          dsimp only
          rw [← List.cons_append, htake, hdrop, hscan]
    | int =>
      cases ts with
      | nil =>
        cases ht
        exact ⟨[], by rw [scan, hl.skipSpace_nil], .nil [] (by simp)⟩
      | cons t ts =>
        obtain ⟨w', rest, hskip, hspell, hbound, htail⟩ := hl.next
        obtain ⟨c, r, rfl, -⟩ := hspell.head
        cases t with
        | word w =>
          cases ht
          obtain ⟨heq, hword⟩ := hspell
          refine ⟨c :: r ++ rest, ?_, ?_⟩
          · rw [scan, hskip, List.cons_append]
            dsimp only
            rw [← List.cons_append, scanInt_word (heq ▸ hword)]
          · exact .packed ⟨heq, hword⟩ hbound htail
        | num n =>
          obtain ⟨⟨items1, eof1, ts1⟩, hrec, heq⟩ := Option.map_eq_some_iff.mp ht
          cases heq
          obtain ⟨cs', hscan, hl'⟩ := ih htail hrec
          refine ⟨cs', ?_, hl'⟩
          rw [scan, hskip, List.cons_append]
          dsimp only
          rw [← List.cons_append, scanInt_numeral hspell hbound]
          dsimp only
          rw [hscan]

end PlaneSim.Scanf
