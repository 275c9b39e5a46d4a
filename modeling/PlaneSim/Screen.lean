import PlaneSim.Curses
import PlaneSim.Statuses

/-!
# The screen

The layout of `run_output`: on which line a message is printed, and when the screen is erased; as a
`refresh` follows every message, the window is what there is to see. The window is that of ncurses,
a parameter (`Ncurses`) with what the manual says of blank lines (`Ncurses.Documented`); how a text
is spelled is left to it.

1. A line that was blank shows the one text that was printed on it since (`Ncurses.Holds`).
2. What is pushed to the display is one block for each turn: a report of every airline, then the
   map status (`Script`).
3. The screen shows the last block that is complete, and nothing older (`screen_shows`).
-/

namespace PlaneSim.Display

open Lts

/-! ## `run_output` -/

/-- A text on the screen, with what is filled in. -/
inductive Text where
  | turn (turn : ℕ)
  | completion (totalStockAmount currentStockAmount : Int)
  | satisfied (citiesSatisfied totalCities : ℕ)
  | turnEnded
  | airline (status : AirlineStatus)
  | over
  | ninja
deriving DecidableEq, Repr

def AIRLINE_INITIAL_LINE : Int := 6
def INITIAL_COLUMN : Int := 1
def TURN_LINE : Int := 2
def MAP_LINE_1 : Int := 3
def MAP_LINE_2 : Int := 4
def FINAL_LINE_1 : Int := 2
def FINAL_LINE_2 : Int := 3
def FINAL_LINE_3 : Int := 4

/-- The calls of ncurses, on windows `W`, and how their lines look (`L`). -/
structure Ncurses (W L : Type*) where
  initscr : W
  erase : W → W
  /-- Row, column and text. -/
  mvprintw : W → Int → Int → Text → W
  LINES : ℕ
  line : W → Int → L
  blank : L
  /-- A blank line with a text on it, from a column on. -/
  look : Int → Text → L
  /-- From this column of the window on, the text ends in front of the right margin. -/
  fits : Int → Text → Prop

structure Screen (W : Type*) where
  window : W
  maxLine : Int
  firstOfTurn : Bool

section Screen

variable {W L : Type*} (T : Ncurses W L)

/-- The rows of the window. -/
def Ncurses.Inside (row : Int) : Prop := 0 ≤ row ∧ row < T.LINES

instance (row : Int) : Decidable (T.Inside row) := inferInstanceAs (Decidable (_ ∧ _))

/-- What the manual says. A row outside the window is refused by `mvprintw`. -/
structure Ncurses.Documented : Prop where
  erase_line : ∀ window row, T.Inside row → T.line (T.erase window) row = T.blank
  mvprintw_line : ∀ window row column text, T.Inside row → T.fits column text →
    T.line window row = T.blank →
    T.line (T.mvprintw window row column text) row = T.look column text
  mvprintw_other : ∀ window row column text other, T.Inside other → other ≠ row →
    T.fits column text →
    T.line (T.mvprintw window row column text) other = T.line window other

def Screen.init : Screen W where
  window := T.initscr
  maxLine := AIRLINE_INITIAL_LINE
  firstOfTurn := true

def Screen.mvprintw (screen : Screen W) (row : Int) (text : Text) : Screen W :=
  { screen with window := T.mvprintw screen.window row INITIAL_COLUMN text }

def Screen.erase (screen : Screen W) : Screen W := { screen with window := T.erase screen.window }

/-- What `run_output` does with a map status. -/
def Screen.mapStatus (wait : Bool) (turn : ℕ) (screen : Screen W) (status : MapStatus) :
    Screen W :=
  let screen := { screen.mvprintw T TURN_LINE (.turn turn) with firstOfTurn := true }
  let screen := screen.mvprintw T MAP_LINE_1
    (.completion status.totalStockAmount status.currentStockAmount)
  let screen := screen.mvprintw T MAP_LINE_2 (.satisfied status.citiesSatisfied status.totalCities)
  if wait then screen.mvprintw T (screen.maxLine + FINAL_LINE_1) .turnEnded else screen

/-- What it does with the status of an airline. -/
def Screen.airlineStatus (screen : Screen W) (status : AirlineStatus) : Screen W :=
  let screen := if screen.firstOfTurn then { screen.erase T with firstOfTurn := false } else screen
  let curLine := AIRLINE_INITIAL_LINE + status.id
  let screen := if curLine > screen.maxLine then { screen with maxLine := curLine } else screen
  screen.mvprintw T curLine (.airline status)

/-- The iteration of its loop for a message, and what comes after the loop. -/
def Screen.display (wait : Bool) (turn : ℕ) (screen : Screen W) : OutputMessage → Screen W
  | .mapStatus status => screen.mapStatus T wait turn status
  | .airlineStatus status => screen.airlineStatus T status
  | .endOutput =>
    (screen.mvprintw T (screen.maxLine + FINAL_LINE_2) .over).mvprintw T
      (screen.maxLine + FINAL_LINE_3) .ninja

/-- The curses build with its screen. -/
structure View (W : Type*) where
  state : State
  screen : Screen W

def View.init (map : Map) (airlines : List Airline) : View W where
  state := Display.init map airlines
  screen := .init T

/-- The message the output thread takes. -/
def popped (s : State) : Action → Option OutputMessage
  | .output => if s.output = .pop then s.queue.head? else none
  | _ => none

def viewStep (cfg : Config) (wait : Bool) (v : View W) (a : Action) :
    Option (List Event × View W) :=
  (reliableStep cfg wait v.state a).map fun (es, s) =>
    (es, { state := s
           screen := match popped v.state a with
             | some msg => v.screen.display T wait v.state.turn msg
             | none => v.screen })

end Screen

/-! ## Lines -/

section Lines

variable {W L : Type*} {T : Ncurses W L} {window : W} {row : Int} {text : Text} {texts : List Text}

/-- The line of `row` after the printing of `texts` on a blank one, the last text first. What a text
over another one looks like is not said. -/
def Ncurses.Holds (T : Ncurses W L) (window : W) (row : Int) : List Text → Prop
  | [] => T.line window row = T.blank
  | [text] => T.line window row = T.look INITIAL_COLUMN text
  | _ => True

theorem Ncurses.holds_of_line_eq {window' : W} (h : T.Holds window row texts)
    (hline : T.line window' row = T.line window row) : T.Holds window' row texts := by
  rcases texts with _ | ⟨text, _ | ⟨text', texts⟩⟩
  · exact hline.trans h
  · exact hline.trans h
  · trivial

theorem Ncurses.Documented.mvprintw (hT : T.Documented) (hfits : T.fits INITIAL_COLUMN text)
    (hrow : T.Inside row) (h : T.Holds window row texts) (at_ : Int) :
    T.Holds (T.mvprintw window at_ INITIAL_COLUMN text) row
      (if row = at_ then text :: texts else texts) := by
  by_cases hat : row = at_
  · subst hat
    rw [if_pos rfl]
    cases texts with
    | nil => exact hT.mvprintw_line window row INITIAL_COLUMN text hrow hfits h
    | cons text' texts => trivial
  · rw [if_neg hat]
    exact holds_of_line_eq h (hT.mvprintw_other window at_ INITIAL_COLUMN text row hrow hat hfits)

end Lines

/-! ## Blocks of messages -/

/-- What is sent to the display for one turn. -/
abbrev Block := List AirlineStatus × MapStatus

def Block.messages (block : Block) : List OutputMessage :=
  block.1.map .airlineStatus ++ [.mapStatus block.2]

/-- One status of each of the `n` airlines, in any order. -/
structure Page (n : ℕ) (statuses : List AirlineStatus) : Prop where
  one : ∀ a < n, ∃ status, (statuses.filter fun status => status.id = (a : Int)) = [status]
  known : ∀ status ∈ statuses, ∃ a < n, status.id = (a : Int)

section Blocks

variable {turns done : List Block} {part cur : List AirlineStatus} {rest tail : List OutputMessage}

/-- The map status after some statuses of airlines is found again. -/
theorem block_unique {m m' : MapStatus} {rest' : List OutputMessage}
    (h : cur.map .airlineStatus ++ .mapStatus m :: rest =
      part.map .airlineStatus ++ .mapStatus m' :: rest') : cur = part ∧ m = m' ∧ rest = rest' := by
  induction cur generalizing part with
  | nil =>
    cases part with
    | nil =>
      cases h
      exact ⟨rfl, rfl, rfl⟩
    | cons status part => cases h
  | cons status cur ih =>
    cases part with
    | nil => cases h
    | cons status' part =>
      obtain ⟨hhead, htail⟩ := List.cons_eq_cons.mp h
      cases hhead
      obtain ⟨rfl, hm, hrest⟩ := ih htail
      exact ⟨rfl, hm, hrest⟩

/-- The blocks read are the first of those written. -/
theorem prefix_of_blocks (htail : ∀ m, .mapStatus m ∉ tail)
    (h : done.flatMap Block.messages ++ rest =
      turns.flatMap Block.messages ++ (part.map .airlineStatus ++ tail)) : done <+: turns := by
  induction done generalizing turns with
  | nil => exact List.nil_prefix
  | cons block done ih =>
    cases turns with
    | nil =>
      have hmem : OutputMessage.mapStatus block.2 ∈
          part.map OutputMessage.airlineStatus ++ tail := by
        have heq : _ = part.map OutputMessage.airlineStatus ++ tail := h
        rw [← heq]
        simp [Block.messages]
      rcases List.mem_append.mp hmem with hmem | hmem
      · simp at hmem
      · exact absurd hmem (htail _)
    | cons block' turns =>
      simp only [List.flatMap_cons, Block.messages, List.append_assoc, List.singleton_append] at h
      obtain ⟨hstatuses, hmap, hrest⟩ := block_unique h
      rw [show block = block' from Prod.ext hstatuses hmap]
      exact List.prefix_cons_inj block' |>.mpr (ih hrest)

/-- The status of an airline in a block is found by counting its statuses. -/
theorem status_of_pages {n a t : ℕ} {block : Block} (h : ∀ block ∈ turns, Page n block.1)
    (ha : a < n) (ht : turns[t]? = some block) :
    ((turns.flatMap Prod.fst).filter fun status => status.id = (a : Int))[t]? =
      (block.1.filter fun status => status.id = (a : Int))[0]? := by
  induction turns generalizing t with
  | nil => cases ht
  | cons block' turns ih =>
    obtain ⟨status, hone⟩ := (h block' List.mem_cons_self).one a ha
    rw [List.flatMap_cons, List.filter_append, hone, List.singleton_append]
    cases t with
    | zero =>
      cases ht
      rw [hone]
      rfl
    | succ t =>
      rw [List.getElem?_cons_succ]
      exact ih (fun block hblock => h block (List.mem_cons_of_mem _ hblock)) ht

theorem length_of_pages {n a : ℕ} (h : ∀ block ∈ turns, Page n block.1) (ha : a < n) :
    ((turns.flatMap Prod.fst).filter fun status => status.id = (a : Int)).length =
      turns.length := by
  induction turns with
  | nil => rfl
  | cons block turns ih =>
    obtain ⟨status, hone⟩ := (h block List.mem_cons_self).one a ha
    rw [List.flatMap_cons, List.filter_append, hone, List.length_append,
      ih fun block hblock => h block (List.mem_cons_of_mem _ hblock), List.length_singleton,
      List.length_cons, Nat.add_comm]

end Blocks

/-! ## What is drawn -/

section Drawn

variable {W L : Type*}

/-- The statuses printed on a line. -/
def printed (statuses : List AirlineStatus) (row : Int) : List Text :=
  ((statuses.filter fun status => AIRLINE_INITIAL_LINE + status.id = row).map .airline).reverse

/-- What the map status adds. -/
def heading (wait : Bool) (n turn : ℕ) (status : MapStatus) (row : Int) : List Text :=
  if row = 2 then [.turn turn]
  else if row = 3 then [.completion status.totalStockAmount status.currentStockAmount]
  else if row = 4 then [.satisfied status.citiesSatisfied status.totalCities]
  else if row = n + 7 ∧ wait = true then [.turnEnded]
  else []

/-- The texts of a map status end in front of the right margin. -/
structure StatusFits (T : Ncurses W L) (turn : ℕ) (status : MapStatus) : Prop where
  turn : T.fits INITIAL_COLUMN (.turn turn)
  completion : T.fits INITIAL_COLUMN
    (.completion status.totalStockAmount status.currentStockAmount)
  satisfied : T.fits INITIAL_COLUMN (.satisfied status.citiesSatisfied status.totalCities)
  turnEnded : T.fits INITIAL_COLUMN .turnEnded

/-- The screen after the blocks `done` and the statuses `cur` of the next. -/
structure Drawn (T : Ncurses W L) (wait : Bool) (n : ℕ) (screen : Screen W) (done : List Block)
    (cur : List AirlineStatus) : Prop where
  first : screen.firstOfTurn = decide (cur = [])
  least : 6 ≤ screen.maxLine
  most : screen.maxLine ≤ n + 5
  top : ∀ status ∈ cur, 6 + status.id ≤ screen.maxLine
  partly : cur ≠ [] → ∀ row, T.Inside row → T.Holds screen.window row (printed cur row)
  page : cur = [] → ∀ block, done.getLast? = some block → ∀ row, T.Inside row →
    T.Holds screen.window row (heading wait n (done.length - 1) block.2 row ++ printed block.1 row)

variable {T : Ncurses W L} {wait : Bool} {n : ℕ} {screen : Screen W} {done : List Block}
  {cur : List AirlineStatus}

theorem printed_append (cur : List AirlineStatus) (status : AirlineStatus) (row : Int) :
    printed (cur ++ [status]) row =
      if row = 6 + status.id then .airline status :: printed cur row else printed cur row := by
  unfold printed AIRLINE_INITIAL_LINE
  by_cases hrow : row = 6 + status.id
  · simp [hrow]
  · simp [hrow, Ne.symm hrow]

theorem printed_of_not_mem {row : Int} (h : ∀ status ∈ cur, row ≠ 6 + status.id) :
    printed cur row = [] := by
  unfold printed AIRLINE_INITIAL_LINE
  rw [List.filter_eq_nil_iff.mpr]
  · rfl
  · intro status hstatus
    simpa using Ne.symm (h status hstatus)

theorem drawn_init (hn : 1 ≤ n) : Drawn T wait n (.init T) [] [] where
  first := rfl
  least := le_rfl
  most := by
    show (6 : Int) ≤ n + 5
    omega
  top status h := by cases h
  partly h := absurd rfl h
  page _ block h := by cases h

/-- A status is printed on the line of its airline, the first one after an erase. -/
theorem airlineStatus_spec (hT : T.Documented) (screen : Screen W) (status : AirlineStatus)
    (hfits : T.fits INITIAL_COLUMN (.airline status)) :
    (screen.airlineStatus T status).firstOfTurn = false ∧
      (screen.airlineStatus T status).maxLine = max screen.maxLine (6 + status.id) ∧
      ∀ row texts, T.Inside row →
        (screen.firstOfTurn = true → texts = []) →
        (screen.firstOfTurn = false → T.Holds screen.window row texts) →
        T.Holds (screen.airlineStatus T status).window row
          (if row = 6 + status.id then .airline status :: texts else texts) := by
  have hmax : max screen.maxLine (6 + status.id) =
      if 6 + status.id > screen.maxLine then 6 + status.id else screen.maxLine := by
    split_ifs with hgt
    · exact max_eq_right hgt.le
    · exact max_eq_left (not_lt.mp hgt)
  have hline : (screen.airlineStatus T status).window =
      T.mvprintw (if screen.firstOfTurn then T.erase screen.window else screen.window)
        (6 + status.id) INITIAL_COLUMN (.airline status) := by
    unfold Screen.airlineStatus Screen.mvprintw Screen.erase AIRLINE_INITIAL_LINE
    cases screen.firstOfTurn <;> dsimp only <;> split_ifs <;> rfl
  refine ⟨?_, ?_, fun row texts hrow hnone hsome => ?_⟩
  · unfold Screen.airlineStatus Screen.mvprintw Screen.erase
    cases hfirst : screen.firstOfTurn with
    | true =>
      simp only [if_true]
      split_ifs <;> rfl
    | false =>
      simp only [Bool.false_eq_true, if_false]
      split_ifs <;> exact hfirst
  · rw [hmax]
    unfold Screen.airlineStatus Screen.mvprintw Screen.erase AIRLINE_INITIAL_LINE
    cases screen.firstOfTurn <;> dsimp only <;> split_ifs <;> rfl
  · rw [hline]
    refine hT.mvprintw hfits hrow ?_ _
    cases hfirst : screen.firstOfTurn with
    | true =>
      rw [hnone hfirst]
      exact hT.erase_line screen.window row hrow
    | false => exact hsome hfirst

theorem Drawn.airlineStatus (hT : T.Documented) {status : AirlineStatus}
    (h : Drawn T wait n screen done cur) (hid : ∃ a < n, status.id = (a : Int))
    (hfits : T.fits INITIAL_COLUMN (.airline status)) :
    Drawn T wait n (screen.airlineStatus T status) done (cur ++ [status]) := by
  obtain ⟨a, ha, hid⟩ := hid
  obtain ⟨hfirst, hmax, hlines⟩ := airlineStatus_spec hT screen status hfits
  have hleast := h.least
  have hmost := h.most
  refine ⟨by simp [hfirst], by omega, by omega, fun other hother => ?_, fun _ row hrow => ?_,
    fun hnil => by simp at hnil⟩
  · rcases List.mem_append.mp hother with hother | hother
    · have := h.top other hother
      omega
    · rw [List.mem_singleton.mp hother]
      omega
  · rw [printed_append]
    refine hlines row _ hrow (fun hcur => ?_) fun hcur => ?_
    · rw [h.first, decide_eq_true_eq] at hcur
      rw [hcur]
      rfl
    · rw [h.first, decide_eq_false_iff_not] at hcur
      exact h.partly hcur row hrow

/-- A map status is printed over what is there. -/
theorem mapStatus_spec (hT : T.Documented) (wait : Bool) (turn : ℕ) (screen : Screen W)
    (m : MapStatus) (hleast : 6 ≤ screen.maxLine) (hfits : StatusFits T turn m) :
    (screen.mapStatus T wait turn m).firstOfTurn = true ∧
      (screen.mapStatus T wait turn m).maxLine = screen.maxLine ∧
      ∀ row texts, T.Inside row → T.Holds screen.window row texts →
        T.Holds (screen.mapStatus T wait turn m).window row
          ((if row = 2 then [.turn turn]
          else if row = 3 then [.completion m.totalStockAmount m.currentStockAmount]
          else if row = 4 then [.satisfied m.citiesSatisfied m.totalCities]
          else if row = screen.maxLine + 2 ∧ wait = true then [.turnEnded]
          else []) ++ texts) := by
  unfold Screen.mapStatus Screen.mvprintw TURN_LINE MAP_LINE_1 MAP_LINE_2 FINAL_LINE_1
  cases wait with
  | true =>
    refine ⟨rfl, rfl, fun row texts hrow h => ?_⟩
    have hdrawn := hT.mvprintw hfits.turnEnded hrow (hT.mvprintw hfits.satisfied hrow
      (hT.mvprintw hfits.completion hrow (hT.mvprintw hfits.turn hrow h 2) 3) 4)
      (screen.maxLine + 2)
    refine (congrArg (T.Holds _ row) ?_).mpr hdrawn
    simp only [and_true]
    split_ifs <;> first | rfl | omega
  | false =>
    refine ⟨rfl, rfl, fun row texts hrow h => ?_⟩
    have hdrawn := hT.mvprintw hfits.satisfied hrow
      (hT.mvprintw hfits.completion hrow (hT.mvprintw hfits.turn hrow h 2) 3) 4
    refine (congrArg (T.Holds _ row) ?_).mpr hdrawn
    simp only [Bool.false_eq_true, and_false, if_false]
    split_ifs <;> first | rfl | omega

theorem Drawn.mapStatus (hT : T.Documented) {m : MapStatus} (h : Drawn T wait n screen done cur)
    (hn : 1 ≤ n) (hpage : Page n cur) (hfits : StatusFits T done.length m) :
    Drawn T wait n (screen.mapStatus T wait done.length m) (done ++ [(cur, m)]) [] := by
  have hleast := h.least
  obtain ⟨hfirst, hmax, hlines⟩ := mapStatus_spec hT wait done.length screen m hleast hfits
  obtain ⟨last, hlast⟩ := hpage.one (n - 1) (by omega)
  have hmem : last ∈ cur ∧ last.id = ((n - 1 : ℕ) : Int) := by
    have : last ∈ cur.filter fun status => status.id = ((n - 1 : ℕ) : Int) := by simp [hlast]
    simpa using List.mem_filter.mp this
  have hcur : cur ≠ [] := List.ne_nil_of_mem hmem.1
  have htop := h.top last hmem.1
  have hmost := h.most
  have hmaxLine : screen.maxLine = n + 5 := by omega
  refine ⟨by simp [hfirst], by omega, by omega, fun _ hnone => (by cases hnone),
    fun hne => absurd rfl hne, fun _ block hblock row hrow => ?_⟩
  rw [List.getLast?_concat] at hblock
  cases hblock
  have hafter : ((n : Int) + 5 + 2) = n + 7 := by omega
  have hholds := hlines row _ hrow (h.partly hcur row hrow)
  rw [hmaxLine, hafter] at hholds
  rw [List.length_append, List.length_singleton, Nat.add_sub_cancel, heading]
  exact hholds

end Drawn

/-! ## What is sent -/

section Sent

variable {W L : Type*} {T : Ncurses W L} {cfg : Config} {wait : Bool} {map : Map}
  {airlines : List Airline} {v v' : View W} {s s' : State} {sys : System} {tr es : List Event}

/-- A step of `runMap` sends the status it has received, or the map status after the last one. -/
inductive Sends (s : State) (es : List PlaneSim.Event) (msgs : List OutputMessage) : Prop where
  | nothing (msgs_eq : msgs = []) (takes_eq : takes es = [])
  | status (status : AirlineStatus) (i : ℕ) (pc : s.sys.pc = .recv .two i)
      (msgs_eq : msgs = [.airlineStatus status])
      (takes_eq : takes es = [status])
  | last (status : MapStatus) (pc : s.sys.pc = .recv .two s.sys.airlines.length)
      (msgs_eq : msgs = [.mapStatus status]) (takes_eq : takes es = [])

theorem sends_step {es : List PlaneSim.Event}
    (hstep : PlaneSim.step cfg s.sys .map = some (es, sys))
    (hhandled : ∀ ph got acted, .receive ph got acted ∈ es →
      ∃ msg, got = some msg ∧ acted = some msg ∧ handled ph msg = true) :
    Sends s es (reports s .map) := by
  have hother : (∀ ph i, s.sys.pc ≠ .recv ph i) → Sends s es (reports s .map) := by
    intro hpc
    refine .nothing (reports_of_not_recv fun i => hpc .two i) ?_
    cases mapMove_of_mapStep hstep with
    | receive hrecv _ => exact absurd hrecv (hpc _ _)
    | lost _ | turn _ | leave _ | start _ _ | listen _ _ | next _ | reply _ _ | finish _ _
    | halt _ => rfl
  cases hpc : s.sys.pc with
  | recv phase i =>
    simp only [PlaneSim.step, PlaneSim.mapStep, hpc] at hstep
    split_ifs at hstep with hi
    · cases hstep
      cases phase with
      | one => exact .nothing (reports_of_not_recv (by simp [hpc])) rfl
      | two => exact .last _ (hi ▸ hpc) (by simp only [reports, hpc, if_pos hi]; rfl) rfl
    · split at hstep
      · cases hstep
      · rename_i sender msg inbox hinbox
        cases hstep
        obtain ⟨msg', hgot, -, hhandled⟩ := hhandled _ _ _ List.mem_cons_self
        cases hgot
        cases phase with
        | one =>
          refine .nothing (reports_of_not_recv (by simp [hpc])) ?_
          rw [takes_receive]
          cases msg <;> first | rfl | cases hhandled
        | two =>
          have hreceived : received s.sys .map = some msg := by simp [received, hinbox]
          cases msg with
          | airlineStatus status =>
            refine .status status i hpc ?_ (takes_receive _)
            simp only [reports, hpc, if_neg hi, hreceived]
          | _ =>
            refine .nothing ?_ (takes_receive _)
            simp only [reports, hpc, if_neg hi, hreceived]
  | _ => exact hother (by simp [hpc])

/-- What the map thread still has to push. -/
def CursesPc.owed : CursesPc → List OutputMessage
  | .push msgs => msgs
  | .endOutput => [.endOutput]
  | _ => []

/-- What was sent is a block for every turn, and the statuses of the turn in progress. -/
structure Script (n : ℕ) (first : List AirlineStatus) (tr : List PlaneSim.Event) (sys : System)
    (turns : List Block) (part : List AirlineStatus) : Prop where
  pages : ∀ block ∈ turns, Page n block.1
  all : turns.flatMap Prod.fst ++ part = first ++ takes tr
  length : turns.length + inTurn sys.pc = sys.turn + 1

/-- Every airline has reported in this turn: the block is complete. -/
theorem Script.page {turns : List Block} {part first : List AirlineStatus}
    {tr : List PlaneSim.Event} (h : Script airlines.length first tr sys turns part)
    (hsetup : Setup map airlines) (hlist : Listing map) (hfirst : Page airlines.length first)
    (hrun : Run (PlaneSim.reliableStep cfg) (System.init map airlines) tr sys)
    (hpc : sys.pc = .recv .two sys.airlines.length) : Page airlines.length part where
  one a ha := by
    have hlen := (within_run hrun).2
    obtain ⟨htakes, hturn⟩ := takes_of_counted hsetup hlist hrun hpc (hlen.symm ▸ ha)
    obtain ⟨status, hone⟩ := hfirst.one a ha
    have hall := congrArg (fun l => (l.filter fun status => status.id = (a : Int)).length) h.all
    have hturns := h.length
    simp only [List.filter_append, List.length_append, hone, htakes, hturn,
      length_of_pages h.pages ha, List.length_singleton] at hall
    rw [hpc] at hturns
    simp only [inTurn] at hturns
    exact List.length_eq_one_iff.mp (by omega)
  known status hstatus := by
    have hmem : status ∈ first ++ takes tr := by
      rw [← h.all]
      exact List.mem_append_right _ hstatus
    rcases List.mem_append.mp hmem with hmem | hmem
    · exact hfirst.known status hmem
    · exact takes_known hsetup hlist hrun status hmem

/-- The map statuses displayed are those of the blocks. -/
def Displayed (tr : List Event) (done : List Block) : Prop :=
  (displays tr).map Prod.snd = done.map Prod.snd

theorem Displayed.idle {done : List Block} (h : Displayed tr done) (hes : displays es = []) :
    Displayed (tr ++ es) done := by
  unfold Displayed
  rw [displays_append, hes, List.append_nil]
  exact h

/-- The texts of a run end in front of the right margin. -/
structure RunFits (T : Ncurses W L) (first : List AirlineStatus) (tr : List Event) : Prop where
  status : ∀ turn status, .displayed turn status ∈ tr → StatusFits T turn status
  airline : ∀ status ∈ first ++ takes (tr.filterMap Event.system?),
    T.fits INITIAL_COLUMN (.airline status)

theorem RunFits.of_append {first : List AirlineStatus} (h : RunFits T first (tr ++ es)) :
    RunFits T first tr where
  status turn status hst := h.status turn status (List.mem_append_left _ hst)
  airline status hst := h.airline status (by
    rw [List.filterMap_append, takes_append, ← List.append_assoc]
    exact List.mem_append_left _ hst)

/-- The output thread has read the blocks `done` and the statuses `cur`. -/
structure Shows (T : Ncurses W L) (wait : Bool) (n : ℕ) (first : List AirlineStatus)
    (tr : List Event) (v : View W) (turns done : List Block) (part cur : List AirlineStatus)
    (tail : List OutputMessage) : Prop where
  script : Script n first (tr.filterMap Event.system?) v.state.sys turns part
  ending : tail = [] ∨ tail = [.endOutput] ∧ returned v.state.sys.pc = true
  link : v.state.output.showing = true →
    done.flatMap Block.messages ++ (cur.map .airlineStatus ++ (v.state.queue ++ v.state.pc.owed)) =
      turns.flatMap Block.messages ++ (part.map .airlineStatus ++ tail)
  drawn : v.state.output.showing = true → Drawn T wait n v.screen done cur
  turn : v.state.turn = done.length
  shown : v.state.output = .shown → cur = []
  displayed : Displayed tr done

theorem Shows.ending_nil {n : ℕ} {first part cur : List AirlineStatus} {turns done : List Block}
    {tail : List OutputMessage} (h : Shows T wait n first tr v turns done part cur tail)
    (hret : returned v.state.sys.pc = false) : tail = [] := by
  refine h.ending.resolve_right fun ⟨_, hover⟩ => ?_
  rw [hret] at hover
  cases hover

/-- A step of the other threads: what is sent changes, what is shown does not. -/
theorem Shows.write {n : ℕ} {first part part' cur : List AirlineStatus}
    {turns turns' done : List Block} {tail tail' : List OutputMessage}
    (h : Shows T wait n first tr v turns done part cur tail) (extra : List OutputMessage)
    (hscript : Script n first ((tr ++ es).filterMap Event.system?) s'.sys turns' part')
    (htail : tail' = [] ∨ tail' = [.endOutput] ∧ returned s'.sys.pc = true)
    (hqueue : s'.queue ++ s'.pc.owed = v.state.queue ++ v.state.pc.owed ++ extra)
    (hmessages : turns'.flatMap Block.messages ++ (part'.map .airlineStatus ++ tail') =
      turns.flatMap Block.messages ++ (part.map .airlineStatus ++ tail) ++ extra)
    (hout : s'.output = v.state.output) (hturn : s'.turn = v.state.turn)
    (hdisplays : displays es = []) :
    Shows T wait n first (tr ++ es) ⟨s', v.screen⟩ turns' done part' cur tail' where
  script := hscript
  ending := htail
  link hshowing := by
    have hlink := h.link (hout ▸ hshowing)
    show _ ++ (_ ++ (s'.queue ++ s'.pc.owed)) = _
    rw [hqueue, hmessages, ← hlink]
    simp only [List.append_assoc]
  drawn hshowing := h.drawn (hout ▸ hshowing)
  turn := hturn.trans h.turn
  shown hshown := h.shown (hout ▸ hshown)
  displayed := h.displayed.idle hdisplays

theorem Script.keep {n : ℕ} {first part : List AirlineStatus} {turns : List Block}
    {tr es : List PlaneSim.Event} {sys sys' : System} (h : Script n first tr sys turns part)
    (htakes : takes es = []) (hlen : inTurn sys'.pc + sys.turn = inTurn sys.pc + sys'.turn) :
    Script n first (tr ++ es) sys' turns part where
  pages := h.pages
  all := by
    rw [takes_append, htakes, List.append_nil]
    exact h.all
  length := by
    have := h.length
    omega

/-- An event of the display alone. -/
theorem Script.display {n : ℕ} {first part : List AirlineStatus} {turns : List Block}
    {sys' : System} (h : Script n first (tr.filterMap Event.system?) sys turns part)
    (hes : es.filterMap Event.system? = [])
    (hlen : inTurn sys'.pc + sys.turn = inTurn sys.pc + sys'.turn) :
    Script n first ((tr ++ es).filterMap Event.system?) sys' turns part := by
  rw [List.filterMap_append, hes]
  exact h.keep rfl hlen

variable {n : ℕ} {first part cur : List AirlineStatus} {turns done : List Block}
  {tail : List OutputMessage}

theorem Shows.idle (h : Shows T wait n first tr v turns done part cur tail)
    (hes : es.filterMap Event.system? = [])
    (hlen : inTurn s'.sys.pc + v.state.sys.turn = inTurn v.state.sys.pc + s'.sys.turn)
    (hret : returned v.state.sys.pc = true → returned s'.sys.pc = true)
    (hqueue : s'.queue ++ s'.pc.owed = v.state.queue ++ v.state.pc.owed)
    (hout : s'.output = v.state.output) (hturn : s'.turn = v.state.turn)
    (hdisplays : displays es = []) :
    Shows T wait n first (tr ++ es) ⟨s', v.screen⟩ turns done part cur tail := by
  refine h.write [] (h.script.display hes hlen) ?_ ?_ ?_ hout hturn hdisplays
  · exact h.ending.imp_right fun ⟨heq, hover⟩ => ⟨heq, hret hover⟩
  · rw [hqueue, List.append_nil]
  · rw [List.append_nil]

/-- The loop is left, and the output thread is told to end. -/
theorem Shows.stop (h : Shows T wait n first tr v turns done part cur tail)
    (hhead : v.state.sys.pc = .head) (howed : v.state.pc.owed = []) :
    Shows T wait n first (tr ++ [])
      ⟨{ v.state with sys := { v.state.sys with pc := .finish 0 }, pc := .endOutput }, v.screen⟩
      turns done part cur [.endOutput] := by
  obtain rfl := h.ending_nil (by rw [hhead]; rfl)
  refine h.write [.endOutput] (h.script.display rfl ?_) (.inr ⟨rfl, rfl⟩) ?_ ?_ rfl rfl rfl
  · rw [hhead]
    rfl
  · rw [howed, List.append_nil]
    rfl
  · simp only [List.append_nil, List.append_assoc]

/-- A step of `runMap` that both builds have. -/
theorem Shows.run (h : Shows T wait airlines.length first tr v turns done part cur tail)
    (hsetup : Setup map airlines) (hlist : Listing map) (hfirst : Page airlines.length first)
    (hrun : Run (PlaneSim.reliableStep cfg) (System.init map airlines)
      (tr.filterMap Event.system?) v.state.sys)
    {events : List PlaneSim.Event} (hpc : v.state.pc = .run) (hhead : v.state.sys.pc ≠ .head)
    (hstep : PlaneSim.step cfg v.state.sys .map = some (events, sys)) :
    ∃ turns' part' tail', Shows T wait airlines.length first (tr ++ events.map .sim)
      ⟨{ v.state with sys := sys, pc := .push (reports v.state .map) }, v.screen⟩
      turns' done part' cur tail' := by
  obtain ⟨-, -, -, -, -, -, hreceive⟩ := chronicle_run hsetup hlist (hrun.step (a := .map) hstep)
  obtain ⟨hturn, hret, hin⟩ := step_inTurn (.inl rfl) hhead hstep
  have hevents : (tr ++ events.map Event.sim).filterMap Event.system? =
      tr.filterMap Event.system? ++ events := by
    rw [List.filterMap_append, filterMap_sim]
  have hending : tail = [] ∨ tail = [.endOutput] ∧ returned sys.pc = true := by
    rw [hret]
    exact h.ending
  have howed : v.state.queue ++ v.state.pc.owed = v.state.queue := by
    rw [hpc]
    exact List.append_nil _
  have hdisplays : displays (events.map Event.sim) = [] := (quiet_sim events).2.1
  cases sends_step hstep fun ph got acted he =>
      hreceive ph got acted (List.mem_append_right _ he) with
  | nothing hmsgs htakes =>
    refine ⟨turns, part, tail, h.write [] ?_ hending ?_ ?_ rfl rfl hdisplays⟩
    · rw [hevents]
      refine h.script.keep htakes ?_
      rw [hmsgs] at hin
      simp only [List.filterMap_nil, List.length_nil, Nat.zero_add] at hin
      rw [hin, hturn]
    · rw [howed, hmsgs]
      rfl
    · exact (List.append_nil _).symm
  | status status i hrecv hmsgs htakes =>
    refine ⟨turns, part ++ [status], tail, h.write [.airlineStatus status]
      ⟨h.script.pages, ?_, ?_⟩ hending ?_ ?_ rfl rfl hdisplays⟩
    · rw [hevents, takes_append, htakes, ← List.append_assoc, h.script.all, List.append_assoc]
    · rw [hmsgs] at hin
      have hin : 0 + inTurn sys.pc = inTurn v.state.sys.pc := hin
      have := h.script.length
      dsimp only
      omega
    · rw [howed, hmsgs]
      rfl
    · rw [h.ending_nil (by rw [hrecv]; rfl)]
      simp
  | last status hrecv hmsgs htakes =>
    have hpage := h.script.page hsetup hlist hfirst hrun hrecv
    have htail := h.ending_nil (by rw [hrecv]; rfl)
    refine ⟨turns ++ [(part, status)], [], [], h.write [.mapStatus status]
      ⟨?_, ?_, ?_⟩ (.inl rfl) ?_ ?_ rfl rfl hdisplays⟩
    · intro block hblock
      rcases List.mem_append.mp hblock with hblock | hblock
      · exact h.script.pages block hblock
      · rw [List.mem_singleton.mp hblock]
        exact hpage
    · rw [hevents, takes_append, htakes]
      simpa using h.script.all
    · rw [hmsgs] at hin
      have hin : 1 + inTurn sys.pc = inTurn v.state.sys.pc := hin
      have := h.script.length
      rw [List.length_append, List.length_singleton]
      dsimp only
      omega
    · rw [howed, hmsgs]
      rfl
    · rw [htail]
      simp [Block.messages]

theorem displays_push (turn : ℕ) (msg : OutputMessage) : displays (msg.events turn) = [] := by
  cases msg <;> rfl

theorem Shows.mapMove (h : Shows T wait airlines.length first tr v turns done part cur tail)
    (hinv : Inv tr v.state) (hsetup : Setup map airlines) (hlist : Listing map)
    (hfirst : Page airlines.length first)
    (hrun : Run (PlaneSim.reliableStep cfg) (System.init map airlines)
      (tr.filterMap Event.system?) v.state.sys)
    {action : PlaneSim.Action} (ha : action = .map) (hmove : MapMove cfg v.state action es s') :
    ∃ turns' part' tail', Shows T wait airlines.length first (tr ++ es) ⟨s', v.screen⟩
      turns' done part' cur tail' := by
  cases hmove with
  | pushed hpc | loop hpc _ _ | wait hpc _ | join hpc _ =>
    refine ⟨turns, part, tail, h.idle rfl rfl id ?_ rfl rfl rfl⟩
    rw [hpc]
    rfl
  | push hpc hpush | endOutput hpc hpush =>
    have hes := filterMap_push hpush
    obtain ⟨hevents, rfl⟩ := push_eq_some hpush
    refine ⟨turns, part, tail, h.idle hes rfl id ?_ rfl rfl (hevents ▸ displays_push _ _)⟩
    rw [hpc]
    simp [CursesPc.owed]
  | leave hpc hhead hstop => exact ⟨turns, part, _, h.stop hhead (by rw [hpc]; rfl)⟩
  | run hpc hor hhead hsys =>
    subst ha
    exact h.run hsetup hlist hfirst hrun hpc hhead hsys
  | bail hpc hexit =>
    exact ⟨turns, part, _, h.stop (hinv.head (.inr hpc)) (by rw [hpc]; rfl)⟩
  | start hpc hexit =>
    have hhead := hinv.head (.inr hpc)
    refine ⟨turns, part, tail, h.idle rfl ?_ (fun hret => ?_) ?_ rfl rfl rfl⟩
    · rw [hhead]
      simp only [inTurn]
      omega
    · rw [hhead] at hret
      cases hret
    · rw [hpc]
      rfl

theorem Shows.not_mem_tail (h : Shows T wait n first tr v turns done part cur tail)
    (m : MapStatus) : .mapStatus m ∉ tail := by
  rcases h.ending with rfl | ⟨rfl, -⟩ <;> simp

/-- The output thread takes a message and prints it. -/
theorem Shows.pop (hT : T.Documented) (h : Shows T wait n first tr v turns done part cur tail)
    (hn : 1 ≤ n) (hfits : RunFits T first (tr ++ es))
    (hknown : ∀ status ∈ turns.flatMap Prod.fst ++ part, ∃ a < n, status.id = (a : Int))
    (hpop : v.state.output = .pop) {msg : OutputMessage} {queue : List OutputMessage}
    (hqueue : v.state.queue = msg :: queue) (hstep : outputStep wait v.state = some (es, s')) :
    ∃ done' cur', Shows T wait n first (tr ++ es)
      ⟨s', v.screen.display T wait v.state.turn msg⟩ turns done' part cur' tail := by
  have hlink := h.link (by rw [hpop]; rfl)
  have hdrawn := h.drawn (by rw [hpop]; rfl)
  simp only [outputStep, hpop, hqueue] at hstep hlink
  cases msg with
  | mapStatus m =>
    cases hstep
    have hlink' : (done ++ [(cur, m)]).flatMap Block.messages ++ (queue ++ v.state.pc.owed) =
        turns.flatMap Block.messages ++ (part.map .airlineStatus ++ tail) := by
      rw [← hlink]
      simp [Block.messages]
    have hpage : Page n cur := by
      have hmem : (cur, m) ∈ done ++ [(cur, m)] := by simp
      exact h.script.pages _ ((prefix_of_blocks h.not_mem_tail hlink').subset hmem)
    refine ⟨done ++ [(cur, m)], [], h.script.display rfl rfl, h.ending, fun _ => hlink',
      fun _ => ?_, ?_, fun _ => rfl, ?_⟩
    · rw [h.turn]
      exact hdrawn.mapStatus hT hn hpage (hfits.status _ m (by rw [← h.turn]; simp))
    · rw [List.length_append, ← h.turn]
      rfl
    · unfold Displayed
      rw [displays_append, List.map_append, h.displayed, List.map_append]
      rfl
  | airlineStatus status =>
    cases hstep
    have hmem : OutputMessage.airlineStatus status ∈
        turns.flatMap Block.messages ++ (part.map .airlineStatus ++ tail) := by
      rw [← hlink]
      simp
    have hid : status ∈ turns.flatMap Prod.fst ++ part := by
      rcases h.ending with rfl | ⟨rfl, -⟩ <;> simpa [Block.messages] using hmem
    refine ⟨done, cur ++ [status], h.script.display rfl rfl, h.ending, fun _ => ?_,
      fun _ => hdrawn.airlineStatus hT (hknown status hid)
        (hfits.of_append.airline status (h.script.all ▸ hid)), h.turn,
      fun heq => OutputPc.noConfusion heq, h.displayed.idle rfl⟩
    rw [← hlink]
    simp
  | endOutput =>
    cases hstep
    exact ⟨done, cur, h.script.display rfl rfl, h.ending, fun hs => Bool.noConfusion hs,
      fun hs => Bool.noConfusion hs, h.turn, fun heq => OutputPc.noConfusion heq,
      h.displayed.idle rfl⟩

/-- The output thread goes on after a map status, or ends. -/
theorem Shows.go_on (h : Shows T wait n first tr v turns done part cur tail) {pc : OutputPc}
    {sem : ℕ} (hes : es.filterMap Event.system? = []) (hdisplays : displays es = [])
    (hpc : pc ≠ .shown) (hshowing : pc.showing = true → v.state.output.showing = true) :
    Shows T wait n first (tr ++ es) ⟨{ v.state with output := pc, outputSem := sem }, v.screen⟩
      turns done part cur tail :=
  ⟨h.script.display hes rfl, h.ending, fun hs => h.link (hshowing hs),
    fun hs => h.drawn (hshowing hs), h.turn, fun heq => absurd heq hpc, h.displayed.idle hdisplays⟩

theorem Shows.outputMove (h : Shows T wait n first tr v turns done part cur tail)
    (hmove : OutputMove v.state es s') (hpop : v.state.output ≠ .pop) :
    Shows T wait n first (tr ++ es) ⟨s', v.screen⟩ turns done part cur tail := by
  cases hmove with
  | mapStatus hout _ | airlineStatus hout _ | endOutput hout _ => exact absurd hout hpop
  | acknowledged hout | post hout =>
    exact h.go_on rfl rfl (by simp) fun _ => by rw [hout]; rfl
  | ended hout => exact h.go_on rfl rfl (by simp) fun hs => by cases hs

/-- A step of an airline, or the exit flag. -/
theorem Shows.other (h : Shows T wait airlines.length first tr v turns done part cur tail)
    (hsetup : Setup map airlines) (hlist : Listing map)
    (hrun : Run (PlaneSim.reliableStep cfg) (System.init map airlines)
      (tr.filterMap Event.system?) v.state.sys)
    {action : PlaneSim.Action} (hmap : action ≠ .map) (hfail : action ≠ .mapFail)
    (hreliable : action.reliable = true) {events : List PlaneSim.Event}
    (hstep : PlaneSim.step cfg v.state.sys action = some (events, sys)) :
    Shows T wait airlines.length first (tr ++ events.map .sim)
      ⟨{ v.state with sys := sys }, v.screen⟩ turns done part cur tail := by
  obtain ⟨hpc, -, hturn⟩ := step_other hmap hfail hstep
  have hlast : PlaneSim.reliableStep cfg v.state.sys action = some (events, sys) := by
    rw [PlaneSim.reliableStep, if_pos hreliable, hstep]
  have htakes : takes events = [] := by
    obtain ⟨_, _, -, hsim, hchronicle, -⟩ := chronicle_run hsetup hlist hrun
    refine List.eq_nil_iff_forall_not_mem.mpr fun status hst => hmap ?_
    exact (takes_step (flow_run hsetup hlist hrun) hchronicle.reported hsim hlast status hst).1
  refine ⟨?_, ?_, h.link, h.drawn, h.turn, h.shown, h.displayed.idle (quiet_sim events).2.1⟩
  · rw [List.filterMap_append, filterMap_sim]
    exact h.script.keep htakes (by rw [hpc, hturn])
  · rw [hpc]
    exact h.ending

theorem shows_step (hT : T.Documented) {a : Action}
    (h : Shows T wait airlines.length first tr v turns done part cur tail)
    (hfits : RunFits T first (tr ++ es)) (hinv : Inv tr v.state) (hsetup : Setup map airlines)
    (hlist : Listing map) (hne : airlines ≠ []) (hfirst : Page airlines.length first)
    (hrun : Run (PlaneSim.reliableStep cfg) (System.init map airlines)
      (tr.filterMap Event.system?) v.state.sys)
    (hstep : viewStep T cfg wait v a = some (es, v')) :
    ∃ turns' done' part' cur' tail', Shows T wait airlines.length first (tr ++ es) v'
      turns' done' part' cur' tail' := by
  obtain ⟨⟨es1, s'⟩, hreliable, hnew⟩ := Option.map_eq_some_iff.mp hstep
  cases hnew
  obtain ⟨ha, hmove⟩ := step_of_reliableStep hreliable
  cases a with
  | output =>
    by_cases hpop : v.state.output = .pop
    · simp only [popped, if_pos hpop]
      cases hqueue : v.state.queue with
      | nil =>
        have hblocked : outputStep wait v.state = none := by simp only [outputStep, hpop, hqueue]
        rw [show outputStep wait v.state = _ from hmove] at hblocked
        cases hblocked
      | cons msg queue =>
        have hknown : ∀ status ∈ turns.flatMap Prod.fst ++ part,
            ∃ a < airlines.length, status.id = (a : Int) := by
          intro status hstatus
          rw [h.script.all] at hstatus
          rcases List.mem_append.mp hstatus with hstatus | hstatus
          · exact hfirst.known status hstatus
          · exact takes_known hsetup hlist hrun status hstatus
        obtain ⟨done', cur', hshows⟩ :=
          h.pop hT (List.length_pos_iff.mpr hne) hfits hknown hpop hqueue hmove
        exact ⟨_, _, _, _, _, hshows⟩
    · simp only [popped, if_neg hpop]
      exact ⟨_, _, _, _, _, h.outputMove (outputMove_of_step hmove) hpop⟩
  | key =>
    simp only [step] at hmove
    split_ifs at hmove
    refine ⟨_, _, _, _, _, h.outputMove (outputMove_of_waited hmove) fun hpop => ?_⟩
    simp [waited, hpop] at hmove
  | system action =>
    cases action with
    | map =>
      obtain ⟨turns', part', tail', hshows⟩ :=
        h.mapMove hinv hsetup hlist hfirst hrun rfl (mapMove_of_step hmove)
      exact ⟨_, _, _, _, _, hshows⟩
    | mapFail | listenerFail b => cases ha
    | listener b | plane b p | exit =>
      simp only [step] at hmove
      obtain ⟨⟨events, sys⟩, hsys, heq⟩ := Option.map_eq_some_iff.mp hmove
      cases heq
      exact ⟨_, _, _, _, _, h.other hsetup hlist hrun (by simp) (by simp) rfl hsys⟩

theorem view_run (hrun : Run (viewStep T cfg wait) (View.init T map airlines) tr v) :
    Run (reliableStep cfg wait) (init map airlines) tr v.state := by
  induction hrun with
  | refl => exact .refl
  | step run last ih =>
    obtain ⟨⟨es, s'⟩, hstep, hnew⟩ := Option.map_eq_some_iff.mp last
    cases hnew
    exact ih.step hstep

/-- The status of an airline before the first turn. -/
def firstStatus (airline : Airline) : AirlineStatus :=
  marshallSendAirlineStatus airline.planes.length airline.planes.length airline.id

/-- `main` numbers the airlines by their place in the vector. -/
def Placed (airlines : List Airline) : Prop :=
  ∀ (a : ℕ) (airline : Airline), airlines[a]? = some airline → airline.id = (a : Int)

theorem filter_id {statuses : List AirlineStatus}
    (h : ∀ (a : ℕ) (status : AirlineStatus), statuses[a]? = some status → status.id = (a : Int))
    {a : ℕ} {status : AirlineStatus} (ha : statuses[a]? = some status) :
    (statuses.filter fun status => status.id = (a : Int)) = [status] := by
  induction statuses using List.reverseRecOn with
  | nil => cases ha
  | append_singleton statuses last ih =>
    have hlast : last.id = (statuses.length : Int) := h statuses.length last (by simp)
    have hinit : ∀ (a : ℕ) (status : AirlineStatus), statuses[a]? = some status →
        status.id = (a : Int) := fun a status ha =>
      h a status (by rw [List.getElem?_append_left (List.getElem?_eq_some_iff.mp ha).1, ha])
    rw [List.filter_append]
    rcases Nat.lt_trichotomy a statuses.length with hlt | rfl | hgt
    · rw [List.getElem?_append_left hlt] at ha
      rw [ih hinit ha]
      have : ¬ (statuses.length : Int) = a := by omega
      simp [hlast, this]
    · rw [List.getElem?_concat_length] at ha
      cases ha
      have hnone : (statuses.filter fun status => status.id = (statuses.length : Int)) = [] := by
        refine List.filter_eq_nil_iff.mpr fun status hst => ?_
        obtain ⟨b, hb, hget⟩ := List.mem_iff_getElem.mp hst
        have := hinit b status (List.getElem?_eq_some_iff.mpr ⟨hb, hget⟩)
        simp only [decide_eq_true_eq]
        omega
      rw [hnone]
      simp [hlast]
    · rw [List.getElem?_eq_none (by simp; omega)] at ha
      cases ha

theorem page_first (hplaced : Placed airlines) :
    Page airlines.length (airlines.map firstStatus) where
  one a ha := by
    refine ⟨firstStatus airlines[a], filter_id (fun b status hb => ?_) ?_⟩
    · rw [List.getElem?_map] at hb
      obtain ⟨airline, hairline, rfl⟩ := Option.map_eq_some_iff.mp hb
      exact hplaced b airline hairline
    · rw [List.getElem?_map, List.getElem?_eq_getElem ha]
      rfl
  known status hst := by
    obtain ⟨airline, hairline, rfl⟩ := List.mem_map.mp hst
    obtain ⟨a, ha⟩ := List.mem_iff_getElem?.mp hairline
    exact ⟨a, (List.getElem?_eq_some_iff.mp ha).1, hplaced a airline ha⟩

theorem shows_run (hT : T.Documented) (hsetup : Setup map airlines) (hlist : Listing map)
    (hne : airlines ≠ []) (hplaced : Placed airlines)
    (hrun : Run (viewStep T cfg wait) (View.init T map airlines) tr v)
    (hfits : RunFits T (airlines.map firstStatus) tr) :
    ∃ turns done part cur tail, Shows T wait airlines.length (airlines.map firstStatus) tr v
      turns done part cur tail := by
  induction hrun with
  | refl =>
    obtain ⟨status, hstatus⟩ : ∃ status, sendMapStatus map (getMapStatus map).1 =
        .mapStatus status := ⟨_, rfl⟩
    refine ⟨[(airlines.map firstStatus, status)], [], [], [], [], ⟨?_, ?_, ?_⟩, .inl rfl,
      fun _ => ?_, fun _ => drawn_init (List.length_pos_iff.mpr hne), rfl, nofun, rfl⟩
    · intro block hblock
      rw [List.mem_singleton.mp hblock]
      exact page_first hplaced
    · simp [takes]
    · rfl
    · show airlinesStatus airlines ++ [sendMapStatus map (getMapStatus map).1] = _
      rw [hstatus]
      simp only [Block.messages, List.flatMap_cons, List.flatMap_nil, List.append_nil,
        List.map_nil, List.map_map]
      rfl
  | step run last ih =>
    obtain ⟨turns, done, part, cur, tail, hshows⟩ := ih hfits.of_append
    obtain ⟨hstate, hsys⟩ := system_run (view_run run)
    exact shows_step hT hshows hfits (inv_run hstate) hsetup hlist hne (page_first hplaced) hsys
      last

/-- The line of `row`, if the window has it, shows one text. -/
def Ncurses.Bears (T : Ncurses W L) (window : W) (row : Int) (text : Text) : Prop :=
  T.Inside row → T.line window row = T.look INITIAL_COLUMN text

/-- **The screen of a turn.** When the status of a turn is on the screen, the line of every airline
has its report of that turn, and nothing under it; the three lines of the map have the turn and the
status, and all others are blank but for the one that asks for a key. -/
theorem screen_shows (hT : T.Documented) (hsetup : Setup map airlines) (hlist : Listing map)
    (hne : airlines ≠ []) (hplaced : Placed airlines)
    (hrun : Run (viewStep T cfg wait) (View.init T map airlines) tr v)
    (hfits : RunFits T (airlines.map firstStatus) tr) (hshown : v.state.output = .shown) :
    ∃ turn status, v.state.turn = turn + 1 ∧ .displayed turn status ∈ tr ∧
      T.Bears v.screen.window TURN_LINE (.turn turn) ∧
      T.Bears v.screen.window MAP_LINE_1
        (.completion status.totalStockAmount status.currentStockAmount) ∧
      T.Bears v.screen.window MAP_LINE_2
        (.satisfied status.citiesSatisfied status.totalCities) ∧
      (∀ (a : ℕ) (airline : Airline), airlines[a]? = some airline → ∃ report,
        (firstStatus airline :: statuses a (tr.filterMap Event.system?))[turn]? = some report ∧
          T.Bears v.screen.window (AIRLINE_INITIAL_LINE + a) (.airline report)) ∧
      (wait = true → T.Bears v.screen.window (airlines.length + 7) .turnEnded) ∧
      ∀ row : Int, T.Inside row → row < 2 ∨ row = 5 ∨ airlines.length + 5 < row →
        ¬(row = airlines.length + 7 ∧ wait = true) → T.line v.screen.window row = T.blank := by
  obtain ⟨turns, done, part, cur, tail, h⟩ := shows_run hT hsetup hlist hne hplaced hrun hfits
  obtain ⟨hstate, hsys⟩ := system_run (view_run hrun)
  obtain rfl := h.shown hshown
  have hinv := inv_run hstate
  have hshowing : v.state.output.showing = true := by rw [hshown]; rfl
  have hbusy := hinv.busy
  rw [hshown, h.turn] at hbusy
  -- The last block read is the one on the screen.
  obtain ⟨done, block, rfl⟩ :=
    (List.eq_nil_or_concat' done).resolve_left (List.ne_nil_of_length_pos hbusy)
  have hturn : v.state.turn = done.length + 1 := by
    rw [h.turn, List.length_append, List.length_singleton]
  have hlines : ∀ row, T.Inside row → T.Holds v.screen.window row
      (heading wait airlines.length done.length block.2 row ++ printed block.1 row) := by
    have hpage := (h.drawn hshowing).page rfl block (by simp)
    simpa using hpage
  have hget : turns[done.length]? = some block := by
    obtain ⟨later, rfl⟩ := prefix_of_blocks h.not_mem_tail (h.link hshowing)
    simp
  have hpage := h.script.pages block (List.mem_of_getElem? hget)
  have hnone : ∀ row : Int, row < 6 ∨ airlines.length + 5 < row → printed block.1 row = [] := by
    intro row hrow
    refine printed_of_not_mem fun status hst heq => ?_
    obtain ⟨a, ha, hid⟩ := hpage.known status hst
    omega
  have hbears : ∀ row text, heading wait airlines.length done.length block.2 row ++
      printed block.1 row = [text] → T.Bears v.screen.window row text := by
    intro row text htexts hrow
    have hholds := hlines row hrow
    rw [htexts] at hholds
    exact hholds
  have hhead : ∀ row text, row < 6 →
      heading wait airlines.length done.length block.2 row = [text] →
      T.Bears v.screen.window row text := by
    intro row text hrow htext
    refine hbears row text ?_
    rw [htext, hnone row (.inl hrow), List.append_nil]
  refine ⟨done.length, block.2, hturn, ?_, hhead _ _ (by decide) rfl, hhead _ _ (by decide) rfl,
    hhead _ _ (by decide) rfl, fun a airline ha => ?_, fun hwait => ?_,
    fun row hrow hout hprompt => ?_⟩
  · rw [← mem_displays]
    refine List.mem_of_getElem? (i := done.length) ?_
    have hfst := congrArg (·[done.length]?) hinv.shown
    have hsnd := congrArg (·[done.length]?) h.displayed
    simp only [List.getElem?_map, hturn, List.getElem?_range (Nat.lt_succ_self _)] at hfst hsnd
    obtain ⟨x, hx, hxturn⟩ := Option.map_eq_some_iff.mp hfst
    have hxstatus : x.2 = block.2 := by simpa [hx] using hsnd
    rw [hx, ← hxturn, ← hxstatus]
  · have hlt := (List.getElem?_eq_some_iff.mp ha).1
    obtain ⟨report, hreport⟩ := hpage.one a hlt
    refine ⟨report, ?_, ?_⟩
    · have hflow := flow_run hsetup hlist hsys a
      have hmine : ((airlines.map firstStatus).filter fun status => status.id = (a : Int)) =
          [firstStatus airline] := by
        refine filter_id (fun b status hb => ?_) (by rw [List.getElem?_map, ha]; rfl)
        rw [List.getElem?_map] at hb
        obtain ⟨other, hother, rfl⟩ := Option.map_eq_some_iff.mp hb
        exact hplaced b other hother
      have hstatus := status_of_pages h.script.pages hlt hget
      rw [hreport] at hstatus
      have hall := congrArg (List.filter fun status => status.id = (a : Int)) h.script.all
      rw [List.filter_append, List.filter_append, hmine, List.singleton_append] at hall
      rw [hflow, ← List.cons_append, ← hall, List.append_assoc,
        List.getElem?_append_left (List.getElem?_eq_some_iff.mp hstatus).1, hstatus]
      rfl
    · have hsame : (block.1.filter fun status =>
          AIRLINE_INITIAL_LINE + status.id = AIRLINE_INITIAL_LINE + (a : Int)) = [report] := by
        rw [← hreport]
        simp
      refine hbears _ _ ?_
      rw [printed, hsame, heading, AIRLINE_INITIAL_LINE]
      split_ifs <;> first | omega | rfl
  · refine hbears _ _ ?_
    rw [hnone _ (.inr (by omega)), heading]
    split_ifs <;> first | omega | simp_all
  · have hholds := hlines row hrow
    rw [hnone row (by omega), heading] at hholds
    split_ifs at hholds <;> first | omega | exact hholds

/-- The numbers in a text. -/
def Text.numbers : Text → List Int
  | .turn number => [number]
  | .completion totalStockAmount currentStockAmount => [totalStockAmount, currentStockAmount]
  | .satisfied citiesSatisfied totalCities => [citiesSatisfied, totalCities]
  | .airline status => [status.id, status.planesFlying, status.totalPlanes]
  | _ => []

/-- No text with numbers of up to three digits fills a line of 80 columns. -/
def Text.short (text : Text) : Bool := text.numbers.all fun number => number.natAbs < 1000

/-- 24 lines with a text or none. -/
def terminal : Ncurses (Int → Option Text) (Option Text) where
  initscr := fun _ => none
  erase := fun _ _ => none
  mvprintw := fun window row _ text other =>
    if other = row ∧ 0 ≤ row ∧ row < 24 then some text else window other
  LINES := 24
  line := fun window row => window row
  blank := none
  look := fun _ text => some text
  fits := fun _ text => text.short = true

theorem documented_terminal : terminal.Documented where
  erase_line _ _ _ := rfl
  mvprintw_line _ _ _ _ hrow _ _ := if_pos ⟨rfl, hrow⟩
  mvprintw_other _ _ _ _ _ _ hother _ := if_neg fun h => hother h.1

/-- The first turn of one airline, until its status is on the screen. -/
def toSecond : List Action :=
  [(1, .system .map), (1, .output), (1, .system .map), (1, .output), (1, .key), (1, .output),
    (8, .system .map), (7, .system (.listener 0)), (5, .system (.plane 0 0)), (4, .system .map),
    (2, .system (.listener 0)), (8, .system (.plane 0 0)), (8, .system .map),
    (1, .system (.listener 0)), (2, .system (.plane 0 0)), (6, .system (.listener 0)),
    (5, .system (.plane 0 0)), (4, .system .map), (2, .system (.listener 0)),
    (10, .system (.plane 0 0)), (2, .system .map), (1, .output), (3, .system .map),
    (1, .output)].flatMap fun block : ℕ × Action => List.replicate block.1 block.2

/-- What a run has to print fits on its lines. -/
def shortRun (first : List AirlineStatus) (tr : List Event) : Bool :=
  ((displays tr).all fun shown =>
    [.turn shown.1, .completion shown.2.totalStockAmount shown.2.currentStockAmount,
      .satisfied shown.2.citiesSatisfied shown.2.totalCities].all Text.short) &&
  (first ++ takes (tr.filterMap Event.system?)).all fun status => Text.short (.airline status)

theorem runFits_of_shortRun {first : List AirlineStatus} (h : shortRun first tr = true) :
    RunFits terminal first tr := by
  unfold shortRun at h
  rw [Bool.and_eq_true, List.all_eq_true, List.all_eq_true] at h
  obtain ⟨hstatus, hairline⟩ := h
  refine ⟨fun turn status hst => ?_, hairline⟩
  have htexts := List.all_eq_true.mp (hstatus (turn, status) (mem_displays.mpr hst))
  exact ⟨htexts _ (by simp), htexts _ (by simp), htexts _ (by simp),
    (rfl : Text.short .turnEnded = true)⟩

theorem screen_shows_trio :
    ∃ tr v report, Run (viewStep terminal tightConfig true)
        (View.init terminal trioMap trioAirlines) tr v ∧ v.state.turn = 2 ∧
      statuses 0 (tr.filterMap Event.system?) = [report] ∧
      v.screen.window 2 = some (.turn 1) ∧ v.screen.window 6 = some (.airline report) ∧
      v.screen.window 8 = some .turnEnded ∧ v.screen.window 7 = none := by
  have hover : (exec (viewStep terminal tightConfig true)
      (View.init terminal trioMap trioAirlines) toSecond).map
        (fun r => (shortRun (trioAirlines.map firstStatus) r.1, r.2.state.output, r.2.state.turn,
          (statuses 0 (r.1.filterMap Event.system?)).length)) = some (true, .shown, 2, 1) := by
    decide +kernel
  obtain ⟨⟨tr, v⟩, hexec, hlast⟩ := Option.map_eq_some_iff.mp hover
  obtain ⟨hshort, hshown, hturn, hlength⟩ : shortRun (trioAirlines.map firstStatus) tr = true ∧
      v.state.output = .shown ∧ v.state.turn = 2 ∧
      (statuses 0 (tr.filterMap Event.system?)).length = 1 := by simpa using hlast
  have hplaced : Placed trioAirlines := by
    rintro (_ | a) airline ha
    · cases ha
      rfl
    · cases ha
  have hrun := run_of_exec hexec
  obtain ⟨turn, status, hturn', -, hfirst, -, -, hairlines, hprompt, hblank⟩ :=
    screen_shows documented_terminal setup_trio listing_trio (by decide) hplaced hrun
      (runFits_of_shortRun hshort) hshown
  obtain rfl : turn = 1 := by omega
  obtain ⟨report, hreport, hline⟩ := hairlines 0 _ rfl
  obtain ⟨report', hone⟩ := List.length_eq_one_iff.mp hlength
  obtain rfl : report' = report := by simpa [hone] using hreport
  exact ⟨tr, v, report', hrun, hturn, hone, hfirst (by decide), hline (by decide),
    hprompt rfl (by decide), hblank 7 (by decide) (.inr (.inr (by decide))) (by decide)⟩

end Sent

end PlaneSim.Display
