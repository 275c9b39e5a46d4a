import PlaneSim.Lib.Ranking
import PlaneSim.Lib.Update
import PlaneSim.Scenario
import Mathlib.Tactic.SplitIfs
import Mathlib.Tactic.Tauto

/-!
# Starting the airlines

`main` forks a process for each airline, listens under a name of its own and then establishes a
connection to every airline; each airline listens under its name and establishes a connection to the
map. With sockets a name is a file: `bind` makes it, and fails where it exists, which no caller
looks at; `ipc_establish` waits until it is there. That `socket` or `malloc` fails is left out.

1. A name belongs to one process (`nameOf_inj`), so it is bound by that process or not at all
   (`Inv.bound`).
2. The processes can always go on, until every child that was forked runs and the map does, or waits
   for a child that was not forked (`Inv.stuck`).
3. A start ends with everybody connected exactly when every fork succeeds and no file was there
   (`connected_iff`).
-/

namespace PlaneSim.Startup

open Lts

inductive Process where
  | parent
  | child (i : ℕ)
deriving DecidableEq, Repr

inductive ParentPc where
  /-- In the loop of `run_airlines`. -/
  | fork (i : ℕ)
  | listen
  /-- In the loop of `main` around `ipc_establish`. -/
  | establish (i : ℕ)
  | simulate
deriving DecidableEq, Repr

inductive ChildPc where
  | listen
  | establish
  | running
deriving DecidableEq, Repr

/-- `PARENT_NAME` -/
def PARENT_NAME : Name := ['m', 'a', 'p', '_', 'i', 'p', 'c']

/-- `sprintf(name, "%d_air", id)` -/
def airName (id : Int) : Name := (Int.repr id).toList ++ ['_', 'a', 'i', 'r']

/-- `paths` are the files of all sockets, `bound` those that a process listens at. A child that was
not forked, or not yet, is `none`. -/
structure State where
  paths : List Name
  bound : List (Name × Process)
  parent : ParentPc
  conns : List Name
  children : List (Option ChildPc)
deriving DecidableEq, Repr

inductive Event where
  | forkFailed (i : ℕ)
deriving DecidableEq, Repr

inductive Action where
  /-- `forked` is whether `fork` succeeds. -/
  | parent (forked : Bool)
  | child (i : ℕ)
deriving DecidableEq, Repr

/-- `ipc_listen`: where the file exists, `bind` fails. -/
def State.listen (s : State) (name : Name) (p : Process) : State :=
  if name ∈ s.paths then s
  else { s with paths := name :: s.paths, bound := (name, p) :: s.bound }

@[simp] theorem listen_parent (s : State) (name : Name) (p : Process) :
    (s.listen name p).parent = s.parent := by
  unfold State.listen
  split <;> rfl

@[simp] theorem listen_conns (s : State) (name : Name) (p : Process) :
    (s.listen name p).conns = s.conns := by
  unfold State.listen
  split <;> rfl

@[simp] theorem listen_children (s : State) (name : Name) (p : Process) :
    (s.listen name p).children = s.children := by
  unfold State.listen
  split <;> rfl

def step (airlines : List Airline) (s : State) : Action → Option (List Event × State)
  | .parent forked =>
    match s.parent with
    | .fork i =>
      if i < airlines.length then
        if forked then
          some ([], { s with parent := .fork (i + 1), children := s.children.set i (some .listen) })
        else some ([.forkFailed i], { s with parent := .fork (i + 1) })
      else some ([], { s with parent := .listen })
    | .listen => some ([], { s.listen PARENT_NAME .parent with parent := .establish 0 })
    | .establish i =>
      if i < airlines.length then
        if airName i ∈ s.paths then
          some ([], { s with parent := .establish (i + 1), conns := s.conns ++ [airName i] })
        else none
      else some ([], { s with parent := .simulate })
    | .simulate => none
  | .child i =>
    match s.children[i]?, airlines[i]? with
    | some (some .listen), some self =>
      some ([], { s.listen (airName self.id) (.child i) with
        children := s.children.set i (some .establish) })
    | some (some .establish), some _ =>
      if PARENT_NAME ∈ s.paths then
        some ([], { s with children := s.children.set i (some .running) })
      else none
    | _, _ => none

/-- `stale` are the files an earlier run has left. -/
def init (stale : List Name) (airlines : List Airline) : State where
  paths := stale
  bound := []
  parent := .fork 0
  conns := []
  children := List.replicate airlines.length none

/-! ## Names -/

/-- The name a process listens under. -/
def nameOf : Process → Name
  | .parent => PARENT_NAME
  | .child i => airName i

theorem airName_ne_parent (id : Int) : airName id ≠ PARENT_NAME := by
  intro h
  have hlast := congrArg List.getLast? h
  simp [airName, PARENT_NAME] at hlast

theorem airName_inj {i j : ℕ} (h : airName i = airName j) : i = j := by
  have hdigits : ∀ n : ℕ, (Int.repr n).toList = Nat.toDigits 10 n := fun n => Nat.toList_repr
  unfold airName at h
  rw [hdigits, hdigits] at h
  calc i = Nat.ofDigitChars 10 (Nat.toDigits 10 i) 0 :=
        (Nat.ofDigitChars_toDigits (by decide) (by decide)).symm
    _ = Nat.ofDigitChars 10 (Nat.toDigits 10 j) 0 := by rw [List.append_cancel_right h]
    _ = j := Nat.ofDigitChars_toDigits (by decide) (by decide)

theorem nameOf_inj {p q : Process} (h : nameOf p = nameOf q) : p = q := by
  cases p with
  | parent =>
    cases q with
    | parent => rfl
    | child j => exact absurd h.symm (airName_ne_parent j)
  | child i =>
    cases q with
    | parent => exact absurd h (airName_ne_parent i)
    | child j => rw [airName_inj h]

/-! ## What a step does -/

inductive Steps (airlines : List Airline) (s : State) : List Event → State → Prop where
  | forked {i : ℕ} (pc : s.parent = .fork i) (lt : i < airlines.length) :
      Steps airlines s []
        { s with parent := .fork (i + 1), children := s.children.set i (some .listen) }
  | forkFailed {i : ℕ} (pc : s.parent = .fork i) (lt : i < airlines.length) :
      Steps airlines s [.forkFailed i] { s with parent := .fork (i + 1) }
  | allForked {i : ℕ} (pc : s.parent = .fork i) (le : airlines.length ≤ i) :
      Steps airlines s [] { s with parent := .listen }
  | listens (pc : s.parent = .listen) :
      Steps airlines s [] { s.listen PARENT_NAME .parent with parent := .establish 0 }
  | established {i : ℕ} (pc : s.parent = .establish i) (lt : i < airlines.length)
      (path : airName i ∈ s.paths) :
      Steps airlines s []
        { s with parent := .establish (i + 1), conns := s.conns ++ [airName i] }
  | simulates {i : ℕ} (pc : s.parent = .establish i) (le : airlines.length ≤ i) :
      Steps airlines s [] { s with parent := .simulate }
  | childListens {i : ℕ} {self : Airline} (child : s.children[i]? = some (some .listen))
      (airline : airlines[i]? = some self) :
      Steps airlines s [] { s.listen (airName self.id) (.child i) with
        children := s.children.set i (some .establish) }
  | childRuns {i : ℕ} (child : s.children[i]? = some (some .establish))
      (path : PARENT_NAME ∈ s.paths) :
      Steps airlines s [] { s with children := s.children.set i (some .running) }

theorem step_cases {airlines : List Airline} {s s' : State} {a : Action} {es : List Event}
    (h : step airlines s a = some (es, s')) : Steps airlines s es s' := by
  cases a with
  | parent forked =>
    simp only [step] at h
    split at h
    · rename_i pc
      split at h
      · rename_i lt
        split at h
        · cases h
          exact .forked pc lt
        · cases h
          exact .forkFailed pc lt
      · rename_i le
        cases h
        exact .allForked pc (Nat.le_of_not_lt le)
    · rename_i pc
      cases h
      exact .listens pc
    · rename_i pc
      split at h
      · rename_i lt
        split at h
        · rename_i path
          cases h
          exact .established pc lt path
        · cases h
      · rename_i le
        cases h
        exact .simulates pc (Nat.le_of_not_lt le)
    · cases h
  | child i =>
    simp only [step] at h
    split at h
    · rename_i child airline
      cases h
      exact .childListens child airline
    · rename_i child _
      split at h
      · rename_i path
        cases h
        exact .childRuns child path
      · cases h
    · cases h

/-! ## The invariant -/

/-- Past its `ipc_listen`. -/
def Listening (s : State) : Process → Prop
  | .parent => s.parent = .simulate ∨ ∃ i, s.parent = .establish i
  | .child i => s.children[i]? = some (some .establish) ∨ s.children[i]? = some (some .running)

/-- How many forks have been tried. -/
def ParentPc.forked (n : ℕ) : ParentPc → ℕ
  | .fork i => i
  | _ => n

/-- How many connections have been established. -/
def ParentPc.established (n : ℕ) : ParentPc → ℕ
  | .establish i => i
  | .simulate => n
  | _ => 0

structure Inv (stale : List Name) (airlines : List Airline) (trace : List Event) (s : State) :
    Prop where
  length : s.children.length = airlines.length
  forked_le : s.parent.forked airlines.length ≤ airlines.length
  established_le : s.parent.established airlines.length ≤ airlines.length
  paths : ∀ name, name ∈ s.paths ↔ name ∈ stale ∨ ∃ p, (name, p) ∈ s.bound
  bound : ∀ name p, (name, p) ∈ s.bound ↔ name ∉ stale ∧ name = nameOf p ∧ Listening s p
  failed : ∀ i, .forkFailed i ∈ trace ↔
    i < s.parent.forked airlines.length ∧ s.children[i]? = some none
  unforked : ∀ i, s.parent.forked airlines.length ≤ i → i < airlines.length →
    s.children[i]? = some none
  conns : s.conns =
    (List.range (s.parent.established airlines.length)).map fun i => airName (i : ℕ)

section Invariant

variable {stale : List Name} {airlines : List Airline} {trace : List Event} {s : State}

theorem inv_init : Inv stale airlines [] (init stale airlines) where
  length := List.length_replicate
  forked_le := Nat.zero_le _
  established_le := Nat.zero_le _
  paths name := by simp [init]
  bound name p := by
    refine ⟨nofun, ?_⟩
    rintro ⟨-, -, hlisten⟩
    cases p <;> simp [Listening, init, List.getElem?_replicate] at hlisten
  failed i := by simp [init, ParentPc.forked]
  unforked i _ hi := by
    rw [init, List.getElem?_replicate, if_pos hi]
  conns := rfl

/-- The file of a process that listens is there. -/
theorem Inv.path_of_listening (h : Inv stale airlines trace s) {p : Process} (hp : Listening s p) :
    nameOf p ∈ s.paths := by
  rw [h.paths]
  by_cases hstale : nameOf p ∈ stale
  · exact .inl hstale
  · exact .inr ⟨p, (h.bound _ p).mpr ⟨hstale, rfl, hp⟩⟩

/-- **`ipc_listen`.** The name is bound unless its file has been left by an earlier run. -/
theorem Inv.listen (h : Inv stale airlines trace s) {p : Process} (hp : ¬Listening s p) :
    (∀ name, name ∈ (s.listen (nameOf p) p).paths ↔
      name ∈ stale ∨ ∃ q, (name, q) ∈ (s.listen (nameOf p) p).bound) ∧
    ∀ name q, (name, q) ∈ (s.listen (nameOf p) p).bound ↔
      name ∉ stale ∧ name = nameOf q ∧ (q = p ∨ Listening s q) := by
  unfold State.listen
  by_cases hpath : nameOf p ∈ s.paths
  · rw [if_pos hpath]
    refine ⟨h.paths, fun name q => ?_⟩
    rw [h.bound]
    refine ⟨fun ⟨hstale, hname, hq⟩ => ⟨hstale, hname, .inr hq⟩, ?_⟩
    rintro ⟨hstale, hname, rfl | hq⟩
    · -- another process would have had to bind the name
      rcases (h.paths _).mp hpath with hleft | ⟨q', hq'⟩
      · exact absurd (hname ▸ hleft) hstale
      · obtain ⟨-, hsame, hlistening⟩ := (h.bound _ q').mp hq'
        exact absurd (nameOf_inj hsame ▸ hlistening) hp
    · exact ⟨hstale, hname, hq⟩
  · rw [if_neg hpath]
    dsimp only
    have hfresh : nameOf p ∉ stale := fun hleft => hpath ((h.paths _).mpr (.inl hleft))
    constructor
    · intro name
      rw [List.mem_cons, h.paths]
      simp only [List.mem_cons, Prod.mk.injEq, exists_or]
      simp only [exists_and_left, exists_eq, and_true]
      tauto
    · intro name q
      rw [List.mem_cons, h.bound, Prod.mk.injEq]
      constructor
      · rintro (⟨rfl, rfl⟩ | ⟨hstale, hname, hq⟩)
        · exact ⟨hfresh, rfl, .inl rfl⟩
        · exact ⟨hstale, hname, .inr hq⟩
      · rintro ⟨hstale, hname, rfl | hq⟩
        · exact .inl ⟨hname, rfl⟩
        · exact .inr ⟨hstale, hname, hq⟩

/-- A step that binds nothing. -/
theorem Inv.move (h : Inv stale airlines trace s) {es : List Event} {parent : ParentPc}
    {conns : List Name} {children : List (Option ChildPc)}
    (hlisten : ∀ p, Listening { s with parent := parent, conns := conns, children := children } p ↔
      Listening s p)
    (hlength : children.length = s.children.length)
    (hforked : parent.forked airlines.length ≤ airlines.length)
    (hestablished : parent.established airlines.length ≤ airlines.length)
    (hfailed : ∀ i, .forkFailed i ∈ trace ++ es ↔
      i < parent.forked airlines.length ∧ children[i]? = some none)
    (hunforked : ∀ i, parent.forked airlines.length ≤ i → i < airlines.length →
      children[i]? = some none)
    (hconns : conns =
      (List.range (parent.established airlines.length)).map fun i => airName (i : ℕ)) :
    Inv stale airlines (trace ++ es)
      { s with parent := parent, conns := conns, children := children } where
  length := hlength.trans h.length
  forked_le := hforked
  established_le := hestablished
  paths := h.paths
  bound name p := by rw [h.bound, hlisten]
  failed := hfailed
  unforked := hunforked
  conns := hconns

theorem listening_set {children : List (Option ChildPc)} {i j : ℕ} {old new : Option ChildPc}
    (hchild : children[i]? = some old)
    (hsame : (new = some .establish ∨ new = some .running) ↔
      (old = some .establish ∨ old = some .running)) :
    ((children.set i new)[j]? = some (some .establish) ∨
        (children.set i new)[j]? = some (some .running)) ↔
      (children[j]? = some (some .establish) ∨ children[j]? = some (some .running)) := by
  by_cases hij : i = j
  · subst hij
    rw [List.getElem?_set_self (List.getElem?_eq_some_iff.mp hchild).1, hchild]
    simpa only [Option.some.injEq] using hsame
  · rw [List.getElem?_set_ne hij]

/-- A child that has been forked moves on. -/
theorem failed_set {children : List (Option ChildPc)} {i j : ℕ} {old new : ChildPc}
    (hchild : children[i]? = some (some old)) :
    (children.set i (some new))[j]? = some none ↔ children[j]? = some none := by
  by_cases hij : i = j
  · subst hij
    rw [List.getElem?_set_self (List.getElem?_eq_some_iff.mp hchild).1, hchild]
    simp
  · rw [List.getElem?_set_ne hij]

theorem inv_steps (hplaced : Display.Placed airlines) (h : Inv stale airlines trace s)
    {es : List Event} {s' : State} (hstep : Steps airlines s es s') :
    Inv stale airlines (trace ++ es) s' := by
  have hfailed := h.failed
  have hunforked := h.unforked
  have hconns := h.conns
  have hle := h.established_le
  cases hstep with
  | @forked i pc lt =>
    rw [pc] at hfailed hunforked hconns
    have hnone : s.children[i]? = some none := hunforked i le_rfl lt
    have hi : i < s.children.length := h.length ▸ lt
    refine h.move (fun p => ?_) (List.length_set ..) lt (Nat.zero_le _) (fun j => ?_)
      (fun j hj hlt => ?_) hconns
    · cases p with
      | parent => simp [Listening, pc]
      | child j => exact listening_set hnone (by simp)
    · rw [List.append_nil, hfailed]
      simp only [ParentPc.forked]
      by_cases hij : i = j
      · subst hij
        simp [hi]
      · rw [List.getElem?_set_ne hij]
        exact and_congr_left fun _ => by omega
    · simp only [ParentPc.forked] at hj
      rw [List.getElem?_set_ne (by omega)]
      exact hunforked j (show i ≤ j by omega) hlt
  | @forkFailed i pc lt =>
    rw [pc] at hfailed hunforked hconns
    refine h.move (fun p => ?_) rfl lt (Nat.zero_le _) (fun j => ?_) (fun j hj => ?_) hconns
    · cases p <;> simp [Listening, pc]
    · have hnone : s.children[i]? = some none := hunforked i le_rfl lt
      rw [List.mem_append, hfailed, List.mem_singleton, Event.forkFailed.injEq]
      simp only [ParentPc.forked]
      constructor
      · rintro (⟨hj, hj'⟩ | rfl)
        · exact ⟨by omega, hj'⟩
        · exact ⟨by omega, hnone⟩
      · rintro ⟨hj, hj'⟩
        by_cases hij : j = i
        · exact .inr hij
        · exact .inl ⟨by omega, hj'⟩
    · simp only [ParentPc.forked] at hj
      exact hunforked j (show i ≤ j by omega)
  | @allForked i pc le =>
    have hi : i = airlines.length := by
      have hforked := h.forked_le
      rw [pc] at hforked
      exact le_antisymm hforked le
    rw [pc, hi] at hfailed hunforked
    rw [pc] at hconns
    refine h.move (fun p => ?_) rfl le_rfl (Nat.zero_le _) (fun j => ?_) hunforked hconns
    · cases p <;> simp [Listening, pc]
    · rw [List.append_nil]
      exact hfailed j
  | listens pc =>
    rw [pc] at hfailed hunforked hconns
    have hnot : ¬Listening s .parent := by simp [Listening, pc]
    obtain ⟨hpaths, hbound⟩ := h.listen hnot
    refine ⟨by simpa using h.length, le_rfl, Nat.zero_le _, hpaths, fun name q => ?_, fun j => ?_,
      fun j hj hlt => ?_, by simpa [ParentPc.established] using hconns⟩
    · refine (hbound name q).trans (and_congr_right fun _ => and_congr_right fun _ => ?_)
      cases q <;> simp [Listening]
    · simpa [ParentPc.forked] using hfailed j
    · simpa using hunforked j hj hlt
  | @established i pc lt path =>
    rw [pc] at hfailed hunforked hconns
    refine h.move (fun p => ?_) rfl le_rfl lt (fun j => ?_) hunforked ?_
    · cases p <;> simp [Listening, pc]
    · rw [List.append_nil]
      exact hfailed j
    · rw [hconns]
      simp only [ParentPc.established, List.range_succ, List.map_append, List.map_singleton]
  | @simulates i pc le =>
    rw [pc] at hfailed hunforked hconns hle
    obtain rfl : i = airlines.length := le_antisymm hle le
    refine h.move (fun p => ?_) rfl le_rfl le_rfl (fun j => ?_) hunforked hconns
    · cases p <;> simp [Listening, pc]
    · rw [List.append_nil]
      exact hfailed j
  | @childListens i self child airline =>
    have hnot : ¬Listening s (.child i) := by simp [Listening, child]
    have hi := (List.getElem?_eq_some_iff.mp child).1
    have hname : airName self.id = nameOf (.child i) := by
      rw [hplaced i self airline]
      rfl
    obtain ⟨hpaths, hbound⟩ := h.listen hnot
    rw [hname]
    refine ⟨by simpa using h.length, by simpa using h.forked_le, by simpa using hle, hpaths,
      fun name q => ?_, fun j => ?_, fun j hj hlt => ?_, by simpa using hconns⟩
    · refine (hbound name q).trans (and_congr_right fun _ => and_congr_right fun _ => ?_)
      cases q with
      | parent => simp [Listening]
      | child j =>
        by_cases hij : i = j
        · subst hij
          simp [Listening, hi]
        · simp [Listening, List.getElem?_set_ne hij, Ne.symm hij]
    · rw [List.append_nil]
      simpa [failed_set child] using hfailed j
    · exact (failed_set child).mpr (hunforked j (by simpa using hj) hlt)
  | @childRuns i child path =>
    refine h.move (fun p => ?_) (List.length_set ..) h.forked_le hle (fun j => ?_)
      (fun j hj hlt => (failed_set child).mpr (hunforked j hj hlt)) hconns
    · cases p with
      | parent => rfl
      | child j => exact listening_set child (by simp)
    · rw [List.append_nil, failed_set child]
      exact hfailed j

end Invariant

theorem run_inv {stale : List Name} {airlines : List Airline} (hplaced : Display.Placed airlines)
    {trace : List Event} {s : State} (h : Run (step airlines) (init stale airlines) trace s) :
    Inv stale airlines trace s :=
  h.history inv_init fun _ _ _ _ _ hi hs => inv_steps hplaced hi (step_cases hs)

/-! ## No start goes on for ever -/

def ParentPc.rank (n : ℕ) : ParentPc → ℕ
  | .fork i => 2 * n + 3 - i
  | .listen => n + 2
  | .establish i => n + 1 - i
  | .simulate => 0

def childRank : Option ChildPc → ℕ
  | some .establish => 1
  | some .running => 0
  | _ => 2

def State.rank (n : ℕ) (s : State) : ℕ := s.parent.rank n + (s.children.map childRank).sum

section Rank

variable {stale : List Name} {airlines : List Airline} {trace es : List Event} {s s' : State}

theorem rank_steps (h : Inv stale airlines trace s) (hstep : Steps airlines s es s') :
    s'.rank airlines.length + 1 ≤ s.rank airlines.length := by
  have hforked := h.forked_le
  have hestablished := h.established_le
  unfold State.rank
  cases hstep with
  | @forked i pc lt =>
    have hnone := h.unforked i (by rw [pc]; rfl) lt
    have hsum := Update.sum_map_set_add childRank hnone (some .listen)
    simp only [pc, ParentPc.rank, childRank] at hsum ⊢
    omega
  | @forkFailed i pc lt =>
    simp only [pc, ParentPc.rank]
    omega
  | @allForked i pc le =>
    simp only [pc, ParentPc.forked, ParentPc.rank] at hforked ⊢
    omega
  | listens pc =>
    simp only [pc, ParentPc.rank, listen_children]
    omega
  | @established i pc lt path =>
    simp only [pc, ParentPc.rank]
    omega
  | @simulates i pc le =>
    simp only [pc, ParentPc.established, ParentPc.rank] at hestablished ⊢
    omega
  | @childListens i self child airline =>
    have hsum := Update.sum_map_set_add childRank child (some .establish)
    simp only [listen_parent, childRank] at hsum ⊢
    omega
  | @childRuns i child path =>
    have hsum := Update.sum_map_set_add childRank child (some .running)
    simp only [childRank] at hsum ⊢
    omega

theorem length_le_of_exec (hplaced : Display.Placed airlines) {as : List Action}
    (h : exec (step airlines) (init stale airlines) as = some (trace, s)) :
    as.length ≤ 4 * airlines.length + 3 := by
  have hcount := exec_countP (P := fun s => ∃ trace, Inv stale airlines trace s)
    (fun _ _ _ _ ⟨_, hi⟩ hs => ⟨_, inv_steps hplaced hi (step_cases hs)⟩)
    (State.rank airlines.length) (p := fun _ => true)
    (fun _ _ _ _ ⟨_, hi⟩ hs => rank_steps hi (step_cases hs)) ⟨[], inv_init⟩ h
  rw [List.countP_true] at hcount
  have hrank : (init stale airlines).rank airlines.length = 4 * airlines.length + 3 := by
    simp only [State.rank, init, ParentPc.rank, List.map_replicate, List.sum_replicate_nat,
      childRank]
    omega
  omega

end Rank

/-! ## How a start ends -/

/-- Everybody has a connection to where the others listen. -/
structure Connected (airlines : List Airline) (s : State) : Prop where
  parent : s.parent = .simulate
  running : ∀ i < airlines.length, s.children[i]? = some (some .running)
  conns : s.conns = (List.range airlines.length).map fun i => airName (i : ℕ)
  listens : (PARENT_NAME, .parent) ∈ s.bound
  childListens : ∀ i < airlines.length, (airName i, .child i) ∈ s.bound
  alone : ∀ name p q, (name, p) ∈ s.bound → (name, q) ∈ s.bound → p = q

section End

variable {stale : List Name} {airlines : List Airline} {trace : List Event} {s : State}

/-- Where nobody can go on, the map runs or waits for a child, and every child runs. -/
theorem Inv.stuck (h : Inv stale airlines trace s) (hstuck : ∀ a, step airlines s a = none) :
    (s.parent = .simulate ∨
      ∃ i < airlines.length, s.parent = .establish i ∧ airName i ∉ s.paths) ∧
    ∀ (i : ℕ) (pc : ChildPc), s.children[i]? = some (some pc) → pc = .running := by
  have hparent : s.parent = .simulate ∨
      ∃ i < airlines.length, s.parent = .establish i ∧ airName i ∉ s.paths := by
    have hstep := hstuck (.parent true)
    simp only [step] at hstep
    cases pc : s.parent with
    | fork i =>
      rw [pc] at hstep
      dsimp only at hstep
      split_ifs at hstep
    | listen =>
      rw [pc] at hstep
      cases hstep
    | simulate => exact .inl rfl
    | establish i =>
      rw [pc] at hstep
      dsimp only at hstep
      split_ifs at hstep with hi hpath
      exact .inr ⟨i, hi, rfl, hpath⟩
  refine ⟨hparent, fun i pc hchild => ?_⟩
  have hlistening : Listening s .parent := by
    rcases hparent with hpc | ⟨k, -, hpc, -⟩
    · exact .inl hpc
    · exact .inr ⟨k, hpc⟩
  have hpath : PARENT_NAME ∈ s.paths := h.path_of_listening hlistening
  have hi : i < airlines.length := h.length ▸ (List.getElem?_eq_some_iff.mp hchild).1
  have hstep := hstuck (.child i)
  simp only [step, hchild, List.getElem?_eq_getElem hi] at hstep
  cases pc with
  | listen => cases hstep
  | establish =>
    dsimp only at hstep
    rw [if_pos hpath] at hstep
    cases hstep
  | running => rfl

/-- **How a start ends.** Whatever the order in which the processes go on, a start takes at most
`4 n + 3` steps for `n` airlines, and when nobody can go on, everybody is connected exactly when no
`fork` failed and no socket file had been left by an earlier run. The airlines are numbered as
`main` does it (`placed_readConfig`). -/
theorem connected_iff (hplaced : Display.Placed airlines) {as : List Action}
    (h : exec (step airlines) (init stale airlines) as = some (trace, s)) :
    as.length ≤ 4 * airlines.length + 3 ∧
      ((∀ a, step airlines s a = none) →
        (Connected airlines s ↔ (∀ i, .forkFailed i ∉ trace) ∧ PARENT_NAME ∉ stale ∧
          ∀ i < airlines.length, airName i ∉ stale)) := by
  have hinv := run_inv hplaced (run_of_exec h)
  refine ⟨length_le_of_exec hplaced h, fun hstuck => ?_⟩
  obtain ⟨hparent, hrunning⟩ := hinv.stuck hstuck
  constructor
  · intro hconnected
    refine ⟨fun i hfailed => ?_, ((hinv.bound _ _).mp hconnected.listens).1, fun i hi =>
      ((hinv.bound _ _).mp (hconnected.childListens i hi)).1⟩
    obtain ⟨hi, hnone⟩ := (hinv.failed i).mp hfailed
    have hrun := hconnected.running i (hi.trans_le hinv.forked_le)
    rw [hnone] at hrun
    cases hrun
  · rintro ⟨hforks, hfresh, hfreshChild⟩
    have hforked : s.parent.forked airlines.length = airlines.length := by
      rcases hparent with hpc | ⟨k, -, hpc, -⟩ <;> rw [hpc] <;> rfl
    have hchildren : ∀ i < airlines.length, s.children[i]? = some (some .running) := by
      intro i hi
      cases hchild : s.children[i]? with
      | none =>
        have hge := List.getElem?_eq_none_iff.mp hchild
        rw [hinv.length] at hge
        exact absurd hi (Nat.not_lt.mpr hge)
      | some child =>
        cases child with
        | none => exact absurd ((hinv.failed i).mpr ⟨hforked.symm ▸ hi, hchild⟩) (hforks i)
        | some pc => rw [hrunning i pc hchild]
    have hlistens : ∀ i < airlines.length, Listening s (.child i) := fun i hi =>
      .inr (hchildren i hi)
    have hsimulate : s.parent = .simulate := by
      rcases hparent with hpc | ⟨k, hk, -, hpath⟩
      · exact hpc
      · exact absurd (hinv.path_of_listening (hlistens k hk)) hpath
    refine ⟨hsimulate, hchildren, ?_, (hinv.bound _ _).mpr ⟨hfresh, rfl, .inl hsimulate⟩,
      fun i hi => (hinv.bound _ _).mpr ⟨hfreshChild i hi, rfl, hlistens i hi⟩,
      fun name p q hp hq => ?_⟩
    · have hconns := hinv.conns
      rwa [hsimulate] at hconns
    · obtain ⟨-, hp, -⟩ := (hinv.bound name p).mp hp
      obtain ⟨-, hq, -⟩ := (hinv.bound name q).mp hq
      exact nameOf_inj (hp.symm.trans hq)

end End

/-- A folder with two airlines without planes. -/
def pairConfig : List DirEntry :=
  [{ d_name := ['a', 'i', 'r', 'l', 'i', 'n', 'e', '_', '1'], text := ['0', '\n'] },
    { d_name := ['a', 'i', 'r', 'l', 'i', 'n', 'e', '_', '2'], text := ['0', '\n'] }]

def pair : List Airline := [{ id := 0, planes := [] }, { id := 1, planes := [] }]

/-- The second child is the first to listen. -/
def pairStart : List Action :=
  [.parent true, .parent true, .child 1, .parent true, .child 0, .parent true, .parent true,
    .parent true, .child 0, .parent true, .child 1]

theorem connected_iff_pair : ∃ map s, readConfig soloText pairConfig = .ok (map, pair) ∧
    exec (step pair) (init [] pair) pairStart = some ([], s) ∧ Connected pair s := by
  obtain ⟨⟨map, airlines⟩, hread, hpair⟩ : ∃ r, readConfig soloText pairConfig = .ok r ∧
      r.2 = pair := ⟨_, rfl, by decide +kernel⟩
  obtain rfl : airlines = pair := hpair
  have hover : (exec (step pair) (init [] pair) pairStart).map
      (fun r => (r.1, r.2.parent, r.2.children)) =
        some ([], .simulate, [some .running, some .running]) := by decide +kernel
  obtain ⟨⟨trace, s⟩, hexec, hlast⟩ := Option.map_eq_some_iff.mp hover
  obtain ⟨rfl, hparent, hchildren⟩ : trace = [] ∧ s.parent = .simulate ∧
      s.children = [some .running, some .running] := by simpa using hlast
  refine ⟨map, s, hread, hexec,
    ((connected_iff (placed_readConfig hread) hexec).2 fun a => ?_).mpr (by simp)⟩
  cases a with
  | parent forked => simp only [step, hparent]
  | child i =>
    simp only [step, hchildren]
    rcases i with _ | _ | i <;> rfl

end PlaneSim.Startup
