import EditorDocs.Tree.Basic
import Mathlib.Tactic.Lemma

/-!
# Cells

A tree can be put together before its parts are known: each directory has a cell that refers to the cells of
its subdirectories, and cells are filled in while others already refer to them.  What a cell shows is then
up to all cells that are reached from it (`DirTree.Shows`), but to nothing else: it stays the same when a
cell is filled in that is not reached from it (`DirTree.Shows.keep`).

To make sure of that by numbers alone, cells are only referred to from cells that were there before them.
-/

namespace EditorDocs.DirTree

open FileSystem (Name)

/-- A cell: a directory as far as it is filled in. -/
structure Cell where
  /-- The names of the files. -/
  files : List Name
  /-- The cells of the subdirectories that were come upon so far. -/
  dirs : List Nat

namespace Cell

/-- The cell refers to one more. -/
def refer (c : Cell) (r : Nat) : Cell := { c with dirs := c.dirs ++ [r] }

/-- The cell holds one more name. -/
def hold (c : Cell) (name : Name) : Cell := { c with files := c.files ++ [name] }

/-- There is a new cell that `r` refers to. -/
def attach (r : Nat) (new : Cell) (cells : List Cell) : List Cell :=
  cells.modify r (·.refer cells.length) ++ [new]

end Cell

/-! ## What is kept -/

/-- What was in cells is still in them, the one of `r` apart. -/
def KeepsBut (r : Nat) (cells cells' : List Cell) : Prop :=
  ∀ i c, i ≠ r → cells[i]? = some c → cells'[i]? = some c

/-- All cells are kept. -/
lemma KeepsBut.refl (r : Nat) (cells : List Cell) : KeepsBut r cells cells := fun _ _ _ h => h

/-- What is kept twice is kept. -/
lemma KeepsBut.trans {r : Nat} {a b c : List Cell} (hab : KeepsBut r a b) (hbc : KeepsBut r b c) :
    KeepsBut r a c := fun i d hi hd => hbc i d hi (hab i d hi hd)

/-- When a new cell is attached to `r`, that refers to the new one and all others are kept. -/
lemma Cell.attach_spec {cells : List Cell} {r : Nat} {c : Cell} (hc : cells[r]? = some c) (new : Cell) :
    (attach r new cells)[r]? = some (c.refer cells.length) ∧
      (attach r new cells)[cells.length]? = some new ∧ KeepsBut r cells (attach r new cells) := by
  have hr : r < cells.length := (List.getElem?_eq_some_iff.mp hc).1
  have hlength : (cells.modify r (·.refer cells.length)).length = cells.length := List.length_modify ..
  refine ⟨?_, ?_, ?_⟩
  · rw [attach, List.getElem?_append_left (by omega), List.getElem?_modify_eq, hc]
    rfl
  · rw [attach, List.getElem?_append_right (by omega), hlength, Nat.sub_self]
    rfl
  · intro i d hi hd
    have hlt : i < cells.length := (List.getElem?_eq_some_iff.mp hd).1
    rw [attach, List.getElem?_append_left (by omega), List.getElem?_modify_ne _ _ hi.symm, hd]

/-- When the cell of `r` is filled in, all others are kept. -/
lemma Cell.modify_spec {cells : List Cell} {r : Nat} {c : Cell} (hc : cells[r]? = some c)
    (f : Cell → Cell) :
    (cells.modify r f)[r]? = some (f c) ∧ KeepsBut r cells (cells.modify r f) := by
  refine ⟨?_, fun i d hi hd => ?_⟩
  · rw [List.getElem?_modify_eq, hc]
    rfl
  · rw [List.getElem?_modify_ne _ _ hi.symm, hd]

/-! ## What a cell shows -/

section Shows

variable {α : Type} (make : List Name → List α → α)

mutual

/-- The cell `r` shows what is made of its names and of what the cells show that it refers to: it is there,
and so is all that it refers to, and what it refers to has numbers from `least` on. -/
inductive Shows (cells : List Cell) (least : Nat) : Nat → α → Prop
  /-- A cell shows what is made of its parts. -/
  | cell {r : Nat} {c : Cell} {vs : List α} (hc : cells[r]? = some c)
      (hdirs : ShowsAll cells least c.dirs vs) : Shows cells least r (make c.files vs)

/-- Cells, with numbers from `least` on, show so many things. -/
inductive ShowsAll (cells : List Cell) (least : Nat) : List Nat → List α → Prop
  /-- No cells show nothing. -/
  | nil : ShowsAll cells least [] []
  /-- The first cell shows the first one. -/
  | cons {r : Nat} {v : α} {rs : List Nat} {vs : List α} (hleast : least ≤ r)
      (hr : Shows cells least r v) (hrs : ShowsAll cells least rs vs) :
      ShowsAll cells least (r :: rs) (v :: vs)

end

variable {make}

mutual

/-- A cell shows at most one thing. -/
lemma Shows.unique {cells : List Cell} {least r : Nat} {v w : α} :
    Shows make cells least r v → Shows make cells least r w → v = w
  | .cell hc hdirs, .cell hc' hdirs' => by
    cases Option.some.inj (hc.symm.trans hc')
    rw [hdirs.unique hdirs']

/-- So do cells. -/
lemma ShowsAll.unique {cells : List Cell} {least : Nat} {rs : List Nat} {vs ws : List α} :
    ShowsAll make cells least rs vs → ShowsAll make cells least rs ws → vs = ws
  | .nil, .nil => rfl
  | .cons _ hr hrs, .cons _ hr' hrs' => by rw [hr.unique hr', hrs.unique hrs']

end

mutual

/-- What a cell shows stays if the cell that is filled in is none of those referred to. -/
lemma Shows.keep {cells cells' : List Cell} {q least least' r : Nat} {v : α}
    (hkeep : KeepsBut q cells cells') (hq : q < least) (hleast : least' ≤ least) (hr : r ≠ q) :
    Shows make cells least r v → Shows make cells' least' r v
  | .cell hc hdirs => .cell (hkeep r _ hr hc) (hdirs.keep hkeep hq hleast)

/-- So does what cells show. -/
lemma ShowsAll.keep {cells cells' : List Cell} {q least least' : Nat} {rs : List Nat} {vs : List α}
    (hkeep : KeepsBut q cells cells') (hq : q < least) (hleast : least' ≤ least) :
    ShowsAll make cells least rs vs → ShowsAll make cells' least' rs vs
  | .nil => .nil
  | .cons hr hshows hrest =>
    .cons (Nat.le_trans hleast hr) (hshows.keep hkeep hq hleast (by omega))
      (hrest.keep hkeep hq hleast)

end

end Shows

end EditorDocs.DirTree
