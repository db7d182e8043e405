import EditorDocs.Proofs.Result
import EditorDocs.Proofs.Tree.Cells
import EditorDocs.Proofs.Tree.Walk
import Mathlib.Order.Nat

/-!
# Trees that grow

The tree of a directory can also be built without gathering anything.  Each directory that is come upon gets
an empty cell, a reference to the cell is put into that of its parent, and the directory waits; when it has
its turn its entries are gone through in the order in which they are listed, names into its own cell, and
directories like itself.  The directory that was come upon last has its turn first (`Walk.Growth.run`).

What carries the argument is what the turns of one directory and all below it do, whatever else waits: they
make its reports, touch no other cell that was there before, and leave its tree in its cell by means of new
cells only (`Walk.Growth.run_visit`).  What its own entries do to the cells is put together entry by entry
(`Walk.Growth.Fills`).  So a tree that grows is the tree of the walk, with the same reports,
and a strict walk ends with the same first one (`Walk.Growth.tree_grows`).
-/

namespace EditorDocs.Walk

open FileSystem (Entries Name Node)
open DirTree (Cell KeepsBut Shows ShowsAll)

/-- A directory that waits for its turn. -/
structure Waiting where
  /-- Its path. -/
  path : Text
  /-- Its entries, or the cause that keeps them from being listed. -/
  found : Except Errno Entries
  /-- Its cell. -/
  cell : Nat
  /-- Its depth. -/
  depth : Nat

/-- A tree that grows. -/
structure Growth where
  /-- The directories that wait for their turns, the last one first. -/
  pending : List Waiting
  /-- The cells there are. -/
  cells : List Cell
  /-- The reports that were made. -/
  reports : List Skipped

namespace Growth

/-- A directory waits, and there is no cell but its own. -/
def start (path : Text) (found : Except Errno Entries) : Growth :=
  ⟨[⟨path, found, 0, 0⟩], [⟨[], []⟩], []⟩

/-- A directory is left empty. A strict walk ends with it. -/
def note (w : Walk) (g : Growth) (skipped : Skipped) : Except Skipped Growth :=
  if w.strict then .error skipped else .ok { g with reports := g.reports ++ [skipped] }

/-- An entry of a directory is come upon: a directory gets a cell, and waits unless it lies too deep; the
name of anything else goes into the cell. -/
def meet (w : Walk) (d : Waiting) (g : Growth) : Name × Node → Except Skipped Growth
  | (name, .directory es) =>
    let path := FileSystem.under d.path name
    let cells := Cell.attach d.cell ⟨[], []⟩ g.cells
    match w.limitAt? d.depth with
    | some limit => note w { g with cells := cells } ⟨path, .depth limit⟩
    | none =>
      .ok ⟨⟨path, w.listing path es, g.cells.length, d.depth + 1⟩ :: g.pending, cells, g.reports⟩
  | (name, _) => .ok { g with cells := g.cells.modify d.cell (·.hold name) }

/-- A directory has its turn. -/
def visit (w : Walk) (d : Waiting) (g : Growth) : Except Skipped Growth :=
  match d.found with
  | .error e => note w g ⟨d.path, .system ⟨e, d.path, none⟩⟩
  | .ok es => (Entries.sort w.listsBefore es).foldlM (meet w d) g

/-! ## How long it takes -/

/-- A bound on the turns of the directories that wait. -/
def load (g : Growth) : Nat :=
  Task.totalWeight (g.pending.map fun d => .visit d.path d.found d.depth)

section Load

variable {w : Walk} {d : Waiting} {g g' : Growth}

/-- A report is no load. -/
lemma load_note {skipped : Skipped} (h : note w g skipped = .ok g') : g'.load = g.load := by
  unfold note at h
  split at h
  · cases h
  · cases h
    rfl

/-- An entry that is come upon is no more than its own load. -/
lemma load_meet {e : Name × Node} (h : meet w d g e = .ok g') : g'.load ≤ 2 * e.2.size + g.load := by
  unfold meet at h
  split at h
  · rename_i name es
    simp only at h
    split at h
    · have hsame := load_note h
      simp only [load] at hsame ⊢
      omega
    · cases h
      have hweight := w.weight_listing_le (FileSystem.under d.path name) es (d.depth + 1)
      simp only [load, List.map_cons, Task.totalWeight, Node.size]
      omega
  · cases h
    exact Nat.le_add_left _ _

/-- Neither are entries. -/
lemma load_foldlM_meet {es : Entries} (h : es.foldlM (meet w d) g = .ok g') :
    g'.load ≤ 2 * Node.sizeOfEntries es + g.load := by
  induction es generalizing g with
  | nil =>
    cases h
    simp [Node.sizeOfEntries]
  | cons e rest ih =>
    rw [List.foldlM_cons] at h
    obtain ⟨g₁, hfirst, hrest⟩ := Result.of_bind h
    have hle := load_meet hfirst
    have hle' := ih hrest
    rw [Node.sizeOfEntries]
    omega

/-- The turn of a directory takes its load away. -/
lemma load_visit_lt {rest : List Waiting} {cells : List Cell} {reports : List Skipped}
    (h : visit w d ⟨rest, cells, reports⟩ = .ok g') :
    g'.load < load ⟨d :: rest, cells, reports⟩ := by
  unfold visit at h
  obtain ⟨path, found, r, depth⟩ := d
  cases found with
  | error e =>
    have hnote := load_note h
    simp only [load, List.map_cons, Task.totalWeight, Task.weight] at hnote ⊢
    omega
  | ok es =>
    have hle := load_foldlM_meet h
    rw [sizeOfEntries_sort] at hle
    simp only [load, List.map_cons, Task.totalWeight, Task.weight] at hle ⊢
    omega

end Load

/-- All that wait have their turns, the last one first. -/
def run (w : Walk) (g : Growth) : Except Skipped Growth :=
  match g with
  | ⟨[], cells, reports⟩ => .ok ⟨[], cells, reports⟩
  | ⟨d :: rest, cells, reports⟩ =>
    match _h : visit w d ⟨rest, cells, reports⟩ with
    | .error skipped => .error skipped
    | .ok g' => run w g'
termination_by g.load
decreasing_by
  exact load_visit_lt _h

/-- What waits has its turn before all that waited longer. -/
lemma run_cons (w : Walk) (d : Waiting) (rest : List Waiting) (cells : List Cell)
    (reports : List Skipped) :
    run w ⟨d :: rest, cells, reports⟩ = visit w d ⟨rest, cells, reports⟩ >>= run w := by
  rw [run]
  split
  · rename_i h
    rw [h]
    rfl
  · rename_i h
    rw [h]
    rfl

/-! ## The turns of a directory -/

/-- What is made of reports: a strict walk ends with the first one. -/
def noted (w : Walk) : List Skipped → Except Skipped Unit
  | [] => .ok ()
  | first :: _ => if w.strict then .error first else .ok ()

/-- Reports are made one after the other. -/
lemma noted_append (w : Walk) (xs ys : List Skipped) :
    noted w (xs ++ ys) = noted w xs >>= fun _ => noted w ys := by
  cases xs with
  | nil => rfl
  | cons first rest =>
    rw [List.cons_append, noted, noted]
    by_cases hstrict : w.strict = true
    · rw [if_pos hstrict]
      rfl
    · rw [if_neg hstrict]
      cases ys with
      | nil => rfl
      | cons y ys => simp only [noted, if_neg hstrict]; rfl

/-- One report goes behind those that were made. -/
lemma note_eq (w : Walk) (pending : List Waiting) (cells : List Cell) (before : List Skipped)
    (skipped : Skipped) : note w ⟨pending, cells, before⟩ skipped =
      noted w [skipped] >>= fun _ => .ok ⟨pending, cells, before ++ [skipped]⟩ := by
  unfold note noted
  split <;> rfl

section Names

variable {e : Name × Node} {rest : Entries}

/-- An entry that is no directory is among the names of the files. -/
lemma fileNames_of_name (h : ∀ es, e.2 ≠ .directory es) :
    fileNames (e :: rest) = e.1 :: fileNames rest := by
  obtain ⟨name, n⟩ := e
  cases n with
  | directory es => exact absurd rfl (h es)
  | file content => rfl
  | link target => rfl

/-- Such an entry is not among the subdirectories. -/
lemma subdirectories_of_name (h : ∀ es, e.2 ≠ .directory es) :
    subdirectories (e :: rest) = subdirectories rest := by
  obtain ⟨name, n⟩ := e
  cases n with
  | directory es => exact absurd rfl (h es)
  | file content => rfl
  | link target => rfl

end Names

/-- Entries went into the cell `r`, which held `c` before: it refers to as many new cells as there are trees,
which show them, and all other cells are as they were. -/
structure Fills (r : Nat) (cells : List Cell) (c : Cell) (es : Entries) (trees : List DirTree)
    (cells' : List Cell) : Prop where
  /-- The other cells are as they were. -/
  keeps : KeepsBut r cells cells'
  /-- The names and the trees are those of the cell. -/
  filled : ∃ refs, cells'[r]? = some ⟨c.files ++ fileNames es, c.dirs ++ refs⟩ ∧
    ShowsAll DirTree.node cells' cells.length refs trees

namespace Fills

variable {r : Nat} {cells cells' cells'' : List Cell} {c : Cell} {rest : Entries} {trees : List DirTree}

/-- No entries change nothing. -/
lemma nil (hc : cells[r]? = some c) : Fills r cells c [] [] cells :=
  ⟨.refl _ _, [], by simpa [fileNames] using hc, .nil⟩

/-- An entry that is no directory puts its name before those of the others. -/
lemma name {e : Name × Node} (he : ∀ es, e.2 ≠ .directory es) (hc : cells[r]? = some c)
    (h : Fills r (cells.modify r (·.hold e.1)) (c.hold e.1) rest trees cells') :
    Fills r cells c (e :: rest) trees cells' := by
  obtain ⟨hkeep, refs, hcell, hshows⟩ := h
  rw [List.length_modify] at hshows
  refine ⟨(Cell.modify_spec hc (·.hold e.1)).2.trans hkeep, refs, ?_, hshows⟩
  rw [hcell, fileNames_of_name he]
  simp [Cell.hold]

/-- The cell of a directory that was come upon first is empty until its turn. -/
lemma waits (hc : cells[r]? = some c)
    (h : Fills r (Cell.attach r ⟨[], []⟩ cells) (c.refer cells.length) rest trees cells') :
    cells'[cells.length]? = some ⟨[], []⟩ := by
  have hlt := (List.getElem?_eq_some_iff.mp hc).1
  exact h.keeps _ _ hlt.ne' (Cell.attach_spec hc ⟨[], []⟩).2.1

/-- When its turn has filled that cell alone, its tree stands before those of the others. -/
lemma directory {d : Name × Entries} {t : DirTree} (hc : cells[r]? = some c)
    (h : Fills r (Cell.attach r ⟨[], []⟩ cells) (c.refer cells.length) rest trees cells')
    (hkeep : KeepsBut cells.length cells' cells'')
    (ht : Shows DirTree.node cells'' cells'.length cells.length t) :
    Fills r cells c ((d.1, .directory d.2) :: rest) (t :: trees) cells'' := by
  obtain ⟨-, hnew, hattach⟩ := Cell.attach_spec hc ⟨[], []⟩
  have hlt := (List.getElem?_eq_some_iff.mp hc).1
  have hlt' := (List.getElem?_eq_some_iff.mp hnew).1
  have hlt'' := (List.getElem?_eq_some_iff.mp (h.waits hc)).1
  obtain ⟨hkeep', refs, hcell, hshows⟩ := h
  refine ⟨fun i b hi hb => ?_, cells.length :: refs, ?_, .cons le_rfl ?_ ?_⟩
  · have hother : i ≠ cells.length := (List.getElem?_eq_some_iff.mp hb).1.ne
    exact hkeep i b hother (hkeep' i b hi (hattach i b hi hb))
  · rw [hkeep _ _ hlt.ne hcell]
    simp [Cell.refer, fileNames]
  · exact ht.keep (KeepsBut.refl r cells'') (hlt.trans hlt'') hlt''.le hlt.ne'
  · exact hshows.keep hkeep hlt' hlt'.le

end Fills

section Turns

variable {w : Walk}

/-- Of an entry that is no directory, the name goes into the cell, and there is nothing else to it. -/
lemma meet_name (d : Waiting) (g : Growth) {e : Name × Node} (h : ∀ es, e.2 ≠ .directory es) :
    meet w d g e = .ok { g with cells := g.cells.modify d.cell (·.hold e.1) } := by
  obtain ⟨name, n⟩ := e
  cases n with
  | directory es => exact absurd rfl (h es)
  | file content => rfl
  | link target => rfl

/-- The entries of a directory at the deepest level are come upon: its subdirectories are left empty, and
what waits stays as it is. -/
lemma foldlM_meet_of_limit {d : Waiting} {limit : Nat} (hlimit : w.limitAt? d.depth = some limit)
    (pending : List Waiting) (es : Entries) {cells : List Cell} (before : List Skipped) {c : Cell}
    (hc : cells[d.cell]? = some c) :
    let skipped : List Skipped := (subdirectories es).map fun e =>
      ⟨FileSystem.under d.path e.1, .depth limit⟩
    ∃ cells', es.foldlM (meet w d) ⟨pending, cells, before⟩ =
        (noted w skipped >>= fun _ => .ok ⟨pending, cells', before ++ skipped⟩) ∧
      Fills d.cell cells c es ((subdirectories es).map fun _ => DirTree.empty) cells' := by
  -- on the entries; those that come later are met with one cell more, or one name more in the cell
  induction es generalizing cells before c with
  | nil =>
    refine ⟨cells, ?_, .nil hc⟩
    simp [subdirectories, noted]
    rfl
  | cons e rest ih =>
    intro skipped
    by_cases hdirectory : ∃ es, e.2 = .directory es
    · obtain ⟨name, n⟩ := e
      obtain ⟨es, rfl⟩ := hdirectory
      let first : Skipped := ⟨FileSystem.under d.path name, .depth limit⟩
      obtain ⟨cells', hrun, hfills⟩ := ih (before ++ [first]) (Cell.attach_spec hc ⟨[], []⟩).1
      have hmeet : meet w d ⟨pending, cells, before⟩ (name, .directory es) =
          note w ⟨pending, Cell.attach d.cell ⟨[], []⟩ cells, before⟩ first := by
        simp only [meet, hlimit]
        rfl
      have hskipped : skipped = [first] ++ (subdirectories rest).map fun e =>
          ⟨FileSystem.under d.path e.1, .depth limit⟩ := rfl
      refine ⟨cells', ?_, hfills.directory (d := (name, es)) hc (.refl _ _)
        (.cell (hfills.waits hc) .nil)⟩
      rw [List.foldlM_cons, hmeet, note_eq, hskipped, noted_append, ← List.append_assoc]
      cases noted w [first] with
      | error skipped => rfl
      | ok u => exact hrun
    · have hname : ∀ es, e.2 ≠ .directory es := fun es h => hdirectory ⟨es, h⟩
      obtain ⟨cells', hrun, hfills⟩ := ih before (Cell.modify_spec hc (·.hold e.1)).1
      have hskipped : skipped = (subdirectories rest).map fun e =>
          ⟨FileSystem.under d.path e.1, .depth limit⟩ := by rw [← subdirectories_of_name hname]
      rw [List.foldlM_cons, meet_name d _ hname, hskipped, subdirectories_of_name hname]
      exact ⟨cells', hrun, hfills.name hname hc⟩

/-- The entries of a directory above the deepest level are come upon, and its subdirectories have their
turns, the last one first, if these do what is said of them. -/
lemma run_foldlM_meet {d : Waiting} (hlimit : w.limitAt? d.depth = none)
    (tree : Name × Entries → DirTree) (reports : Name × Entries → List Skipped) (es : Entries)
    (hbelow : ∀ e ∈ subdirectories es, ∀ (r : Nat) (pending : List Waiting) (cells : List Cell)
      (before : List Skipped), cells[r]? = some ⟨[], []⟩ →
      let path := FileSystem.under d.path e.1
      ∃ cells', run w ⟨⟨path, w.listing path e.2, r, d.depth + 1⟩ :: pending, cells, before⟩ =
          (noted w (reports e) >>= fun _ => run w ⟨pending, cells', before ++ reports e⟩) ∧
        KeepsBut r cells cells' ∧ Shows DirTree.node cells' cells.length r (tree e))
    (pending : List Waiting) {cells : List Cell} (before : List Skipped) {c : Cell}
    (hc : cells[d.cell]? = some c) :
    let skipped := (subdirectories es).reverse.flatMap reports
    ∃ cells', (es.foldlM (meet w d) ⟨pending, cells, before⟩ >>= run w) =
        (noted w skipped >>= fun _ => run w ⟨pending, cells', before ++ skipped⟩) ∧
      Fills d.cell cells c es ((subdirectories es).map tree) cells' := by
  -- on the entries; while those that come later have their turns, an earlier directory waits with its cell
  induction es generalizing pending cells c with
  | nil =>
    refine ⟨cells, ?_, .nil hc⟩
    simp [subdirectories, noted]
    rfl
  | cons e rest ih =>
    intro skipped
    by_cases hdirectory : ∃ es, e.2 = .directory es
    · obtain ⟨name, n⟩ := e
      obtain ⟨es, rfl⟩ := hdirectory
      let path := FileSystem.under d.path name
      let child : Waiting := ⟨path, w.listing path es, cells.length, d.depth + 1⟩
      have hmeet : meet w d ⟨pending, cells, before⟩ (name, .directory es) =
          .ok ⟨child :: pending, Cell.attach d.cell ⟨[], []⟩ cells, before⟩ := by
        simp only [meet, hlimit]
        rfl
      -- the later entries: the cell of this one is not touched
      obtain ⟨cells₂, hrun, hfills⟩ := ih (fun e he => hbelow e (List.mem_cons_of_mem _ he))
        (child :: pending) (Cell.attach_spec hc ⟨[], []⟩).1
      -- this one: its cell is the only one that is touched
      obtain ⟨cells₃, hturn, hkeep, hshows⟩ := hbelow (name, es) List.mem_cons_self cells.length
        pending cells₂ (before ++ (subdirectories rest).reverse.flatMap reports) (hfills.waits hc)
      have hskipped : skipped =
          (subdirectories rest).reverse.flatMap reports ++ reports (name, es) := by
        simp [skipped, subdirectories]
      refine ⟨cells₃, ?_, hfills.directory (d := (name, es)) hc hkeep hshows⟩
      rw [List.foldlM_cons, hmeet, hskipped, noted_append]
      refine hrun.trans ?_
      cases noted w ((subdirectories rest).reverse.flatMap reports) with
      | error skipped => rfl
      | ok u =>
        rw [← List.append_assoc]
        exact hturn
    · have hname : ∀ es, e.2 ≠ .directory es := fun es h => hdirectory ⟨es, h⟩
      have hdirs : subdirectories (e :: rest) = subdirectories rest := subdirectories_of_name hname
      rw [hdirs] at hbelow
      obtain ⟨cells', hrun, hfills⟩ := ih hbelow pending (Cell.modify_spec hc (·.hold e.1)).1
      have hskipped : skipped = (subdirectories rest).reverse.flatMap reports := by rw [← hdirs]
      rw [List.foldlM_cons, meet_name d _ hname, hskipped, hdirs]
      exact ⟨cells', hrun, hfills.name hname hc⟩

/-- The turns of a directory and of all below it: its reports are made, its cell shows its tree by means of
new cells only, and all other cells are as they were. -/
theorem run_visit (path : Text) (found : Except Errno Entries) (depth : Nat) (r : Nat)
    (pending : List Waiting) (cells : List Cell) (before : List Skipped)
    (hr : cells[r]? = some ⟨[], []⟩) :
    let reports := w.reportsOf path found depth
    ∃ cells', run w ⟨⟨path, found, r, depth⟩ :: pending, cells, before⟩ =
        (noted w reports >>= fun _ => run w ⟨pending, cells', before ++ reports⟩) ∧
      KeepsBut r cells cells' ∧
      Shows DirTree.node cells' cells.length r (w.cut depth (w.treeOf path found)) := by
  -- the directories below one that is listed weigh less than it
  induction path, found, depth using reportsOf.induct w generalizing r pending cells before with
  | case1 path depth e =>
    refine ⟨cells, ?_, .refl _ _, ?_⟩
    · rw [run_cons, visit, reportsOf_error]
      simp only
      rw [note_eq]
      cases noted w [⟨path, .system ⟨e, path, none⟩⟩] <;> rfl
    · rw [treeOf_error, cut_empty]
      exact .cell hr .nil
  | case2 path depth es limit hlimit =>
    obtain ⟨cells', hrun, hkeep, refs, hcell, hshows⟩ :=
      foldlM_meet_of_limit (d := ⟨path, .ok es, r, depth⟩) hlimit pending
        (Entries.sort w.listsBefore es) before hr
    refine ⟨cells', ?_, hkeep, ?_⟩
    · rw [run_cons, visit, reportsOf_of_limit _ _ _ _ hlimit]
      simp only
      rw [hrun]
      cases noted w _ <;> rfl
    · rw [treeOf_ok, cut_of_limit hlimit, List.map_map]
      exact .cell hcell hshows
  | case3 path depth es hlimit ih =>
    obtain ⟨cells', hrun, hkeep, refs, hcell, hshows⟩ :=
      run_foldlM_meet (d := ⟨path, .ok es, r, depth⟩) hlimit
        (fun e => w.cut (depth + 1) (w.treeBelow path e)) (w.reportsBelow path (depth + 1))
        (Entries.sort w.listsBefore es) (fun e he => ih ⟨e, he⟩) pending before hr
    refine ⟨cells', ?_, hkeep, ?_⟩
    · rw [run_cons, visit, reportsOf_of_no_limit _ _ _ _ hlimit]
      exact hrun
    · rw [treeOf_ok, cut_of_no_limit hlimit, List.map_map]
      exact .cell hcell hshows

end Turns

/-- A tree that grows is the tree of the walk, and its reports are those of the walk.  When all had their
turns, the first cell shows this tree and nothing else.  If the walk ends with a report, the tree grows up
to the same one. -/
theorem tree_grows (w : Walk) (path : Text) (found : Except Errno Entries) :
    match w.tree path found with
    | .error first => run w (start path found) = .error first
    | .ok (tree, reports) => ∃ cells, run w (start path found) = .ok ⟨[], cells, reports⟩ ∧
        ∀ t, Shows DirTree.node cells 1 0 t ↔ t = tree := by
  obtain ⟨cells, hrun, -, hshows⟩ := run_visit (w := w) path found 0 0 [] [⟨[], []⟩] [] rfl
  have hend : run w ⟨[], cells, w.reportsOf path found 0⟩ =
      .ok ⟨[], cells, w.reportsOf path found 0⟩ := by rw [run]
  rw [List.nil_append, hend] at hrun
  have hshown : ∀ t, Shows DirTree.node cells 1 0 t ↔ t = w.cut 0 (w.treeOf path found) := by
    refine fun t => ⟨fun ht => ht.unique hshows, ?_⟩
    rintro rfl
    exact hshows
  rw [tree_eq]
  rcases hreports : w.reportsOf path found 0 with _ | ⟨first, rest⟩
  · rw [hreports] at hrun
    simp only [endingWith, ite_self]
    exact ⟨cells, hrun, hshown⟩
  · rw [hreports] at hrun
    by_cases hstrict : w.strict = true
    · simp only [hstrict, if_true, endingWith]
      refine hrun.trans ?_
      rw [noted, if_pos hstrict]
      rfl
    · simp only [hstrict]
      refine ⟨cells, hrun.trans ?_, hshown⟩
      rw [noted, if_neg hstrict]
      rfl

end Growth

end EditorDocs.Walk
