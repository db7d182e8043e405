import EditorDocs.Proofs.Tree.Cells
import EditorDocs.Proofs.Tree.Image
import Mathlib.Logic.Function.Iterate

/-!
# Images that are filled in

The image of a tree can also be made without gathering anything: each directory that is come upon gets a
cell with the names of its files, a reference to the cell is put into that of its parent, and the cell is
filled in when the directory has its turn.  So most cells are there, and referred to, long before they are
full, and the directory that was come upon last has its turn first (`DirTree.Filling.step`).

What carries the argument is what the turns of one tree do, whatever else is pending: they take as many
steps as the tree has directories, fill the cell of its root, touch no other cell that was there before,
and leave an image of the tree at the root that refers to new cells only (`DirTree.Filling.iterate_visit`).
So the filling of a tree is at an end after as many steps as the tree has directories, and the first cell
then shows what the recursion over the tree gives.

This image is a faithful one (`DirTree.toJson_faithful`): the tree can be read back from it, and it has an
object for each directory and a text for each file.
-/

namespace EditorDocs

open FileSystem (Name)
open Json (Value)

/-! ## Parts of a value -/

namespace Json

mutual

/-- The number of parts of a value, itself among them, that satisfy `p`. -/
def Value.count (p : Value → Bool) : Value → Nat
  | .null => (p .null).toNat
  | .bool b => (p (.bool b)).toNat
  | .int n => (p (.int n)).toNat
  | .float x => (p (.float x)).toNat
  | .string t => (p (.string t)).toNat
  | .list items => (p (.list items)).toNat + countItems p items
  | .object members => (p (.object members)).toNat + countMembers p members
  | .unordered items => (p (.unordered items)).toNat + countItems p items

/-- The number of such parts of items. -/
def countItems (p : Value → Bool) : List Value → Nat
  | [] => 0
  | v :: rest => v.count p + countItems p rest

/-- The number of such parts of members, names apart. -/
def countMembers (p : Value → Bool) : List (Text × Value) → Nat
  | [] => 0
  | (_, v) :: rest => v.count p + countMembers p rest

end

/-- The value is a text. -/
def Value.isText (v : Value) : Bool := v.text?.isSome

/-- The value is an object. -/
def Value.isObject : Value → Bool
  | .object _ => true
  | _ => false

end Json

namespace DirTree

/-! ## The image by recursion -/

mutual

/-- The image of a tree: the names of its files, and the images of its subdirectories in order. -/
def mapped : DirTree → Value
  | node files dirs => image files (mappedAll dirs)

/-- The images of trees, in order. -/
def mappedAll : List DirTree → List Value
  | [] => []
  | t :: rest => t.mapped :: mappedAll rest

/-- The number of files of a tree. -/
def fileCount : DirTree → Nat
  | node files dirs => files.length + fileCounts dirs

/-- The number of files of trees. -/
def fileCounts : List DirTree → Nat
  | [] => 0
  | t :: rest => t.fileCount + fileCounts rest

end

mutual

/-- The stack of visits and requests gives the image by recursion. -/
lemma toJson_eq_mapped : (t : DirTree) → t.toJson = t.mapped
  | node files dirs => by rw [toJson_node, mapped, map_toJson_eq_mappedAll dirs]

/-- So it does for trees. -/
lemma map_toJson_eq_mappedAll : (ts : List DirTree) → ts.map toJson = mappedAll ts
  | [] => rfl
  | t :: rest => by
    rw [List.map_cons, mappedAll, toJson_eq_mapped t, map_toJson_eq_mappedAll rest]

end

/-! ## What the image keeps -/

mutual

/-- The tree whose image a value is, if there is one. -/
def ofJson? : Value → Option DirTree
  | .object [(a, .list files), (b, .list dirs)] =>
    if a = "files" ∧ b = "dirs" then do
      pure (node (← files.mapM Value.text?) (← ofJsonAll? dirs))
    else none
  | _ => none

/-- The trees whose images are values, in order. -/
def ofJsonAll? : List Value → Option (List DirTree)
  | [] => some []
  | v :: rest => do pure ((← ofJson? v) :: (← ofJsonAll? rest))

end

mutual

/-- A tree is read back from its image. -/
lemma ofJson?_toJson : (t : DirTree) → ofJson? t.toJson = some t
  | node files dirs => by
    have hfiles : (files.map Value.string).mapM Value.text? = some files :=
      Json.mapM_text?_eq_some_iff.mpr rfl
    rw [toJson_node, image, ofJson?, if_pos ⟨rfl, rfl⟩, hfiles, ofJsonAll?_toJson dirs]
    rfl

/-- Trees are read back from their images. -/
lemma ofJsonAll?_toJson : (ts : List DirTree) → ofJsonAll? (ts.map toJson) = some ts
  | [] => rfl
  | t :: rest => by
    rw [List.map_cons, ofJsonAll?, ofJson?_toJson t, ofJsonAll?_toJson rest]
    rfl

end

/-- Different trees have different images. -/
lemma toJson_injective : Function.Injective toJson := by
  intro t u h
  have hread : ofJson? t.toJson = ofJson? u.toJson := by rw [h]
  rw [ofJson?_toJson, ofJson?_toJson] at hread
  exact Option.some.inj hread

/-- There is nothing in a directory exactly if both lists of its image are empty. -/
lemma isEmpty_iff_members (t : DirTree) : t.isEmpty = true ↔
    t.toJson.member? "files" = some (.list []) ∧ t.toJson.member? "dirs" = some (.list []) := by
  obtain ⟨files, dirs⟩ := t
  have hfiles : (node files dirs).toJson.member? "files" = some (.list (files.map .string)) := by
    rw [toJson_node]
    rfl
  have hdirs : (node files dirs).toJson.member? "dirs" = some (.list (dirs.map toJson)) := by
    rw [toJson_node]
    rfl
  rw [hfiles, hdirs]
  simp [isEmpty, DirTree.files, DirTree.dirs]

/-- Names have as many parts that satisfy `p` as there are of them that do. -/
lemma countItems_strings (p : Value → Bool) (names : List Name) :
    Json.countItems p (names.map .string) = names.countP fun name => p (.string name) := by
  induction names with
  | nil => rfl
  | cons name rest ih =>
    rw [List.map_cons, Json.countItems, ih, Value.count, List.countP_cons, Nat.add_comm]
    cases p (.string name) <;> rfl

/-- The parts of the image of a directory that satisfy `p`, if no list does: the image itself, those of the
names and those of the subdirectories. -/
lemma count_image {p : Value → Bool} (hlist : ∀ items, p (.list items) = false) (files : List Name)
    (dirs : List Value) : (image files dirs).count p =
      (p (image files dirs)).toNat + (files.countP fun name => p (.string name)) +
        Json.countItems p dirs := by
  simp only [image, Value.count, Json.countMembers, countItems_strings, hlist, Bool.toNat_false]
  omega

mutual

/-- The image of a tree has an object for each directory. -/
lemma count_isObject_toJson : (t : DirTree) → t.toJson.count Value.isObject = t.size
  | node files dirs => by
    have hnames : (files.countP fun name => (Value.string name).isObject) = 0 :=
      congrFun List.countP_false files
    have himage : (image files (dirs.map toJson)).isObject = true := rfl
    rw [toJson_node, count_image fun _ => rfl, hnames, himage, countItems_isObject_toJson dirs, size,
      Bool.toNat_true]
    omega

/-- So have the images of trees. -/
lemma countItems_isObject_toJson : (ts : List DirTree) →
    Json.countItems Value.isObject (ts.map toJson) = sizes ts
  | [] => rfl
  | t :: rest => by
    rw [List.map_cons, Json.countItems, count_isObject_toJson t, countItems_isObject_toJson rest, sizes]

end

mutual

/-- The image of a tree has a text for each file. -/
lemma count_isText_toJson : (t : DirTree) → t.toJson.count Value.isText = t.fileCount
  | node files dirs => by
    have hnames : (files.countP fun name => (Value.string name).isText) = files.length :=
      congrFun List.countP_true files
    have himage : (image files (dirs.map toJson)).isText = false := rfl
    rw [toJson_node, count_image fun _ => rfl, hnames, himage, countItems_isText_toJson dirs, fileCount,
      Bool.toNat_false, Nat.zero_add]

/-- So have the images of trees. -/
lemma countItems_isText_toJson : (ts : List DirTree) →
    Json.countItems Value.isText (ts.map toJson) = fileCounts ts
  | [] => rfl
  | t :: rest => by
    rw [List.map_cons, Json.countItems, count_isText_toJson t, countItems_isText_toJson rest, fileCounts]

end

/-! ## Images that are filled in -/

/-- Images that are filled in. -/
structure Filling where
  /-- The trees that wait for their turn, each with its cell. -/
  pending : List (DirTree × Nat)
  /-- The cells there are. -/
  cells : List Cell

namespace Filling

/-- A tree waits for its turn, and there is no cell but its own. -/
def start (t : DirTree) : Filling := ⟨[(t, 0)], [⟨t.files, []⟩]⟩

/-- A subdirectory is come upon: it gets a new cell that `r` refers to, and waits above all others. -/
def meet (r : Nat) (s : Filling) (child : DirTree) : Filling where
  pending := (child, s.cells.length) :: s.pending
  cells := Cell.attach r ⟨child.files, []⟩ s.cells

/-- The subdirectories of the directory of `r` are come upon one after the other. -/
def enter (r : Nat) : List DirTree → Filling → Filling
  | [], s => s
  | child :: rest, s => enter r rest (s.meet r child)

/-- The tree that came last has its turn. -/
def step (s : Filling) : Filling :=
  match s.pending with
  | [] => s
  | (t, r) :: rest => enter r t.dirs ⟨rest, s.cells⟩

/-! ### How long it takes -/

/-- The number of directories of the trees that wait. -/
def load (s : Filling) : Nat := sizes (s.pending.map Prod.fst)

/-- What is come upon waits. -/
lemma load_enter (r : Nat) (ts : List DirTree) (s : Filling) :
    (enter r ts s).load = sizes ts + s.load := by
  induction ts generalizing s with
  | nil => rw [enter, sizes, Nat.zero_add]
  | cons t rest ih =>
    have hmeet : (s.meet r t).load = t.size + s.load := rfl
    rw [enter, ih, hmeet, sizes]
    omega

/-- A step is for one directory of those that wait. -/
lemma load_step {s : Filling} (h : s.load ≠ 0) : s.step.load + 1 = s.load := by
  obtain ⟨pending, cells⟩ := s
  cases pending with
  | nil => exact absurd rfl h
  | cons top rest =>
    obtain ⟨⟨files, dirs⟩, r⟩ := top
    have hload : load ⟨(node files dirs, r) :: rest, cells⟩ = sizes dirs + 1 + load ⟨rest, cells⟩ := rfl
    have hstep : step ⟨(node files dirs, r) :: rest, cells⟩ = enter r dirs ⟨rest, cells⟩ := rfl
    rw [hstep, load_enter, hload]
    omega

/-- Steps are for as many directories, while some wait. -/
lemma load_iterate {s : Filling} : (n : Nat) → n ≤ s.load → (step^[n] s).load + n = s.load
  | 0, _ => rfl
  | n + 1, h => by
    have ih := load_iterate n (Nat.le_of_succ_le h)
    have hleft : (step^[n] s).load ≠ 0 := by omega
    have hstep := load_step hleft
    rw [Function.iterate_succ_apply']
    omega

/-- Something waits until there were as many steps as the tree has directories. -/
lemma pending_start_ne_nil {t : DirTree} {n : Nat} (h : n < t.size) :
    (step^[n] (start t)).pending ≠ [] := by
  have hstart : (start t).load = t.size := rfl
  have hload := load_iterate n (s := start t) (by omega)
  intro hnil
  have hzero : (step^[n] (start t)).load = 0 := by
    rw [load, hnil]
    rfl
  omega

/-! ### The turns of a tree -/

mutual

/-- The turns of a tree: as many as it has directories, after which the cell of its root shows its image, by
means of new cells only, and all other cells are as they were. -/
lemma iterate_visit : (t : DirTree) → (r : Nat) → (rest : List (DirTree × Nat)) → (cells : List Cell) →
    cells[r]? = some ⟨t.files, []⟩ →
    ∃ cells', step^[t.size] ⟨(t, r) :: rest, cells⟩ = ⟨rest, cells'⟩ ∧
      KeepsBut r cells cells' ∧ Shows image cells' cells.length r t.toJson
  | node files dirs, r, rest, cells, hr => by
    obtain ⟨refs, cells', hrun, hkeep, hr', hshows⟩ := iterate_enter dirs r rest cells ⟨files, []⟩ hr
    refine ⟨cells', ?_, hkeep, ?_⟩
    · rw [size, Function.iterate_succ_apply]
      exact hrun
    · rw [toJson_node]
      exact .cell hr' hshows

/-- The turns of the subdirectories of `r`: the last one of them has its turns first. -/
lemma iterate_enter : (ts : List DirTree) → (r : Nat) → (rest : List (DirTree × Nat)) →
    (cells : List Cell) → (c : Cell) → cells[r]? = some c →
    ∃ refs cells', step^[sizes ts] (enter r ts ⟨rest, cells⟩) = ⟨rest, cells'⟩ ∧
      KeepsBut r cells cells' ∧ cells'[r]? = some { c with dirs := c.dirs ++ refs } ∧
      ShowsAll image cells' cells.length refs (ts.map toJson)
  | [], r, rest, cells, c, hr =>
    ⟨[], cells, rfl, .refl r cells, by rw [List.append_nil]; exact hr, .nil⟩
  | t :: ts, r, rest, cells, c, hr => by
    obtain ⟨hrefer, hnew, hkeep⟩ := Cell.attach_spec hr ⟨t.files, []⟩
    let child := cells.length
    let cells₁ := (meet r ⟨rest, cells⟩ t).cells
    have hrlt : r < child := (List.getElem?_eq_some_iff.mp hr).1
    have hlt₁ : child < cells₁.length := (List.getElem?_eq_some_iff.mp hnew).1
    -- the later subdirectories: the cell of this one is not touched
    obtain ⟨refs, cells₂, hrun₂, hkeep₂, hr₂, hshows₂⟩ :=
      iterate_enter ts r ((t, child) :: rest) cells₁ (c.refer child) hrefer
    have hnew₂ : cells₂[child]? = some ⟨t.files, []⟩ := hkeep₂ child _ hrlt.ne' hnew
    have hlt₂ : child < cells₂.length := (List.getElem?_eq_some_iff.mp hnew₂).1
    -- this one: its cell is the only one that is touched
    obtain ⟨cells₃, hrun₃, hkeep₃, hshows₃⟩ := iterate_visit t child rest cells₂ hnew₂
    refine ⟨child :: refs, cells₃, ?_, ?_, ?_, ?_⟩
    · have henter : enter r (t :: ts) ⟨rest, cells⟩ = enter r ts ⟨(t, child) :: rest, cells₁⟩ := rfl
      rw [sizes, Function.iterate_add_apply, henter, hrun₂, hrun₃]
    · intro i d hi hd
      have hichild : i ≠ child := (List.getElem?_eq_some_iff.mp hd).1.ne
      exact hkeep₃ i d hichild (hkeep₂ i d hi (hkeep i d hi hd))
    · rw [hkeep₃ r _ hrlt.ne hr₂, Cell.refer, List.append_assoc]
      rfl
    · have hshows : Shows image cells₃ child child t.toJson :=
        hshows₃.keep (KeepsBut.refl r cells₃) (hrlt.trans hlt₂) hlt₂.le hrlt.ne'
      exact .cons le_rfl hshows (hshows₂.keep hkeep₃ hlt₁ hlt₁.le)

end

/-- The filling of a tree is at an end after as many steps as the tree has directories.  The first cell then
shows the image of the tree, and nothing else. -/
lemma iterate_start (t : DirTree) : ∃ cells, step^[t.size] (start t) = ⟨[], cells⟩ ∧
    ∀ v, Shows image cells 1 0 v ↔ v = t.toJson := by
  obtain ⟨cells, hrun, -, hshows⟩ := iterate_visit t 0 [] [⟨t.files, []⟩] rfl
  refine ⟨cells, hrun, fun v => ⟨fun hv => hv.unique hshows, ?_⟩⟩
  rintro rfl
  exact hshows

end Filling

/-! ## The image is faithful -/

/-- A value is a faithful image of a tree. -/
structure IsFaithful (t : DirTree) (v : Value) : Prop where
  /-- It is what the first cell shows, and all that it shows, after a step for each directory. -/
  filled : ∃ cells, Filling.step^[t.size] (Filling.start t) = ⟨[], cells⟩ ∧
    ∀ w, Shows image cells 1 0 w ↔ w = v
  /-- The filling is at no earlier end. -/
  waits : ∀ n < t.size, (Filling.step^[n] (Filling.start t)).pending ≠ []
  /-- It is what the recursion over the tree gives. -/
  recursion : v = t.mapped
  /-- The tree is read back from it. -/
  read_back : ofJson? v = some t
  /-- Both of its lists are empty exactly if there is nothing in the directory. -/
  empty_iff : t.isEmpty = true ↔ v.member? "files" = some (.list []) ∧ v.member? "dirs" = some (.list [])
  /-- It has an object for each directory. -/
  objects : v.count Value.isObject = t.size
  /-- It has a text for each file. -/
  texts : v.count Value.isText = t.fileCount

/-- The image of a tree is faithful, and different trees have different images. -/
theorem toJson_faithful : (∀ t : DirTree, IsFaithful t t.toJson) ∧ Function.Injective toJson := by
  refine ⟨fun t => ?_, toJson_injective⟩
  exact {
    filled := Filling.iterate_start t
    waits := fun _ => Filling.pending_start_ne_nil
    recursion := toJson_eq_mapped t
    read_back := ofJson?_toJson t
    empty_iff := isEmpty_iff_members t
    objects := count_isObject_toJson t
    texts := count_isText_toJson t
  }

end DirTree

end EditorDocs
