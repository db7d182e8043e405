import EditorDocs.Proofs.Json.Nesting
import EditorDocs.Proofs.Tree.Build

/-!
# Trees in JSON

The image of a tree is that of its directory with the images of its subdirectories in it
(`DirTree.toJson_node`): a visit on top of the stack replaces itself by the image of its tree, whatever
lies below it (`DirTree.imagesAfter_visit`).

Each level of a tree is two containers in its image (`DirTree.nesting_toJson`), and a tree that is built
with a deepest level has only one level more (`TreeSettings.height_of_build`).
-/

namespace EditorDocs

open FileSystem (Entries Name)
open Json (Value nestingOfItems nestingOfItems_le_iff)

namespace DirTree

/-! ## The recursion -/

mutual

/-- A visit replaces itself by the image of its tree. -/
lemma imagesAfter_visit : (t : DirTree) → (tasks : List ImageTask) → (done : List Value) →
    imagesAfter (.visit t :: tasks) done = imagesAfter tasks (t.toJson :: done)
  | node files dirs, tasks, done => by
    have hvisit : ∀ tasks done, imagesAfter (.visit (node files dirs) :: tasks) done =
        imagesAfter tasks (image files (dirs.map toJson) :: done) := by
      intro tasks done
      rw [imagesAfter, imagesAfter_push dirs, imagesAfter, List.take_left' (by simp),
        List.drop_left' (by simp)]
    have himage : (node files dirs).toJson = image files (dirs.map toJson) := by
      rw [toJson, hvisit, imagesAfter]
      rfl
    rw [hvisit, himage]

/-- Visits replace themselves by the images of their trees. -/
lemma imagesAfter_push : (ts : List DirTree) → (tasks : List ImageTask) → (done : List Value) →
    imagesAfter (ImageTask.push ts tasks) done = imagesAfter tasks (ts.map toJson ++ done)
  | [], tasks, done => rfl
  | t :: rest, tasks, done => by
    rw [ImageTask.push, imagesAfter_push rest, imagesAfter_visit t]
    rfl

end

/-- The image of a tree holds the images of its subtrees. -/
theorem toJson_node (files : List Name) (dirs : List DirTree) :
    (node files dirs).toJson = image files (dirs.map toJson) := by
  have hpush := imagesAfter_push dirs [.gather files dirs.length] []
  rw [toJson, imagesAfter, hpush, imagesAfter, List.take_left' (by simp), imagesAfter]
  rfl

/-! ## How deep it is nested -/

mutual

/-- The number of levels of a tree. -/
def height : DirTree → Nat
  | node _ dirs => heights dirs + 1

/-- The number of levels of the highest one of trees. -/
def heights : List DirTree → Nat
  | [] => 0
  | t :: rest => max t.height (heights rest)

end

/-- Trees have no more levels than a bound if each of them has. -/
lemma heights_le_iff {bound : Nat} {ts : List DirTree} :
    heights ts ≤ bound ↔ ∀ t ∈ ts, t.height ≤ bound := by
  induction ts with
  | nil => simp [heights]
  | cons t rest ih => rw [heights, Nat.max_le, ih, List.forall_mem_cons]

/-- A directory is an object with two lists in it. -/
lemma nesting_image (files : List Name) (dirs : List Value) :
    (image files dirs).nesting = nestingOfItems dirs + 2 := by
  simp only [image, Value.nesting, Json.nestingOfMembers, Json.nestingOfItems_strings]
  omega

mutual

/-- Each level of a tree is two containers in its image. -/
theorem nesting_toJson : (t : DirTree) → t.toJson.nesting = 2 * t.height
  | node files dirs => by
    rw [toJson_node, nesting_image, nestingOfItems_toJson dirs, height]
    omega

/-- So it is for trees. -/
theorem nestingOfItems_toJson : (ts : List DirTree) →
    nestingOfItems (ts.map toJson) = 2 * heights ts
  | [] => rfl
  | t :: rest => by
    rw [List.map_cons, nestingOfItems, nesting_toJson t, nestingOfItems_toJson rest, heights]
    omega

end

/-- A tree that is cut below a level has one level more. -/
lemma height_prune_le (level : Nat) (t : DirTree) : (t.prune level).height ≤ level + 2 := by
  induction level generalizing t with
  | zero =>
    obtain ⟨files, dirs⟩ := t
    rw [prune, height]
    refine Nat.succ_le_succ (heights_le_iff.mpr fun t ht => ?_)
    obtain ⟨t', -, rfl⟩ := List.mem_map.mp ht
    exact Nat.le_refl 1
  | succ level ih =>
    obtain ⟨files, dirs⟩ := t
    rw [prune, height]
    refine Nat.succ_le_succ (heights_le_iff.mpr fun t ht => ?_)
    obtain ⟨t', -, rfl⟩ := List.mem_map.mp ht
    exact ih t'

end DirTree

/-! ## Trees that are built -/

/-- A walk with a deepest level gives a tree with one level more, be it strict or not. -/
lemma Walk.height_tree_le {w : Walk} {limit : Nat} (hmax : w.maxDepth = some limit) {path : Text}
    {found : Except Errno Entries} {tree : DirTree} {reports : List Skipped}
    (h : w.tree path found = .ok (tree, reports)) : tree.height ≤ limit + 2 := by
  have hlenient : ∀ {tree reports}, w.lenient.tree path found = .ok (tree, reports) →
      tree.height ≤ limit + 2 := by
    intro tree reports h
    rw [Walk.tree_eq_treeOf rfl] at h
    cases h
    have hcut : w.lenient.cut 0 (w.lenient.treeOf path found) =
        (w.lenient.treeOf path found).prune limit := by
      have hmax' : w.lenient.maxDepth = some limit := hmax
      rw [Walk.cut, hmax']
      rfl
    rw [hcut]
    exact DirTree.height_prune_le limit _
  obtain ⟨tree', reports', htree', hsevere⟩ := w.tree_severe path found
  cases hstrict : w.strict with
  | false =>
    have hw : w.lenient = w := by
      rw [Walk.lenient, ← hstrict]
    rw [hw] at hlenient
    exact hlenient h
  | true =>
    have hw : w.severe = w := by
      rw [Walk.severe, ← hstrict]
    rw [hw, h] at hsevere
    cases reports' with
    | nil =>
      cases hsevere
      exact hlenient htree'
    | cons first rest => cases hsevere

namespace TreeSettings

/-- A tree that is built with a deepest level has one level more. -/
theorem height_of_build {s : TreeSettings} {limit : Nat} (hmax : s.maxDepth = some limit) {path : Text}
    {w w' : World} {tree : DirTree} {reports : List Skipped}
    (h : (s.build path).exec w = (.ok (tree, reports), w')) : tree.height ≤ limit + 2 := by
  rcases hprepare : (s.prepare path).exec w with ⟨f | u, w₁⟩
  · rw [exec_build, hprepare] at h
    cases h
  · rw [exec_build, hprepare] at h
    simp only at h
    split at h
    · cases h
    · split at h
      · cases h
      · rename_i tree' skipped htree
        cases h
        exact Walk.height_tree_le (w := s.walk w₁.host) hmax htree

end TreeSettings

end EditorDocs
