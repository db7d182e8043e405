import EditorDocs.Proofs.FileSystem.Outline
import EditorDocs.Tree.Walk

/-!
# Trees of outlines

A walk does not look into files, so it goes through the outline of a directory as it goes through
the directory itself (`Walk.tree_outline`).
-/

namespace EditorDocs

open FileSystem (Name Node Entries)
open FileSystem.Node (outlineOfEntries)

/-! ## Entries in order -/

namespace FileSystem.Entries

/-- An entry is inserted at the same place among outlines. -/
lemma insert_outline (before : Name → Name → Bool) (e : Name × Node) (es : Entries) :
    insert before (e.1, e.2.outline) (outlineOfEntries es) =
      outlineOfEntries (insert before e es) := by
  induction es with
  | nil => rfl
  | cons f rest ih =>
    obtain ⟨name, n⟩ := f
    simp only [outlineOfEntries, insert]
    split
    · rfl
    · rw [ih, outlineOfEntries]

/-- Outlines are sorted in the same way. -/
lemma sort_outline (before : Name → Name → Bool) (es : Entries) :
    sort before (outlineOfEntries es) = outlineOfEntries (sort before es) := by
  induction es with
  | nil => rfl
  | cons e rest ih =>
    obtain ⟨name, n⟩ := e
    rw [outlineOfEntries, sort, sort, ih]
    exact insert_outline before (name, n) (sort before rest)

end FileSystem.Entries

namespace Walk

/-- The same entries are no directories. -/
lemma fileNames_outline (es : Entries) : fileNames (outlineOfEntries es) = fileNames es := by
  induction es with
  | nil => rfl
  | cons e rest ih =>
    obtain ⟨name, n⟩ := e
    cases n <;> simp [outlineOfEntries, Node.outline, fileNames, ih]

/-- A directory as its outline. -/
def outlineBelow (d : Name × Entries) : Name × Entries := (d.1, outlineOfEntries d.2)

/-- The same entries are directories. -/
lemma subdirectories_outline (es : Entries) :
    subdirectories (outlineOfEntries es) = (subdirectories es).map outlineBelow := by
  induction es with
  | nil => rfl
  | cons e rest ih =>
    obtain ⟨name, n⟩ := e
    cases n <;> simp [outlineOfEntries, Node.outline, subdirectories, outlineBelow, ih]

/-- The same directories are left out below the deepest level. -/
lemma skipped_outline (path : Text) (limit : Nat) (es : Entries) :
    ((subdirectories (outlineOfEntries es)).map fun d =>
      (⟨FileSystem.under path d.1, .depth limit⟩ : Skipped)) =
      (subdirectories es).map fun d => ⟨FileSystem.under path d.1, .depth limit⟩ := by
  rw [subdirectories_outline, List.map_map]
  rfl

/-- The same directories can be listed. -/
lemma listing_outline (w : Walk) (path : Text) (es : Entries) :
    w.listing path (outlineOfEntries es) = (w.listing path es).map outlineOfEntries := by
  unfold listing
  split
  · rfl
  · split <;> rfl

namespace Task

/-- A task with the outline of what was found. -/
def outline : Task → Task
  | visit path found depth => visit path (found.map outlineOfEntries) depth
  | gather files count => gather files count

/-- Directories are pushed as their outlines. -/
lemma push_outline (w : Walk) (path : Text) (depth : Nat) (ds : List (Name × Entries))
    (stack : List Task) :
    push w path depth (ds.map outlineBelow) (stack.map outline) =
      (push w path depth ds stack).map outline := by
  induction ds generalizing stack with
  | nil => rfl
  | cons d rest ih =>
    obtain ⟨name, es⟩ := d
    have hvisit : visit (FileSystem.under path name)
        (w.listing (FileSystem.under path name) (outlineOfEntries es)) depth =
          outline (visit (FileSystem.under path name)
            (w.listing (FileSystem.under path name) es) depth) := by
      rw [listing_outline]
      rfl
    simp only [List.map_cons, outlineBelow, push]
    rw [hvisit, ← List.map_cons]
    exact ih _

end Task

/-- Tasks with outlines give the same trees and reports. -/
lemma run_outline (w : Walk) (tasks : List Task) (done : List DirTree) (reports : List Skipped) :
    w.run (tasks.map Task.outline) done reports = w.run tasks done reports := by
  induction tasks, done, reports using run.induct w with
  | case1 done reports => rfl
  | case2 files count tasks done reports ih =>
    rw [List.map_cons, Task.outline, run, run, ih]
  | case3 path e depth tasks done reports hstrict =>
    rw [List.map_cons, Task.outline, Except.map, run, run, if_pos hstrict, if_pos hstrict]
  | case4 path e depth tasks done reports skipped hstrict ih =>
    rw [List.map_cons, Task.outline, Except.map, run, run, if_neg hstrict, if_neg hstrict, ih]
  | case5 path es depth tasks done reports listed limit hlimit skipped s tail hskipped hstrict =>
    have hlisted : Entries.sort w.listsBefore (outlineOfEntries es) = outlineOfEntries listed :=
      Entries.sort_outline w.listsBefore es
    have hleft : ((subdirectories (Entries.sort w.listsBefore es)).map fun d =>
        (⟨FileSystem.under path d.1, .depth limit⟩ : Skipped)) = s :: tail := hskipped
    rw [List.map_cons, Task.outline, Except.map, run, run]
    simp only [hlimit, hlisted, hstrict, skipped_outline]
    rw [hleft]
  | case6 path es depth tasks done reports listed files limit hlimit skipped tree hnot ih =>
    have hlisted : Entries.sort w.listsBefore (outlineOfEntries es) = outlineOfEntries listed :=
      Entries.sort_outline w.listsBefore es
    rw [List.map_cons, Task.outline, Except.map, run, run]
    simp only [hlimit, hlisted, skipped_outline, fileNames_outline]
    rw [ih]
  | case7 path es depth tasks done reports listed files hlimit dirs ih =>
    have hlisted : Entries.sort w.listsBefore (outlineOfEntries es) = outlineOfEntries listed :=
      Entries.sort_outline w.listsBefore es
    rw [List.map_cons, Task.outline, Except.map, run, run]
    simp only [hlimit, hlisted, subdirectories_outline, fileNames_outline, List.length_map]
    rw [← ih, ← Task.push_outline]
    rfl

/-- The tree of a directory is that of its outline. -/
theorem tree_outline (w : Walk) (path : Text) (found : Except Errno Entries) :
    w.tree path (found.map outlineOfEntries) = w.tree path found := by
  have hrun := w.run_outline [.visit path found 0] [] []
  rw [tree, tree, ← hrun]
  rfl

end Walk

end EditorDocs
