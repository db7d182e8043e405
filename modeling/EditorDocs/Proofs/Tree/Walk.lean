import EditorDocs.Tree.Walk
import Mathlib.Data.List.Basic

/-!
# The walk without its stack

`Walk.treeOf` is the tree of a directory by recursion: a directory that cannot be listed is empty,
and any other one has the names that are no directories and the trees of its subdirectories, both in
the order in which they are listed.  A walk with a deepest level cuts this tree (`Walk.cut`), and
`Walk.reportsOf` is what it reports.  Subdirectories are visited last first, so reports come in that
order, while the trees are gathered in the order of the names.

A visit on top of the stack replaces itself by its tree and its reports, whatever lies below it
(`Walk.run_visit`).  This is the invariant of the walk, and from it the walk as a whole is the
recursion (`Walk.tree_eq_treeOf`).

A strict walk does what the lenient one does up to the first report, which it ends with
(`Walk.run_severe`).
-/

namespace EditorDocs

open FileSystem (Entries Name Node)

/-! ## Sorted entries -/

namespace FileSystem.Entries

/-- Inserting an entry adds it and nothing else. -/
lemma insert_perm (before : Name → Name → Bool) (e : Name × Node) (es : Entries) :
    (insert before e es).Perm (e :: es) := by
  induction es with
  | nil => exact List.Perm.refl _
  | cons f rest ih =>
    rw [insert]
    split
    · exact List.Perm.refl _
    · exact (ih.cons f).trans (List.Perm.swap e f rest)

/-- The entries are listed each as often as it is there. -/
lemma sort_perm (before : Name → Name → Bool) (es : Entries) : (sort before es).Perm es := by
  induction es with
  | nil => exact List.Perm.refl _
  | cons e rest ih => exact (insert_perm before e _).trans (ih.cons e)

end FileSystem.Entries

namespace DirTree

/-! ## Trees that are cut -/

/-- The tree down to a level below its root: the directories that lie deeper are empty. -/
def prune : Nat → DirTree → DirTree
  | 0, node files dirs => node files (dirs.map fun _ => empty)
  | level + 1, node files dirs => node files (dirs.map (prune level))

/-- There is nothing to cut from the tree of an empty directory. -/
@[simp] lemma prune_empty (level : Nat) : prune level empty = empty := by
  cases level <;> rfl

end DirTree

namespace Walk

/-! ## The recursion -/

/-- A subdirectory holds fewer nodes than the directory. -/
lemma sizeOfEntries_lt {es : Entries} {d : Name × Entries} (h : d ∈ subdirectories es) :
    Node.sizeOfEntries d.2 < Node.sizeOfEntries es := by
  have hsum : ∀ ds : List (Name × Entries), d ∈ ds →
      Node.sizeOfEntries d.2 < sizeOfDirectories ds := by
    intro ds hd
    induction ds with
    | nil => cases hd
    | cons d' rest ih =>
      rw [sizeOfDirectories]
      rcases List.mem_cons.mp hd with rfl | hrest
      · omega
      · have := ih hrest
        omega
  exact Nat.lt_of_lt_of_le (hsum _ h) (sizeOfDirectories_subdirectories_le es)

/-- The visit of a subdirectory weighs less than that of the directory. -/
lemma weight_child_lt (w : Walk) {es : Entries} (path : Text) (depth : Nat)
    (d : { d // d ∈ subdirectories (Entries.sort w.listsBefore es) }) :
    (Task.visit path (w.listing path d.1.2) depth).weight < 2 * Node.sizeOfEntries es + 2 := by
  have hchild := weight_listing_le w path d.1.2 depth
  have hsmall := sizeOfEntries_lt d.2
  rw [sizeOfEntries_sort] at hsmall
  omega

/-- The tree of the directory at a path, whose entries have been found or not. -/
def treeOf (w : Walk) (path : Text) : (found : Except Errno Entries) → DirTree
  | .error _ => .empty
  | .ok es =>
    .node (fileNames (Entries.sort w.listsBefore es))
      ((subdirectories (Entries.sort w.listsBefore es)).attach.map fun d =>
        treeOf w (FileSystem.under path d.1.1) (w.listing (FileSystem.under path d.1.1) d.1.2))
termination_by found => (Task.visit path found 0).weight
decreasing_by
  exact weight_child_lt w (FileSystem.under path d.1.1) 0 d

/-- The tree as far as a walk goes that is at a depth. -/
def cut (w : Walk) (depth : Nat) (t : DirTree) : DirTree :=
  match w.maxDepth with
  | none => t
  | some limit => t.prune (limit - depth)

/-- What is reported on a visit of the directory at a path, whose entries have been found or not. -/
def reportsOf (w : Walk) (path : Text) (found : Except Errno Entries) (depth : Nat) :
    List Skipped :=
  match found with
  | .error e => [⟨path, .system ⟨e, path, none⟩⟩]
  | .ok es =>
    match w.limitAt? depth with
    | some limit => (subdirectories (Entries.sort w.listsBefore es)).map fun d =>
      ⟨FileSystem.under path d.1, .depth limit⟩
    | none => (subdirectories (Entries.sort w.listsBefore es)).attach.reverse.flatMap fun d =>
      reportsOf w (FileSystem.under path d.1.1) (w.listing (FileSystem.under path d.1.1) d.1.2)
        (depth + 1)
termination_by (Task.visit path found depth).weight
decreasing_by
  exact weight_child_lt w (FileSystem.under path d.1.1) (depth + 1) d

section Recursion

variable (w : Walk) (path : Text) (es : Entries) (depth : Nat)

/-- The tree of a subdirectory of the directory at a path. -/
def treeBelow (d : Name × Entries) : DirTree :=
  w.treeOf (FileSystem.under path d.1) (w.listing (FileSystem.under path d.1) d.2)

/-- What is reported on the visit of a subdirectory of the directory at a path. -/
def reportsBelow (d : Name × Entries) : List Skipped :=
  w.reportsOf (FileSystem.under path d.1) (w.listing (FileSystem.under path d.1) d.2) depth

/-- A directory that cannot be listed has an empty tree. -/
@[simp] lemma treeOf_error (e : Errno) : w.treeOf path (.error e) = .empty := by
  rw [treeOf]

/-- A directory that can be listed has its files and the trees of its subdirectories. -/
lemma treeOf_ok : w.treeOf path (.ok es) =
    .node (fileNames (Entries.sort w.listsBefore es))
      ((subdirectories (Entries.sort w.listsBefore es)).map (w.treeBelow path)) := by
  rw [treeOf]
  congr 1
  exact List.attach_map_val (f := w.treeBelow path)

/-- What a directory reports that cannot be listed. -/
lemma reportsOf_error (e : Errno) :
    w.reportsOf path (.error e) depth = [⟨path, .system ⟨e, path, none⟩⟩] := by
  rw [reportsOf]

/-- What a directory reports at the deepest level. -/
lemma reportsOf_of_limit {limit : Nat} (h : w.limitAt? depth = some limit) :
    w.reportsOf path (.ok es) depth = (subdirectories (Entries.sort w.listsBefore es)).map fun d =>
      ⟨FileSystem.under path d.1, .depth limit⟩ := by
  rw [reportsOf, h]

/-- What the subdirectories of a directory report, the last one first. -/
lemma reportsOf_of_no_limit (h : w.limitAt? depth = none) :
    w.reportsOf path (.ok es) depth =
      (subdirectories (Entries.sort w.listsBefore es)).reverse.flatMap
        (w.reportsBelow path (depth + 1)) := by
  rw [reportsOf, h]
  have hmap := List.flatMap_map Subtype.val (w.reportsBelow path (depth + 1))
    (l := (subdirectories (Entries.sort w.listsBefore es)).attach.reverse)
  rw [List.map_reverse, List.attach_map_subtype_val] at hmap
  exact hmap.symm

end Recursion

/-! ## Cutting -/

section Cutting

variable {w : Walk} {depth : Nat}

/-- Nothing is cut from an empty tree. -/
@[simp] lemma cut_empty : w.cut depth .empty = .empty := by
  unfold cut
  split <;> simp

/-- At the deepest level all subdirectories are cut. -/
lemma cut_of_limit {limit : Nat} (h : w.limitAt? depth = some limit) (files : List Name)
    (dirs : List DirTree) : w.cut depth (.node files dirs) = .node files (dirs.map fun _ => .empty) := by
  unfold limitAt? at h
  cases hmax : w.maxDepth with
  | none => simp [hmax] at h
  | some deepest =>
    have hreached : deepest - depth = 0 := by
      simp only [hmax, Option.bind_some, Option.ite_none_right_eq_some] at h
      omega
    rw [cut, hmax]
    simp only
    rw [hreached, DirTree.prune]

/-- Above the deepest level the subdirectories are cut one by one. -/
lemma cut_of_no_limit (h : w.limitAt? depth = none) (files : List Name) (dirs : List DirTree) :
    w.cut depth (.node files dirs) = .node files (dirs.map (w.cut (depth + 1))) := by
  unfold limitAt? at h
  cases hmax : w.maxDepth with
  | none =>
    have hcut : w.cut (depth + 1) = id := by
      funext t
      rw [cut, hmax]
      rfl
    rw [hcut, List.map_id, cut, hmax]
  | some deepest =>
    have hroom : deepest - depth = (deepest - (depth + 1)) + 1 := by
      simp only [hmax, Option.bind_some, ite_eq_right_iff, reduceCtorEq, imp_false] at h
      omega
    have hcut : w.cut (depth + 1) = DirTree.prune (deepest - (depth + 1)) := by
      funext t
      rw [cut, hmax]
    rw [hcut, cut, hmax]
    simp only
    rw [hroom, DirTree.prune]

end Cutting

/-! ## A lenient walk -/

section Lenient

variable {w : Walk}

/-- Visits that replace themselves by trees and reports do so one after the other. -/
lemma run_push (path : Text) (depth : Nat) (dirs : List (Name × Entries))
    (tree : Name × Entries → DirTree) (reports : Name × Entries → List Skipped)
    (h : ∀ d ∈ dirs, ∀ tasks done before,
      w.run (.visit (FileSystem.under path d.1) (w.listing (FileSystem.under path d.1) d.2) depth ::
        tasks) done before = w.run tasks (tree d :: done) (before ++ reports d))
    (tasks : List Task) (done : List DirTree) (before : List Skipped) :
    w.run (Task.push w path depth dirs tasks) done before =
      w.run tasks (dirs.map tree ++ done) (before ++ dirs.reverse.flatMap reports) := by
  induction dirs generalizing tasks with
  | nil => simp [Task.push]
  | cons d rest ih =>
    have hrest : ∀ d' ∈ rest, ∀ tasks done before, _ := fun d' hd' =>
      h d' (List.mem_cons_of_mem d hd')
    rw [Task.push, ih hrest, h d List.mem_cons_self]
    simp [List.append_assoc]

/-- A visit replaces itself by its tree and its reports. -/
lemma run_visit (hw : w.strict = false) (path : Text) (found : Except Errno Entries) (depth : Nat)
    (tasks : List Task) (done : List DirTree) (before : List Skipped) :
    w.run (.visit path found depth :: tasks) done before =
      w.run tasks (w.cut depth (w.treeOf path found) :: done)
        (before ++ w.reportsOf path found depth) := by
  -- the directories below one that is listed weigh less than it
  induction path, found, depth using reportsOf.induct w generalizing tasks done before with
  | case1 path depth e =>
    rw [run, reportsOf_error, treeOf_error, cut_empty]
    simp [hw]
  | case2 path depth es limit hlimit =>
    rw [run, reportsOf_of_limit _ _ _ _ hlimit, treeOf_ok, cut_of_limit hlimit]
    simp [hlimit, hw, Function.comp_def]
  | case3 path depth es hlimit ih =>
    rw [run]
    simp only [hlimit]
    rw [run_push path (depth + 1) _ (fun d => w.cut (depth + 1) (w.treeBelow path d))
      (w.reportsBelow path (depth + 1)) fun d hd => ih ⟨d, hd⟩]
    rw [run, List.take_left' (by simp), List.drop_left' (by simp),
      reportsOf_of_no_limit _ _ _ _ hlimit, treeOf_ok, cut_of_no_limit hlimit, List.map_map]
    rfl

/-- A lenient walk gives the tree that the recursion gives, as far as it goes, with all reports. -/
theorem tree_eq_treeOf (hw : w.strict = false) (path : Text) (found : Except Errno Entries) :
    w.tree path found = .ok (w.cut 0 (w.treeOf path found), w.reportsOf path found 0) := by
  rw [tree, run_visit hw, run]
  rfl

end Lenient

/-! ## A strict walk -/

/-- The walk by the same rules that goes on after a report. -/
def lenient (w : Walk) : Walk := { w with strict := false }

/-- The walk by the same rules that ends with the first report. -/
def severe (w : Walk) : Walk := { w with strict := true }

/-- The trees of the recursion are the same for all walks that list the same in the same order. -/
lemma treeOf_congr {w w' : Walk} (hunlistable : w.unlistable = w'.unlistable)
    (hlists : w.listsBefore = w'.listsBefore) (path : Text) (found : Except Errno Entries) :
    w.treeOf path found = w'.treeOf path found := by
  obtain ⟨unlistable, listsBefore, strict, maxDepth⟩ := w
  obtain ⟨_, _, strict', maxDepth'⟩ := w'
  cases hunlistable
  cases hlists
  induction path, found using treeOf.induct ⟨unlistable, listsBefore, strict, maxDepth⟩ with
  | case1 path e => rw [treeOf_error, treeOf_error]
  | case2 path es ih =>
    rw [treeOf_ok, treeOf_ok]
    exact congrArg _ (List.map_congr_left fun d hd => ih ⟨d, hd⟩)

/-- So are the reports, whether the walk is strict or not. -/
lemma reportsOf_lenient (w : Walk) (path : Text) (found : Except Errno Entries) (depth : Nat) :
    w.lenient.reportsOf path found depth = w.reportsOf path found depth := by
  induction path, found, depth using reportsOf.induct w with
  | case1 path depth e => rw [reportsOf_error, reportsOf_error]
  | case2 path depth es limit hlimit =>
    have hlimit' : w.lenient.limitAt? depth = some limit := hlimit
    rw [reportsOf_of_limit _ _ _ _ hlimit, reportsOf_of_limit _ _ _ _ hlimit']
    rfl
  | case3 path depth es hlimit ih =>
    have hlimit' : w.lenient.limitAt? depth = none := hlimit
    rw [reportsOf_of_no_limit _ _ _ _ hlimit, reportsOf_of_no_limit _ _ _ _ hlimit']
    refine List.flatMap_congr fun d hd => ?_
    exact ih ⟨d, List.mem_reverse.mp hd⟩

/-- What a result with reports is if the walk ends with the first one that is new. -/
def endingWith {α : Type} (result : α) : (new : List Skipped) → Except Skipped α
  | [] => .ok result
  | first :: _ => .error first

/-- Whether a walk is strict does not matter for what is put on the stack. -/
lemma push_severe (w : Walk) (path : Text) (depth : Nat) (dirs : List (Name × Entries))
    (stack : List Task) :
    Task.push w.severe path depth dirs stack = Task.push w.lenient path depth dirs stack := by
  induction dirs generalizing stack with
  | nil => rfl
  | cons d rest ih => exact ih _

/-- Until the first report a strict walk does what the lenient one does, and then it ends. -/
lemma run_severe (w : Walk) (tasks : List Task) (done : List DirTree) (before : List Skipped) :
    ∃ trees new, w.lenient.run tasks done before = .ok (trees, before ++ new) ∧
      w.severe.run tasks done before = endingWith (trees, before) new := by
  induction tasks, done, before using run.induct w.lenient with
  | case1 done before => exact ⟨done, [], by simp [run], by simp [run, endingWith]⟩
  | case2 done before files count tasks ih =>
    rw [run, run]
    exact ih
  | case3 path e depth tasks done before hstrict => cases hstrict
  | case4 path e depth tasks done before skipped hstrict ih =>
    obtain ⟨trees, new, hlenient, -⟩ := ih
    refine ⟨trees, skipped :: new, ?_, ?_⟩
    · rw [run, if_neg hstrict, hlenient, List.append_assoc]
      rfl
    · rw [run]
      rfl
  | case5 path es depth tasks done before listed limit hlimit skipped s rest hskipped hstrict =>
    cases hstrict
  | case6 path es depth tasks done before listed files limit hlimit skipped tree hlast ih =>
    obtain ⟨trees, new, hlenient, hsevere⟩ := ih
    refine ⟨trees, skipped ++ new, ?_, ?_⟩
    · rw [run]
      simp only [hlimit]
      rw [← List.append_assoc]
      exact hlenient
    · have hlimit' : w.severe.limitAt? depth = some limit := hlimit
      rw [run]
      simp only [hlimit']
      split
      · rename_i first rest _ hfirst
        have hskipped : skipped = first :: rest := hfirst
        rw [hskipped]
        rfl
      · rename_i hnone
        have hskipped : skipped = [] := by
          rcases hskipped : skipped with _ | ⟨first, rest⟩
          · rfl
          · exact (hnone first rest rfl hskipped).elim
        have hsame : w.severe.run tasks (tree :: done) (before ++ skipped) =
            endingWith (trees, before) new := by
          rw [hskipped, List.append_nil] at hsevere ⊢
          exact hsevere
        rw [hskipped]
        exact hsame
  | case7 path es depth tasks done before listed files hlimit dirs ih =>
    obtain ⟨trees, new, hlenient, hsevere⟩ := ih
    have hlimit' : w.severe.limitAt? depth = none := hlimit
    refine ⟨trees, new, ?_, ?_⟩
    · rw [run]
      simp only [hlimit]
      exact hlenient
    · rw [run]
      simp only [hlimit', push_severe]
      exact hsevere

/-- A strict walk gives what the lenient one gives if there is nothing to report, and otherwise ends
with the first report. -/
theorem tree_severe (w : Walk) (path : Text) (found : Except Errno Entries) :
    ∃ tree reports, w.lenient.tree path found = .ok (tree, reports) ∧
      w.severe.tree path found = endingWith (tree, []) reports := by
  obtain ⟨trees, reports, hlenient, hsevere⟩ := w.run_severe [.visit path found 0] [] []
  refine ⟨trees.headD .empty, reports, ?_, ?_⟩
  · rw [tree, hlenient]
    rfl
  · rw [tree, hsevere]
    cases reports <;> rfl

/-- A walk gives the tree and the reports of the recursion, unless it is strict and there is a report. -/
theorem tree_eq (w : Walk) (path : Text) (found : Except Errno Entries) :
    let reports := w.reportsOf path found 0
    w.tree path found = if w.strict then
        endingWith (w.cut 0 (w.treeOf path found), []) reports
      else .ok (w.cut 0 (w.treeOf path found), reports) := by
  intro reports
  by_cases hstrict : w.strict = true
  · have hsame : w.severe = w := by
      obtain ⟨_, _, strict, _⟩ := w
      cases hstrict
      rfl
    obtain ⟨tree, reports', hlenient, hsevere⟩ := w.tree_severe path found
    have htree : w.lenient.treeOf path found = w.treeOf path found := by
      refine treeOf_congr ?_ ?_ path found <;> rfl
    rw [tree_eq_treeOf rfl, reportsOf_lenient, htree] at hlenient
    cases hlenient
    rw [if_pos hstrict, ← hsame, hsevere, hsame]
    rfl
  · rw [if_neg hstrict, tree_eq_treeOf (by simpa using hstrict)]

end Walk

end EditorDocs
