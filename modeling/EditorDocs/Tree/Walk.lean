import EditorDocs.FileSystem.Operations
import EditorDocs.FileSystem.Path
import EditorDocs.Tree.Basic
/-!
# Walking a directory

The tree of a directory is built with a stack of what is left to do, so that its depth is no
concern. A directory on the stack is visited: its entries are listed, its subdirectories are put on
the stack, and above them waits the request to gather their trees. Symbolic links are entries like
files and never followed.

A directory that cannot be listed has an empty tree and is reported, and so is one that lies below
the deepest level. A strict walk ends at the first report.
-/

namespace EditorDocs

open FileSystem (Name Node Entries)

/-! ## Reports -/

/-- Why a directory was left empty. -/
inductive Skipped.Cause where
  /-- It cannot be listed. -/
  | system (e : SystemError)
  /-- It lies below the deepest level. -/
  | depth (limit : Nat)

/-- A directory that was left empty. -/
structure Skipped where
  /-- The path of the directory. -/
  path : Text
  /-- Why it was left empty. -/
  cause : Skipped.Cause

namespace Skipped

/-- The wording of the cause. -/
def message (s : Skipped) : Text :=
  match s.cause with
  | .system e => e.message
  | .depth limit => ("max depth " : Text) ++ Text.ofNat limit ++ " exceeded"

/-- The kind of the cause. -/
def kind (s : Skipped) : Text :=
  match s.cause with
  | .system e => e.errno.kind
  | .depth _ => "RecursionError"

end Skipped

/-! ## The walk -/

/-- The rules of a walk. -/
structure Walk where
  /-- Why the directory at a path cannot be listed, if it cannot. -/
  unlistable : Path → Option Errno
  /-- The first name is listed before the second. -/
  listsBefore : Name → Name → Bool
  /-- Whether the walk ends at the first report. -/
  strict : Bool
  /-- The deepest level that is listed, if there is one. -/
  maxDepth : Option Nat

/-- What is left to do on a walk. -/
inductive Walk.Task where
  /-- A directory is visited, with its entries or the cause that keeps them from being listed. -/
  | visit (path : Text) (found : Except Errno Entries) (depth : Nat)
  /-- The trees of so many subdirectories are gathered in the tree of their directory. -/
  | gather (files : List Name) (count : Nat)

namespace Walk

/-- The names among entries that are no directories. -/
def fileNames : Entries → List Name
  | [] => []
  | (_, .directory _) :: rest => fileNames rest
  | (name, _) :: rest => name :: fileNames rest

/-- The directories among entries. -/
def subdirectories : Entries → List (Name × Entries)
  | [] => []
  | (name, .directory es) :: rest => (name, es) :: subdirectories rest
  | _ :: rest => subdirectories rest

/-- The entries of a directory at a path, if they can be listed. -/
def listing (w : Walk) (path : Text) (es : Entries) : Except Errno Entries :=
  if FileSystem.pathLimit < FileSystem.byteLength path then .error .nameTooLong
  else match w.unlistable (Path.ofText path).collapse with
    | some e => .error e
    | none => .ok es

namespace Task

/-- A bound on the steps that a task takes. -/
def weight : Task → Nat
  | visit _ (.ok es) _ => 2 * Node.sizeOfEntries es + 2
  | visit _ (.error _) _ => 1
  | gather _ _ => 1

/-- A bound on the steps that the tasks of a stack take. -/
def totalWeight : List Task → Nat
  | [] => 0
  | task :: rest => task.weight + totalWeight rest

/-- The stack with visits of the subdirectories of a path on it, that of the last one on top. -/
def push (w : Walk) (path : Text) (depth : Nat) : List (Name × Entries) → List Task → List Task
  | [], stack => stack
  | (name, es) :: rest, stack =>
    let child := FileSystem.under path name
    push w path depth rest (visit child (w.listing child es) depth :: stack)

end Task

/-- The number of nodes in directories. -/
def sizeOfDirectories : List (Name × Entries) → Nat
  | [] => 0
  | (_, es) :: rest => Node.sizeOfEntries es + 1 + sizeOfDirectories rest

/-- A listing holds what the directory holds. -/
theorem weight_listing_le (w : Walk) (path : Text) (es : Entries) (depth : Nat) :
    (Task.visit path (w.listing path es) depth).weight ≤ 2 * Node.sizeOfEntries es + 2 := by
  unfold listing
  split
  · simp only [Task.weight]; omega
  · split
    · simp only [Task.weight]; omega
    · simp only [Task.weight]; omega

/-- Pushed directories add no more than their own weight. -/
theorem totalWeight_push_le (w : Walk) (path : Text) (depth : Nat) (ds : List (Name × Entries))
    (stack : List Task) :
    Task.totalWeight (Task.push w path depth ds stack) ≤
      2 * sizeOfDirectories ds + Task.totalWeight stack := by
  induction ds generalizing stack with
  | nil => simp [Task.push, sizeOfDirectories]
  | cons d rest ih =>
    obtain ⟨name, es⟩ := d
    simp only [Task.push, sizeOfDirectories]
    have h := ih (Task.visit (FileSystem.under path name)
      (w.listing (FileSystem.under path name) es) depth :: stack)
    have h' := weight_listing_le w (FileSystem.under path name) es depth
    simp only [Task.totalWeight] at h
    omega

/-- The directories among entries hold no more nodes than the entries. -/
theorem sizeOfDirectories_subdirectories_le (es : Entries) :
    sizeOfDirectories (subdirectories es) ≤ Node.sizeOfEntries es := by
  fun_induction subdirectories es with
  | case1 => simp [sizeOfDirectories]
  | case2 name es rest ih =>
    simp only [sizeOfDirectories, Node.sizeOfEntries, Node.size]; omega
  | case3 e rest _ ih =>
    obtain ⟨name, n⟩ := e
    simp only [Node.sizeOfEntries]; omega

/-- Inserting an entry adds its nodes. -/
theorem sizeOfEntries_insert (before : Name → Name → Bool) (e : Name × Node) (es : Entries) :
    Node.sizeOfEntries (Entries.insert before e es) = e.2.size + Node.sizeOfEntries es := by
  induction es with
  | nil => simp [Entries.insert, Node.sizeOfEntries]
  | cons f rest ih =>
    simp only [Entries.insert]
    split
    · simp [Node.sizeOfEntries]
    · simp only [Node.sizeOfEntries, ih]; omega

/-- Sorting entries keeps their nodes. -/
theorem sizeOfEntries_sort (before : Name → Name → Bool) (es : Entries) :
    Node.sizeOfEntries (Entries.sort before es) = Node.sizeOfEntries es := by
  induction es with
  | nil => rfl
  | cons e rest ih => simp only [Entries.sort, sizeOfEntries_insert, ih, Node.sizeOfEntries]

/-- The limit, if nothing below this depth is listed. -/
def limitAt? (w : Walk) (depth : Nat) : Option Nat :=
  w.maxDepth.bind fun limit => if depth + 1 > limit then some limit else none

/-- The trees of the tasks on a stack, before those that are there already, and the reports after
those that were made already. A strict walk ends with its first report. -/
def run (w : Walk) : List Task → List DirTree → List Skipped →
    Except Skipped (List DirTree × List Skipped)
  | [], done, reports => .ok (done, reports)
  | .gather files count :: tasks, done, reports =>
    run w tasks (.node files (done.take count) :: done.drop count) reports
  | .visit path (.error e) _ :: tasks, done, reports =>
    let skipped : Skipped := ⟨path, .system ⟨e, path, none⟩⟩
    if w.strict then .error skipped else run w tasks (.empty :: done) (reports ++ [skipped])
  | .visit path (.ok es) depth :: tasks, done, reports =>
    let listed := Entries.sort w.listsBefore es
    let files := fileNames listed
    match w.limitAt? depth with
    | some limit =>
      let skipped := (subdirectories listed).map fun (name, _) =>
        (⟨FileSystem.under path name, .depth limit⟩ : Skipped)
      let tree := DirTree.node files (skipped.map fun _ => .empty)
      match w.strict, skipped with
      | true, s :: _ => .error s
      | _, _ => run w tasks (tree :: done) (reports ++ skipped)
    | none =>
      let dirs := subdirectories listed
      run w (Task.push w path (depth + 1) dirs (.gather files dirs.length :: tasks)) done reports
termination_by tasks => Task.totalWeight tasks
decreasing_by
  · simp only [Task.totalWeight, Task.weight]; omega
  · simp only [Task.totalWeight, Task.weight]; omega
  · simp only [Task.totalWeight, Task.weight]; omega
  · have h := totalWeight_push_le w path (depth + 1)
      (subdirectories (Entries.sort w.listsBefore es))
      (.gather (fileNames (Entries.sort w.listsBefore es))
        (subdirectories (Entries.sort w.listsBefore es)).length :: tasks)
    have h' := sizeOfDirectories_subdirectories_le (Entries.sort w.listsBefore es)
    rw [sizeOfEntries_sort] at h'
    simp only [Task.totalWeight, Task.weight] at h ⊢
    omega

/-- The tree of the directory at a path, whose entries have been found or not, with the directories
that were left empty; in a strict walk the first one of these instead, if there is any. -/
def tree (w : Walk) (path : Text) (found : Except Errno Entries) :
    Except Skipped (DirTree × List Skipped) :=
  (w.run [.visit path found 0] [] []).map fun (trees, reports) => (trees.headD .empty, reports)

end Walk

end EditorDocs
