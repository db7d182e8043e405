import EditorDocs.Json.Value
import EditorDocs.FileSystem.Node
/-!
# Directory trees

What there is below a directory: the names of the files in it and the trees of its subdirectories.
The names of the subdirectories are not part of the tree.

Trees can be as deep as a file system is, so they are turned into JSON with a stack of what is left
to do rather than by recursion. A subtree on the stack is visited, which puts its own subtrees above
it and leaves the request to gather their images; the last subtree is visited first, so that the
images come to lie in order.
-/

namespace EditorDocs

/-- The files and subdirectories of a directory. -/
inductive DirTree where
  /-- The names of the files and the trees of the subdirectories. -/
  | node (files : List FileSystem.Name) (dirs : List DirTree)

namespace DirTree

/-- The tree of a directory with nothing in it. -/
def empty : DirTree := node [] []

instance : Inhabited DirTree := ⟨empty⟩

/-- The names of the files in the directory. -/
def files : DirTree → List FileSystem.Name
  | node fs _ => fs

/-- The trees of the subdirectories. -/
def dirs : DirTree → List DirTree
  | node _ ds => ds

/-- There is nothing in the directory. -/
def isEmpty (t : DirTree) : Bool := t.files.isEmpty && t.dirs.isEmpty

mutual

/-- The number of directories of a tree. -/
def size : DirTree → Nat
  | node _ ds => sizes ds + 1

/-- The number of directories of trees. -/
def sizes : List DirTree → Nat
  | [] => 0
  | t :: rest => t.size + sizes rest

end

/-! ## The image in JSON -/

/-- The image of a directory, given the images of its subdirectories. -/
def image (files : List FileSystem.Name) (dirs : List Json.Value) : Json.Value :=
  .object [("files", .list (files.map .string)), ("dirs", .list dirs)]

/-- What is left to do for the image of a tree. -/
inductive ImageTask where
  /-- A tree is visited. -/
  | visit (t : DirTree)
  /-- The images of so many subdirectories are gathered in the image of their directory. -/
  | gather (files : List FileSystem.Name) (count : Nat)

namespace ImageTask

/-- A bound on the steps that a task takes. -/
def weight : ImageTask → Nat
  | visit t => 2 * t.size
  | gather _ _ => 1

/-- A bound on the steps that the tasks of a stack take. -/
def totalWeight : List ImageTask → Nat
  | [] => 0
  | task :: rest => task.weight + totalWeight rest

/-- The stack with visits of trees on it, that of the last one on top. -/
def push : List DirTree → List ImageTask → List ImageTask
  | [], stack => stack
  | t :: rest, stack => push rest (visit t :: stack)

/-- A pushed tree adds its own weight. -/
theorem totalWeight_push (ts : List DirTree) (stack : List ImageTask) :
    totalWeight (push ts stack) = 2 * sizes ts + totalWeight stack := by
  induction ts generalizing stack with
  | nil => simp [push, sizes]
  | cons t rest ih => simp only [push, ih, totalWeight, weight, sizes]; omega

end ImageTask

/-- The images of the trees on a stack, before those that are there already. -/
def imagesAfter : List ImageTask → List Json.Value → List Json.Value
  | [], done => done
  | .gather files count :: tasks, done =>
    imagesAfter tasks (image files (done.take count) :: done.drop count)
  | .visit (node files dirs) :: tasks, done =>
    imagesAfter (ImageTask.push dirs (.gather files dirs.length :: tasks)) done
termination_by tasks => ImageTask.totalWeight tasks
decreasing_by
  · simp only [ImageTask.totalWeight, ImageTask.weight]; omega
  · simp only [ImageTask.totalWeight_push, ImageTask.totalWeight, ImageTask.weight, size]; omega

/-- The tree in JSON: an object with the names of the files and the images of the subdirectories. -/
def toJson (t : DirTree) : Json.Value := (imagesAfter [.visit t] []).headD .null

end DirTree

end EditorDocs
