import EditorDocs.Text.Basic
/-!
# Paths

A path is a root and the names below it. Reading a path drops empty names and the names `.`, so
that repeated slashes and a slash at the end leave no trace; the name `..` stays, since what it
means depends on symbolic links. Exactly two slashes at the start are a root of their own.
-/

namespace EditorDocs

/-- Where a path starts. -/
inductive Path.Root where
  /-- At the working directory. -/
  | relative
  /-- At the root of the file system. -/
  | absolute
  /-- At the root, written with two slashes. -/
  | doubled
  deriving DecidableEq, Repr

/-- A path in normal form. -/
structure Path where
  /-- Where the path starts. -/
  root : Path.Root
  /-- The names below the root; none of them is empty, is `.` or holds a slash. -/
  names : List Text
  deriving DecidableEq

namespace Path

/-- How a root is written. -/
def Root.text : Root → Text
  | .relative => []
  | .absolute => "/"
  | .doubled => "//"

/-- The name adds nothing to a path. -/
def isIdle (name : Text) : Bool := name.isEmpty || name = ("." : Text)

/-- The root that the slashes at the start of a text announce. -/
def rootOf (t : Text) : Root :=
  match (t.takeWhile (· = ('/' : CodePoint))).length with
  | 0 => .relative
  | 2 => .doubled
  | _ => .absolute

/-- The path that a text spells. -/
def ofText (t : Text) : Path :=
  ⟨rootOf t, (t.splitOn ('/' : CodePoint)).filter fun name => !isIdle name⟩

/-- The path as it is written. The working directory is a single dot. -/
def text (p : Path) : Text :=
  if p.names.isEmpty && p.root = .relative then "." else p.root.text ++ Text.join "/" p.names

/-- The second path taken from the first one; if it starts at the root the first has no say. -/
def append (p q : Path) : Path :=
  if q.root = .relative then ⟨p.root, p.names ++ q.names⟩ else q

/-- The path without its last name; a path without names is its own parent. -/
def parent (p : Path) : Path := ⟨p.root, p.names.dropLast⟩

/-- The file that a text names, taken from the path as a directory. -/
def child (p : Path) (t : Text) : Path := p.append (ofText t)

/-- The names with one more behind them. Two dots take the last name away, or stay if there is none
to take; at the root there is nothing above. The names stand last first. -/
def collapseOnto (root : Root) : (before : List Text) → (name : Text) → List Text
  | [], name => if name = (".." : Text) && root != .relative then [] else [name]
  | last :: before, name =>
    if name = (".." : Text) && last != ("..": Text) then before else name :: last :: before

/-- The path without names that two dots take away again, whatever symbolic links there are. -/
def collapse (p : Path) : Path :=
  ⟨p.root, (p.names.foldl (collapseOnto p.root) []).reverse⟩

end Path

end EditorDocs
