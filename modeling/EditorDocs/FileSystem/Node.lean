import EditorDocs.Table
import EditorDocs.Text.Utf8
/-!
# File systems as trees

A file system is a tree of directories with files and symbolic links in them. An entry is found at
a location, which is the list of names that lead to it from the root; `Node.find?` is the view
through which all operations are described, and `Node.put` and `Node.remove` change it at one
location.

The entries of a directory have no order of their own: how they are listed is up to the host.
-/

namespace EditorDocs.FileSystem

/-- The name of an entry. -/
abbrev Name := Text

/-- The names that lead from the root to an entry. -/
abbrev Location := List Name

/-- An entry of a file system. -/
inductive Node where
  /-- A file with its content. -/
  | file (content : Bytes)
  /-- A symbolic link with the path that it stands for. -/
  | link (target : Text)
  /-- A directory with its entries. -/
  | directory (entries : List (Name × Node))

/-- The entries of a directory. -/
abbrev Entries := List (Name × Node)

/-- The entries without those of a name. -/
def Entries.erase (name : Name) (es : Entries) : Entries := es.filter fun e => e.1 ≠ name

/-- The entries with one more, before the first one that it comes before. -/
def Entries.insert (before : Name → Name → Bool) (e : Name × Node) : Entries → Entries
  | [] => [e]
  | f :: rest => if before e.1 f.1 then e :: f :: rest else f :: Entries.insert before e rest

/-- The entries in the order that `before` gives. -/
def Entries.sort (before : Name → Name → Bool) : Entries → Entries
  | [] => []
  | e :: rest => Entries.insert before e (Entries.sort before rest)

namespace Node

instance : Inhabited Node := ⟨.directory []⟩

/-- The node is a directory. -/
def isDirectory : Node → Bool
  | .directory _ => true
  | _ => false

/-- The node at a location below a node. -/
def find? : Location → Node → Option Node
  | [], n => some n
  | name :: rest, .directory es => (Table.get? name es).bind (find? rest)
  | _ :: _, _ => none

/-- The tree with `node` at a location, if the directory that is to hold it is there. -/
def put (node : Node) : Location → Node → Node
  | [], _ => node
  | name :: rest, .directory es =>
    match rest, Table.get? name es with
    | [], _ => .directory (Table.put name node es)
    | _ :: _, some child => .directory (Table.put name (put node rest child) es)
    | _ :: _, none => .directory es
  | _ :: _, n => n

/-- The tree without the node at a location. The root stays. -/
def remove : Location → Node → Node
  | [], n => n
  | name :: rest, .directory es =>
    match rest, Table.get? name es with
    | [], _ => .directory (Entries.erase name es)
    | _ :: _, some child => .directory (Table.put name (remove rest child) es)
    | _ :: _, none => .directory es
  | _ :: _, n => n

mutual

/-- The number of nodes in a tree. -/
def size : Node → Nat
  | .directory es => sizeOfEntries es + 1
  | _ => 1

/-- The number of nodes in entries. -/
def sizeOfEntries : Entries → Nat
  | [] => 0
  | (_, n) :: rest => n.size + sizeOfEntries rest

end

mutual

/-- Some entry of the tree has a name that satisfies `p`. -/
def anyName (p : Name → Bool) : Node → Bool
  | .directory es => anyNameOfEntries p es
  | _ => false

/-- Some of the entries, or some entry below them, has a name that satisfies `p`. -/
def anyNameOfEntries (p : Name → Bool) : Entries → Bool
  | [] => false
  | (name, n) :: rest => p name || n.anyName p || anyNameOfEntries p rest

end

end Node

end EditorDocs.FileSystem
