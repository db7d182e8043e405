import EditorDocs.FileSystem.Resolve
/-!
# File operations

What the operating system does with a path. An operation that only looks gives a result; one that
changes something gives the new file system. Each names the cause if it fails, and then the file
system is what it was.
-/

namespace EditorDocs.FileSystem

/-- The path without slashes at its end, unless it consists of slashes. -/
def dropEndSlashes (path : Text) : Text :=
  let t := path.dropEndWhile (· = ('/' : CodePoint))
  if t.isEmpty then path else t

/-- The path of a name in a directory. -/
def under (directory : Text) (name : Name) : Text :=
  if directory.endsWith "/" then directory ++ name else directory ++ "/" ++ name

namespace State

/-- The file system with a node at a location. -/
def put (s : State) (loc : Location) (n : Node) : State := { s with root := Node.put n loc s.root }

/-- The file system without the node at a location. -/
def remove (s : State) (loc : Location) : State := { s with root := Node.remove loc s.root }

/-! ## Looking -/

/-- The node to which a path leads. -/
def lookup (s : State) (path : Text) : Except Errno Node := do
  match ← s.locate .lookup path with
  | .object _ n => pure n
  | .vacancy _ _ _ => throw .noEntry

/-- The content of a file. -/
def read (s : State) (path : Text) : Except Errno Bytes := do
  match ← s.lookup path with
  | .file content => pure content
  | _ => throw .isDirectory

/-- The entries of a directory. -/
def list (s : State) (path : Text) : Except Errno Entries := do
  match ← s.lookup path with
  | .directory es => pure es
  | _ => throw .notDirectory

/-- The path leads to a directory. -/
def isDirectory (s : State) (path : Text) : Bool :=
  match s.lookup path with
  | .ok n => n.isDirectory
  | .error _ => false

/-! ## Changing -/

/-- A file is opened for writing: it is there afterwards, and the location is its own. With
`truncates` it is empty, otherwise what it holds is kept. -/
def openForWriting (s : State) (truncates : Bool) (path : Text) :
    Except Errno (Location × State) := do
  match ← s.locate .write path with
  | .object loc (.file content) => pure (loc, s.put loc (.file (if truncates then [] else content)))
  | .object _ _ => throw .isDirectory
  | .vacancy parent name _ => pure (parent ++ [name], s.put (parent ++ [name]) (.file []))

/-- A file is created that was not there before. -/
def createFile (s : State) (path : Text) : Except Errno (Location × State) := do
  match ← s.locate .entry path with
  | .object _ _ => throw .entryExists
  | .vacancy parent name _ => pure (parent ++ [name], s.put (parent ++ [name]) (.file []))

/-- A file that is open is given a content. One that has been deleted since is gone. -/
def store (s : State) (loc : Location) (content : Bytes) : State :=
  match Node.find? loc s.root with
  | some (.file _) => s.put loc (.file content)
  | _ => s

/-- Content is added at the end of a file that is open. -/
def append (s : State) (loc : Location) (more : Bytes) : State :=
  match Node.find? loc s.root with
  | some (.file content) => s.put loc (.file (content ++ more))
  | _ => s

/-- A directory is created. -/
def makeDirectory (s : State) (path : Text) : Except Errno State := do
  -- the length of the path counts with its slashes
  if pathLimit < byteLength path then throw .nameTooLong
  match ← s.locate .entry (dropEndSlashes path) with
  | .object _ _ => throw .entryExists
  | .vacancy parent name _ => pure (s.put (parent ++ [name]) (.directory []))

/-- A file or a symbolic link is deleted, and this is where it was. -/
def unlink (s : State) (path : Text) : Except Errno (Location × State) := do
  match ← s.locate .entry path with
  | .object _ (.directory _) => throw .isDirectory
  | .object loc _ => pure (loc, s.remove loc)
  | .vacancy _ _ _ => throw .noEntry

/-- A file is moved to another path, in the place of what is there unless that is a directory. The
location is that of what had to give way. -/
def replace (s : State) (source target : Text) : Except Errno (Option Location × State) := do
  match ← s.locate .entry source with
  | .vacancy _ _ _ => throw .noEntry
  | .object loc n =>
    match ← s.locate .entry target with
    | .object _ (.directory _) => throw .isDirectory
    | .object loc' _ =>
      if loc = loc' then pure (none, s) else pure (some loc', (s.remove loc).put loc' n)
    | .vacancy parent name slashed =>
      if slashed then throw .notDirectory
      else pure (none, (s.remove loc).put (parent ++ [name]) n)

/-- A symbolic link is created. -/
def makeLink (s : State) (target path : Text) : Except Errno State := do
  match ← s.locate .entry path with
  | .object _ _ => throw .entryExists
  | .vacancy parent name _ => pure (s.put (parent ++ [name]) (.link (canonical target)))

/-- Whatever a path leads to is deleted, with all that is in it. -/
def removeAll (s : State) (path : Text) : Except Errno State := do
  match ← s.locate .entry path with
  | .object loc _ => pure (s.remove loc)
  | .vacancy _ _ _ => throw .noEntry

end State

end EditorDocs.FileSystem
