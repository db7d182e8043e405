import EditorDocs.World
/-!
# File actions

The file operations of the system as actions, and what is made of them: directories with all that
leads to them, and files under a name that nobody else uses. A path that no file can have is refused
before the system sees it.
-/

namespace EditorDocs.Files

open FileSystem (State Location Entries isEscapedByte)

/-! ## Paths that can be passed -/

/-- A code point that a path cannot hold: half of a surrogate pair that stands for no byte. -/
def isUnwritable (c : CodePoint) : Bool := c.isSurrogate && !isEscapedByte c

/-- Why no file can have the path, if so. -/
def refusal? (path : Text) : Option Failure :=
  match Utf8.firstRun isUnwritable 0 path with
  | some run => some (.unencodable run)
  | none => if path.any fun c => c.val = 0 then some .embeddedNul else none

/-- The outcome of a file operation at a path; a failure names the path. -/
def outcome {α : Type} (path : Text) (second : Option Text) : Except Errno α → Except Failure α
  | .ok a => .ok a
  | .error e => .error (.system ⟨e, path, second⟩)

/-- What an operation that only looks finds at a path. -/
def look {α : Type} (op : State → Text → Except Errno α) (path : Text) : Action α := do
  match refusal? path with
  | some f => throw f
  | none => Action.ofExcept (outcome path none (op (← get).files path))

/-- An operation that changes the files at a path. If it fails they stay as they are. -/
def change {α : Type} (op : State → Text → Except Errno (α × State)) (path : Text) :
    Action α := do
  match refusal? path with
  | some f => throw f
  | none =>
    let (a, files) ← Action.ofExcept (outcome path none (op (← get).files path))
    modify fun w => { w with files := files }
    pure a

/-- The operation, which has no result besides the change. -/
def silently (op : State → Text → Except Errno State) (s : State) (path : Text) :
    Except Errno (Unit × State) := (op s path).map fun s => ((), s)

/-! ## Looking -/

/-- The content of the file at a path. -/
def read (path : Text) : Action Bytes := look State.read path

/-- There is something at a path, whatever keeps it from being looked at. -/
def isThere (path : Text) : Action Bool := do
  pure ((refusal? path).isNone && ((← get).files.lookup path).isOk)

/-- There is a directory at a path, whatever keeps it from being looked at. -/
def isDirectory (path : Text) : Action Bool := do
  pure ((refusal? path).isNone && (← get).files.isDirectory path)

/-- The cause says that there is nothing at a path. -/
def meansAbsence : Errno → Bool
  | .noEntry | .notDirectory | .tooManyLinks => true
  | _ => false

/-- There is something at a path. That it cannot be looked at is a failure; a path that no file can
have leads to nothing. -/
def exists? (path : Text) : Action Bool := do
  match refusal? path with
  | some _ => pure false
  | none => match (← get).files.lookup path with
    | .ok _ => pure true
    | .error e => if meansAbsence e then pure false else throw (.system ⟨e, path, none⟩)

/-- There is a directory at a path. That the path cannot be looked at is a failure, unless it says
that there is nothing. -/
def isDirectory? (path : Text) : Action Bool := do
  if ← exists? path then isDirectory path else pure false

/-! ## Directories -/

/-- A directory is made. -/
def makeDirectory (path : Text) : Action Unit := change (silently State.makeDirectory) path

/-- A directory is made unless there is one at the path, which `test` finds out. -/
def ensureDirectory (test : Text → Action Bool) (path : Text) : Action Unit :=
  tryCatch (makeDirectory path) fun e => do
    if e.isSystem then
      if ← test path then pure () else throw e
    else throw e

/-- What stands before and behind the last slash, without the slashes that then end the first part,
unless it consists of slashes. -/
def splitLast (path : Text) : Text × Text :=
  let tail := (path.reverse.takeWhile (· ≠ ('/' : CodePoint))).reverse
  (FileSystem.dropEndSlashes (path.take (path.length - tail.length)), tail)

/-- The directory that holds what a path leads to, and the name in it; slashes at the end of the
path do not count. -/
def splitPath (path : Text) : Text × Text :=
  match splitLast path with
  | (head, []) => splitLast head
  | parts => parts

/-- A directory is made unless there is one at the path, and so are the directories on the way, of
which at most so many are missing. -/
def makeDirectories : (missing : Nat) → (path : Text) → Action Unit
  | 0, _ => throw .tooDeep
  | missing + 1, path => do
    let (head, name) := splitPath path
    if !head.isEmpty && !name.isEmpty && !(← isThere head) then
      tryCatch (makeDirectories missing head) fun
        | .system ⟨.entryExists, _, _⟩ => pure ()
        | e => throw e
      if name = FileSystem.dot then return
    ensureDirectory isDirectory path

/-- A directory is made unless there is one at the path; if the directory that is to hold it is
missing that one is made first. Every round goes up by a name. -/
def makePathAfter : (rounds : Nat) → Path → Action Unit
  | 0, p => ensureDirectory isDirectory? p.text
  | rounds + 1, p =>
    tryCatch (ensureDirectory isDirectory? p.text) fun
      | e@(.system ⟨.noEntry, _, _⟩) =>
        if p.parent = p then throw e else do
          makePathAfter rounds p.parent
          ensureDirectory isDirectory? p.text
      | e => throw e

/-- A directory is made unless there is one at the path, and so are the directories on the way. -/
def makePath (p : Path) : Action Unit := makePathAfter p.names.length p

/-! ## Files -/

/-- The file at a path is opened for writing; it is emptied unless what it holds is kept. -/
def openForWriting (truncates : Bool) (path : Text) : Action Location :=
  change (fun s p => s.openForWriting truncates p) path

/-- An open file is given a content. -/
def store (loc : Location) (content : Bytes) : Action Unit :=
  modify fun w => { w with files := w.files.store loc content }

/-- An open file is given a text, unless that holds surrogates. -/
def storeText (loc : Location) (t : Text) : Action Unit :=
  match Utf8.encode t with
  | .ok bytes => store loc bytes
  | .error u => throw (.unencodable u)

/-- The file at a path is deleted. -/
def unlink (path : Text) : Action Unit := do
  let loc ← change State.unlink path
  modify fun w => w.forget loc

/-- The file at a path is deleted if there is one. -/
def discard (path : Text) : Action Unit :=
  tryCatch (unlink path) fun
    | .system ⟨.noEntry, _, _⟩ => pure ()
    | e => throw e

/-- A file is moved to another path, in the place of what is there. -/
def replace (source target : Text) : Action Unit := do
  match (refusal? source).orElse fun _ => refusal? target with
  | some f => throw f
  | none =>
    let (gone, files) ←
      Action.ofExcept (outcome source (some target) ((← get).files.replace source target))
    modify fun w => { w with files := files }
    match gone with
    | some loc => modify fun w => w.forget loc
    | none => pure ()

/-! ## Names that nobody uses -/

/-- The part of a name that tells temporary files apart. -/
def candidate (n : Nat) : Text :=
  let digits := Text.ofNat n
  List.replicate (8 - digits.length) ('0' : CodePoint) ++ digits

/-- How many names are tried. -/
def candidateLimit : Nat := 10000

/-- The first end of a name, with `stop` behind a candidate, that no entry of the file system has at
the end of its name. -/
def freshEnd? (s : FileSystem.State) (stop : Text) : Option Text :=
  ((List.range candidateLimit).map fun n => candidate n ++ stop).find? fun e =>
    !s.root.anyName fun name => name.endsWith e

/-- A file is created in a directory under a name that is like no other one, which begins and ends
as said. The result is its path and the file. -/
def createFresh (directory : Path) (start stop : Text) : Action (Text × Location) := do
  let w ← get
  let path := FileSystem.under (w.workingDirectory.append directory).collapse.text start
  match freshEnd? w.files stop with
  | none => throw (.system ⟨.entryExists, path ++ stop, none⟩)
  | some e =>
    let loc ← change State.createFile (path ++ e)
    pure (path ++ e, loc)

end EditorDocs.Files
