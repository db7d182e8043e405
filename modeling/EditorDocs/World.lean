import EditorDocs.Failure
import EditorDocs.FileSystem.Operations
import EditorDocs.FileSystem.Path
import EditorDocs.Json.Document
import EditorDocs.Log.Journal
/-!
# What operations see and change

Operations work on files, ask a remote source for documents and report what happens. A `World`
holds all of this, and an `Action` is an operation on it that may fail. What was done before a
failure stays done.
-/

namespace EditorDocs

/-! ## Worlds -/

/-- How a request is answered. -/
inductive Reply where
  /-- A response with a status, the phrase that the source gives for it, and a body. -/
  | response (status : Nat) (phrase : Text) (body : Bytes)
  /-- The exchange failed in a way that has a name and a wording. -/
  | broken (kind message : Text)
  /-- The URL is refused before anything is sent. -/
  | refusedUrl (message : Text)
  /-- Cookies of one name are in conflict. -/
  | cookieConflict (message : Text)
  /-- The user interrupts the exchange. -/
  | interruption

/-- How far operations that call themselves get with the stack that is left to them, which depends
on the machine and on where they are called. -/
structure Stack where
  /-- How deep containers may be nested in a line that the server reads or writes. -/
  lines : Nat
  /-- How deep containers may be nested in a tree that is printed. -/
  prints : Nat
  /-- How many directories may be missing on the way to one that is made. -/
  directories : Nat
  /-- How deep the nodes of a configuration file may be nested. -/
  nodes : Nat
  /-- A line may hold one container in another, as the response does that tells a failure. -/
  room : 1 < lines
  deriving DecidableEq

/-- What a stack of the usual size, a thousand calls, leaves. -/
def Stack.usual : Stack := ⟨980, 980, 960, 480, by decide⟩

/-- The machine that operations run on, as far as it never changes. -/
structure Host where
  /-- The first name is listed before the second. -/
  listsBefore : FileSystem.Name → FileSystem.Name → Bool
  /-- Why the directory at a collapsed path cannot be listed, if it cannot. -/
  unlistable : Path → Option Errno
  /-- The stack that is left to operations. -/
  stack : Stack
  /-- How the reader of documents measures numbers. -/
  reader : Json.Reader
  /-- How the values of records are rendered. -/
  rendering : Log.Rendering

/-- Everything that operations see and change. -/
structure World where
  /-- The machine. -/
  host : Host
  /-- The files on it. -/
  files : FileSystem.State
  /-- The answer to a request for a URL. -/
  remote : Text → Reply
  /-- The URLs that were asked for, in order. -/
  requests : List Text
  /-- What was reported, in order. -/
  records : List Record
  /-- The log that is open, if there is one. -/
  journal : Option Log.Journal := none

namespace World

/-- The world after a record was made, which a log that is open gets at once. -/
def report (w : World) (r : Record) : World :=
  let w := { w with records := w.records ++ [r] }
  match w.journal with
  | none => w
  | some j =>
    let e := j.emission r
    { w with files := j.filesAfter e w.files, journal := some (j.after e) }

/-- The failure that comes back from making a record, if there is one. What a record of the library
may hold too much of is the nesting of a value that it passes on: its numbers are lengths, which do
not have too many digits, and it names no stack. -/
def refusal? (w : World) (r : Record) : Option Failure :=
  match r.context.isFlat, w.journal with
  | false, some j => (j.fate (j.emission r)).failure
  | _, _ => none

/-- The world after the entry at a location has gone. -/
def forget (w : World) (loc : FileSystem.Location) : World :=
  { w with journal := w.journal.map fun j => j.forget loc }

end World

/-- An operation that may fail. -/
abbrev Action := ExceptT Failure (StateM World)

/-! ## Elementary actions -/

namespace Action

/-- What a pure computation gives. -/
def ofExcept {α : Type} : Except Failure α → Action α
  | .ok a => pure a
  | .error e => throw e

/-- A record is added to what was reported. What the log cannot render may come back as a failure. -/
def report (r : Record) : Action Unit := do
  let refusal := (← get).refusal? r
  modify fun w => w.report r
  match refusal with
  | some e => throw e
  | none => pure ()

/-- How the reader of documents measures numbers. -/
def reader : Action Json.Reader := do pure (← get).host.reader

/-- A URL is asked for. -/
def request (url : Text) : Action Reply :=
  modifyGet fun w => (w.remote url, { w with requests := w.requests ++ [url] })

end Action

/-- The directory in which relative paths begin. -/
def World.workingDirectory (w : World) : Path := ⟨.absolute, w.files.home⟩

end EditorDocs
