import EditorDocs.Index.Decode
import EditorDocs.World.Files
/-!
# Records of indices

The index of a language is kept as a record in a directory, under a name that depends on the
language alone. A record that is there is valid; it is refreshed by deleting it. A record is written
to a temporary file first and then moved to its place, so that it is never seen half written and the
last writer wins.
-/

namespace EditorDocs

/-- Where records are kept. -/
structure Cache where
  /-- The directory that holds the records; it is made when the first one is written. -/
  directory : Path
  deriving DecidableEq

namespace Cache

/-- The name of the record of a language. -/
def recordName (language : Text) : Text := language ++ "_index.json"

/-- The path of the record of a language. -/
def recordPath (c : Cache) (language : Text) : Path := c.directory.child (recordName language)

/-- What the cache reports. -/
def report (event : Text) (context : Context) : Action Unit :=
  Action.report ⟨.info, event, Context.bind [("component", .string "index_cache")] context, none⟩

/-- There is a record of a language. -/
def exists? (c : Cache) (language : Text) : Action Bool :=
  Files.exists? (c.recordPath language).text

/-- The bytes of the record of a language. -/
def readBytes (path : Text) : Action Bytes :=
  tryCatch (Files.read path) fun
    | .system e => throw (.unreadableRecord path e.message)
    | e => throw e

/-- The index in the record of a language. -/
def read (c : Cache) (language : Text) : Action Index := do
  let path := (c.recordPath language).text
  let index ← Action.ofExcept (Index.receive (← Action.reader) path (← readBytes path))
  report "index.cache_hit" [("path", .string path), ("entries", .int index.entries.length)]
  pure index

/-- A new temporary file is given the content of a record and moved to its place. -/
def install (temporary : Text) (file : FileSystem.Location) (path : Path) (index : Index) :
    Action Unit := do
  match index.texts.findSome? (Utf8.firstRun CodePoint.isSurrogate 0) with
  | some run => throw (.unwritableText run)
  | none => pure ()
  Files.storeText file index.render
  Files.replace temporary path.text

/-- An index is written as the record of a language; the result is the path of the record. Whatever
goes wrong, no temporary file stays behind. -/
def write (c : Cache) (language : Text) (index : Index) : Action Path := do
  let path := c.recordPath language
  Files.makePath c.directory
  let (temporary, file) ←
    Files.createFresh c.directory (("." : Text) ++ language ++ "_index.") ".tmp"
  tryCatch (install temporary file path index) fun e => do
    Files.discard temporary
    throw e
  report "index.cached" [("path", .string path.text), ("entries", .int index.entries.length)]
  pure path

/-- The record of a language is deleted; the result says whether there was one. -/
def clearOne (c : Cache) (language : Text) : Action Bool := do
  let path := (c.recordPath language).text
  let deleted ← tryCatch (do Files.unlink path; pure true) fun
    | .system ⟨.noEntry, _, _⟩ => pure false
    | e => throw e
  if deleted then report "index.cache_cleared" [("path", .string path)]
  pure deleted

/-- The records of the languages are deleted; the result is the number of those that were there. -/
def clear (c : Cache) : List Text → Action Nat
  | [] => pure 0
  | language :: rest => do
    let deleted ← c.clearOne language
    let more ← c.clear rest
    pure ((if deleted then 1 else 0) + more)

end Cache

end EditorDocs
