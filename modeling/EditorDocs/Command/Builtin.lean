import EditorDocs.Command.Registry
import EditorDocs.Index.Resolver
import EditorDocs.Tree.Build
/-!
# The commands of an editor

What an editor calls: the documentation index of a language, the document of an entry, the tree of a
directory, and the reading and writing of files. Text is read and written byte for byte: line breaks
are not converted.
-/

namespace EditorDocs.Command

/-- A failed call of `execute` with a list of another length, which is refused beforehand. -/
def refuse (name : Text) (args : List Text) : Action Json.Value :=
  throw (.argumentCount name [] args.length)

/-- Answers with the arguments, to see whether anybody is there. -/
def hello : Command where
  name := "Hello"
  description := "Echo the arguments joined with a space."
  label := "HelloCommand"
  execute args := pure (.string (Text.join " " args))

/-- The documentation index of a language. The second argument is the caller's own business. -/
def getIndices (r : Resolver) : Command where
  name := "GetIndices"
  description := "Return the documentation index of a language."
  usage := "language, callbackName"
  least := 2
  label := "GetIndicesCommand"
  execute
    | language :: _ => do pure (← r.resolve language).toJson
    | args => refuse "GetIndices" args

/-- The document of one entry of an index. -/
def getPath (r : Resolver) : Command where
  name := "GetPath"
  description := "Return the document of one entry ('<language>/<entry path>')."
  usage := "path"
  least := 1
  most := some 1
  label := "GetPathCommand"
  execute
    | path :: _ => do pure (.string (← r.fetchDocument path))
    | args => refuse "GetPath" args

/-- The tree of a directory. What the walk left empty is reported and not part of the answer. -/
def getFiles (s : TreeSettings) : Command where
  name := "GetFiles"
  description := "Return the nested file/directory tree of a directory."
  usage := "directoryPath"
  least := 1
  most := some 1
  label := "GetFilesCommand"
  execute
    | path :: _ => do
      let (tree, skipped) ← s.build path
      if !skipped.isEmpty then
        report "GetFiles" .info "files.partial_tree"
          [("path", .string path), ("skipped", .int skipped.length)]
      pure tree.toJson
    | args => refuse "GetFiles" args

/-- The text of the file at a path. -/
def openFile (path : Text) : Action Text := do
  match Utf8.decode (← Files.read path) with
  | .ok t => pure t
  | .error m => throw (.undecodable m)

/-- A text is written to the file at a path, in the place of what was in it. -/
def writeFile (path content : Text) : Action Unit := do
  let file ← Files.openForWriting true path
  Files.storeText file content

/-- The text of a file. -/
def openFileCommand : Command where
  name := "OpenFile"
  description := "Return the content of a file as text."
  usage := "path"
  least := 1
  most := some 1
  label := "OpenFileCommand"
  execute
    | path :: _ => do pure (.string (← openFile path))
    | args => refuse "OpenFile" args

/-- A file is created or overwritten. -/
def writeFileCommand : Command where
  name := "WriteFile"
  description := "Create or overwrite a file with the given content."
  usage := "path, content"
  least := 2
  most := some 2
  label := "WriteFileCommand"
  execute
    | path :: content :: _ => do
      writeFile path content
      pure (.string [])
    | args => refuse "WriteFile" args

/-- The commands of an editor. -/
def builtin (r : Resolver) (s : TreeSettings) : List Command :=
  [hello, getIndices r, getPath r, getFiles s, openFileCommand, writeFileCommand]

end EditorDocs.Command

namespace EditorDocs.Registry

/-- The registry of the commands of an editor. -/
def builtin (r : Resolver) (s : TreeSettings) : Registry :=
  ⟨(Command.builtin r s).map fun c => (c.name, c)⟩

/-- The registry that settings describe. -/
def ofSettings (s : Settings) : Registry := builtin (Resolver.create s.docs) s.tree

end EditorDocs.Registry
