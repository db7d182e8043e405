import EditorDocs.Config.Settings
import EditorDocs.Tree.Walk
import EditorDocs.World.Files
/-!
# Building a tree

The directory that is asked for is made if it is missing, which may fail without consequence, and
then walked. What the walk left empty is reported, unless it is strict: then the first such
directory is the failure.
-/

namespace EditorDocs.TreeSettings

/-- What the building of trees reports. -/
def report (event : Text) (context : Context) : Action Unit :=
  Action.report ⟨.warning, event,
    Context.bind [("component", .string "tree_builder")] context, none⟩

/-- A directory is made if it is missing, with those on the way to it as far as the stack suffices. -/
def makeMissing (path : Text) : Action Unit := do
  Files.makeDirectories (← get).host.stack.directories path

/-- A missing directory is made, if the settings say so. -/
def prepare (s : TreeSettings) (path : Text) : Action Unit :=
  if s.createMissing then
    tryCatch (makeMissing path) fun
      | .system e =>
        report "tree.create_failed" [("path", .string path), ("error", .string e.message)]
      | e => throw e
  else pure ()

/-- The rules of a walk on a host. -/
def walk (s : TreeSettings) (h : Host) : Walk :=
  ⟨h.unlistable, h.listsBefore, s.strict, s.maxDepth⟩

/-- The entries of the directory at a path, if there is one that can be listed. -/
def rootListing (w : World) (path : Text) : Except Errno FileSystem.Entries := do
  let es ← w.files.list path
  match w.host.unlistable (Path.ofText path).collapse with
  | some e => throw e
  | none => pure es

/-- A directory that was left empty is reported. -/
def reportSkipped (skipped : Skipped) : Action Unit :=
  report "tree.listing_failed" [("path", .string skipped.path),
    ("error", .string skipped.message), ("error_type", .string skipped.kind)]

/-- A directory that was left empty is reported, and it is added to what was collected before if
anything is collected. -/
def collect (collected : Option (List Skipped)) (skipped : Skipped) :
    Action (Option (List Skipped)) := do
  reportSkipped skipped
  pure (collected.map fun before => before ++ [skipped])

/-- The tree of the directory at a path. A caller who collects the directories that were left empty
gets them behind those that were collected before; one who does not gets the tree alone. -/
def buildCollecting (s : TreeSettings) (path : Text) (collected : Option (List Skipped)) :
    Action (DirTree × Option (List Skipped)) := do
  s.prepare path
  match Files.refusal? path with
  | some f => throw f
  | none =>
    let w ← get
    match (s.walk w.host).tree path (rootListing w path) with
    | .error skipped => throw (.unlistable skipped.path skipped.message)
    | .ok (tree, skipped) =>
      let collected ← skipped.foldlM collect collected
      pure (tree, collected)

/-- The tree of the directory at a path, with the directories that were left empty. -/
def build (s : TreeSettings) (path : Text) : Action (DirTree × List Skipped) := do
  let (tree, collected) ← s.buildCollecting path (some [])
  pure (tree, collected.getD [])

end EditorDocs.TreeSettings
