import EditorDocs.Config.Schema
import EditorDocs.Config.Layers
import EditorDocs.World.Files
import EditorDocs.Yaml.Document
/-!
# Loading a configuration

The configuration file is read if one is named. It holds a document that is read as data; data that
does not count as given stands for the empty configuration. The file, the environment and the
options are then laid over one another, and the result is validated.
-/

namespace EditorDocs.Config

/-- How deep the values of a configuration are nested in it: in a section, in one of its settings,
and in that one's entries. -/
def valueDepth : Nat := 3

/-- The data of a configuration file whose nodes are nested no deeper than `budget`, as far as a
configuration has values. -/
def fileData (budget : Nat) (bytes : Bytes) : Except Failure Data := do
  let d := (← Yaml.Document.ofSource budget (.ofBytes bytes)).data valueDepth
  pure (if d.isTruthy then d else .mapping [])

/-- The sections of a configuration; they have to be named by texts, unless there are none. -/
def sections : Data → Except Failure Mapping
  | .mapping m =>
    if m.all fun (key, _) => match key with
      | .text _ => true
      | _ => false
    then .ok m else .error .configurationList
  | .list _ | .set _ => .error .configurationList
  | .scalar _ => .error .configurationScalar

/-- The outcome of validation with all layers: settings or problems. -/
def settings (temporary : Path) (file : Data) (environment : Environment) (options : Mapping) :
    Except Failure (Checked Settings) := do
  match file with
  | .mapping m =>
    let combined ← sections (.mapping (combine m environment options))
    pure (validate temporary combined)
  | d => (sections d).map (validate temporary)

/-! ## Loading -/

/-- The data of the configuration file at a path, or the empty configuration without one. -/
def loadFile : Option Path → Action Data
  | none => pure (.mapping [])
  | some path => do
    if ← Files.exists? path.text then
      Action.ofExcept (fileData (← get).host.stack.nodes (← Files.read path.text))
    else throw (.missingConfiguration path.text)

/-- The settings or problems of a configuration: a file if one is named, the environment, and the
options. -/
def load (temporary : Path) (environment : Environment) (file : Option Path) (options : Mapping) :
    Action (Checked Settings) := do
  Action.ofExcept (settings temporary (← loadFile file) environment options)

end EditorDocs.Config
