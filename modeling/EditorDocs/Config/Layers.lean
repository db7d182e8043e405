import EditorDocs.Config.Data
import EditorDocs.Text.Lowercase
/-!
# Layers over the configuration file

One mapping is laid over another. Where both hold a mapping under a key the two are merged;
otherwise the value laid over wins. Keys of the lower mapping keep their places, new keys follow in
the order of the upper one.

Above the file stand the environment and then the options of the command line. A variable counts if
it is not empty. Of the options, a path or a name counts if it is not empty, a number if it was
given at all, zero included, and `strict` only if it is set: it never switches off what a lower
layer has switched on.
-/

namespace EditorDocs.Config

/-! ## Merging -/

mutual

/-- One mapping laid over `base`, entry by entry. -/
def merge (base : Mapping) : Mapping → Mapping
  | [] => base
  | (key, value) :: rest =>
    merge (Mapping.put key (overlay (Mapping.get? key base) value) base) rest

/-- What stands under a key after `value` was laid over what stood there. -/
def overlay (below : Option Data) : Data → Data
  | .mapping upper => match below with
    | some (.mapping base) => .mapping (merge base upper)
    | _ => .mapping upper
  | value => value

end

/-- A setting in a section, where it is given. -/
def setting (section_ name : String) (value : Option Data) : Mapping :=
  match value with
  | none => []
  | some v => [(section_, .mapping [(name, v)])]

/-- The settings together, in their order, by section. -/
def gather (settings : List Mapping) : Mapping := settings.foldl merge []

/-! ## Environment -/

/-- The variables of the environment that are read. -/
structure Environment where
  /-- Where records are kept. -/
  cacheDir : Option Text := none
  /-- How long a request may take. -/
  timeout : Option Text := none
  /-- The level of the log file. -/
  logLevel : Option Text := none
  /-- The log file. -/
  logFile : Option Text := none

/-- A variable as data, if it is set and not empty. -/
def variableData (value : Option Text) : Option Data :=
  (value.filter fun t => !t.isEmpty).map Data.text

/-- The settings that the environment makes. The level is taken in lower case. -/
def Environment.overrides (e : Environment) : Mapping :=
  gather [
    setting "docs" "cache_dir" (variableData e.cacheDir),
    setting "docs" "timeout" (variableData e.timeout),
    setting "logging" "level" (variableData (e.logLevel.map Text.lower)),
    setting "logging" "file" (variableData e.logFile)]

/-! ## Options -/

/-- An option that counts if it is given and not null. -/
def presentOption (options : Mapping) (name : String) : Option Data :=
  match Mapping.get? name options with
  | some (.scalar .null) => none
  | value => value

/-- An option that counts if it is given and truthy. -/
def truthyOption (options : Mapping) (name : String) : Option Data :=
  (Mapping.get? name options).filter Data.isTruthy

/-- The settings that the options make. -/
def optionOverrides (options : Mapping) : Mapping :=
  gather [
    setting "docs" "cache_dir" (truthyOption options "cache_dir"),
    setting "docs" "timeout" (presentOption options "timeout"),
    setting "tree" "strict" ((truthyOption options "strict").map fun _ => .scalar (.bool true)),
    setting "tree" "max_depth" (presentOption options "max_depth"),
    setting "logging" "level" (truthyOption options "log_level"),
    setting "logging" "file" (truthyOption options "log_file"),
    setting "logging" "verbose" (presentOption options "verbose")]

/-- The options laid over a configuration. -/
def applyOptions (config options : Mapping) : Mapping := merge config (optionOverrides options)

/-- The file, the environment and the options, each laid over what stands before it. -/
def combine (file : Mapping) (environment : Environment) (options : Mapping) : Mapping :=
  applyOptions (merge file environment.overrides) options

end EditorDocs.Config
