import EditorDocs.FileSystem.Path
import EditorDocs.Source.Basic
import EditorDocs.Number.Binary64
/-!
# Settings

A configuration after validation: where records are kept and documents come from, how trees are
built, and what is logged where.
-/

namespace EditorDocs

/-- The least severity that the log file records. -/
inductive Level where
  /-- Everything. -/
  | debug
  /-- What happened. -/
  | info
  /-- What went wrong and was survived. -/
  | warn
  /-- What failed. -/
  | error
  deriving DecidableEq, Repr

/-- The name of a level. -/
def Level.name : Level → Text
  | .debug => "debug"
  | .info => "info"
  | .warn => "warn"
  | .error => "error"

/-- The levels, from the least severe on. -/
def Level.all : List Level := [.debug, .info, .warn, .error]

/-- Settings of the documentation indices. -/
structure DocsSettings where
  /-- The directory that holds the records. -/
  cacheDir : Path
  /-- The index URLs by language tag, in lower case and without repetitions. -/
  urls : Table Text Text
  /-- What document URLs begin with, without slashes at the end. -/
  base : Text
  /-- How long a request may take, in seconds. -/
  timeout : Binary64
  deriving DecidableEq

/-- Settings of directory trees. -/
structure TreeSettings where
  /-- Whether a directory that cannot be listed is an error. -/
  strict : Bool
  /-- The deepest level that is listed, if there is one. -/
  maxDepth : Option Nat
  /-- Whether a missing directory is created first. -/
  createMissing : Bool
  deriving DecidableEq

/-- Settings of the log. -/
structure LogSettings where
  /-- The level of the log file. -/
  level : Level
  /-- The log file, if there is one. -/
  file : Option Path
  /-- How much the console shows. -/
  verbose : Int
  deriving DecidableEq

/-- A validated configuration. -/
structure Settings where
  /-- Documentation indices. -/
  docs : DocsSettings
  /-- Directory trees. -/
  tree : TreeSettings
  /-- The log. -/
  log : LogSettings
  deriving DecidableEq

/-- The sources that the settings name. -/
def DocsSettings.sources (s : DocsSettings) : Sources := Sources.ofList s.urls s.base

namespace Settings

/-- The depth at which trees end unless a configuration says otherwise: their answers stay within
what can be written as one line. -/
def defaultMaxDepth : Nat := 256

/-- The settings of the indices that hold where a configuration is silent; records are kept in the
temporary directory of the host. -/
def defaultDocs (temporary : Path) : DocsSettings :=
  ⟨temporary, Sources.defaultUrls, Sources.defaultBase, Binary64.ofInt 30⟩

/-- The settings of trees that hold where a configuration is silent. -/
def defaultTree : TreeSettings := ⟨false, some defaultMaxDepth, true⟩

/-- The settings of the log that hold where a configuration is silent. -/
def defaultLog : LogSettings := ⟨.info, some (Path.ofText "doc_log.txt"), 0⟩

end Settings

end EditorDocs
