import EditorDocs.Command.Builtin
import EditorDocs.CommandLine.Invocation
import EditorDocs.Config.Load
import EditorDocs.Log.Session
import EditorDocs.Server
/-!
# Running a command line

A command line prints its result and what went wrong, and ends with a code: zero if it did what was
asked, one if that failed, two if the command line makes no sense, and three if the configuration is
at fault. A failure that no command expects ends it with one, too, and is told apart.

Commands that work with a log open it after the configuration is read, and print what the console
shows of it before anything else that went wrong. Text that cannot go out ends the printing; what
was printed before it stays.
-/

namespace EditorDocs.CommandLine

/-! ## Endings -/

/-- How a command line ended. -/
structure Ending where
  /-- The code. -/
  code : Nat
  /-- What was printed, one text after the other. -/
  printed : List Text := []
  /-- What was printed about what went wrong. -/
  errors : Text := []
  /-- The failure that no command expects. -/
  unexpected : Option Failure := none
  /-- Why the command line makes no sense. -/
  misuse : Option Misuse := none

namespace Ending

/-- The work was done. -/
def done (printed : List Text) : Ending := { code := 0, printed := printed }

/-- The work failed, with words for the user. -/
def failed (code : Nat) (message : Text) : Ending := { code := code, errors := message ++ "\n" }

/-- A failure that no command expects. An interruption by the user is none. -/
def ofFailure : Failure → Ending
  | .interrupted => failed 1 "\nAborted!"
  | e => { code := 1, unexpected := some e }

/-- The command line makes no sense. -/
def ofMisuse (m : Misuse) : Ending :=
  { code := 2, errors := m.message ++ "\n", misuse := some m }

/-- What was printed goes out as UTF-8, which a text with surrogates ends. -/
def print (e : Ending) : Ending :=
  match e.printed.findSome? (Utf8.firstRun CodePoint.isSurrogate 0) with
  | some run =>
    { e with
      code := 1, printed := e.printed.takeWhile fun t => !t.any CodePoint.isSurrogate,
      unexpected := some (.unencodable run) }
  | none => e

/-- All that was printed. -/
def output (e : Ending) : Text := e.printed.flatten

end Ending

/-- Surrogates as escapes, which the console shows in their place. -/
def escapeSurrogates (t : Text) : Text :=
  t.flatMap fun c => if c.isSurrogate then ("\\u" : Text) ++ Text.ofHex 4 c.val else [c]

/-! ## Settings and log -/

/-- Where the program finds itself. -/
structure Setting where
  /-- The directory for temporary files. -/
  temporary : Path
  /-- The environment. -/
  environment : Config.Environment
  /-- What stands for the time of a record. -/
  time : Text

/-- The name of the program's logger. -/
def loggerName : Text := "docnav"

/-- The version of the program. -/
def versionText : Text := "docnav, version 0.1.0\n"

/-- The options as configuration data. -/
def Options.data (o : Options) : Config.Mapping :=
  [(.text "verbose", .scalar (.int o.verbose)),
    (.text "log_file", match o.logFile with
      | some p => .text p.text
      | none => .scalar .null)]

/-- The ending of a command that needs the settings. -/
def withSettings (s : Setting) (config : Option Path) (options : Config.Mapping)
    (work : Settings → StateM World Ending) : StateM World Ending := do
  match ← (Config.load s.temporary s.environment config options).run with
  | .ok (.valid settings) => work settings
  | .ok (.invalid ps) => pure (.failed 3 (("Configuration error: " : Text) ++ Config.summary ps))
  | .error e =>
    pure (if e.isMissingFile || e.isValue || e = .malformedConfiguration then
      .failed 3 (("Configuration error: " : Text) ++ e.message) else .ofFailure e)

/-- The ending of a command that works with a log. The log is closed however it ends. -/
def withLog (s : Setting) (settings : Settings) (work : StateM World Ending) :
    StateM World Ending := do
  match ← (Log.openJournal settings.log false loggerName s.time).run with
  | .error e => pure (.ofFailure e)
  | .ok journal =>
    modify fun w => { w with records := [], journal := some journal }
    let ending ← work
    let shown : Text := match (← get).journal with
      | some j => j.shown
      | none => []
    modify fun w => { w with journal := none }
    pure { ending with errors := shown ++ ending.errors }

/-- The ending of a command that works with settings and a log. -/
def withBoth (s : Setting) (o : Options) (further : Config.Mapping)
    (work : Settings → StateM World Ending) : StateM World Ending :=
  withSettings s o.config (o.data ++ further) fun settings => withLog s settings (work settings)

/-- The ending that an action brings about. A failure that concerns the documentation is told the
user. -/
def tellFailure {α : Type} (a : Action α) (finish : α → Ending) : StateM World Ending := do
  match ← a.run with
  | .ok v => pure (finish v)
  | .error e =>
    pure (if e.isDocumentation then .failed 1 (("Error: " : Text) ++ e.message) else .ofFailure e)

/-! ## Commands -/

/-- The text of an input: UTF-8 with the replacement character for what is none, and every line
break as a line feed. -/
def inputText (input : Bytes) : Text := (Utf8.decodeLossy input).unifyBreaks

/-- Requests are served until the input ends or the user has enough. -/
def serve (settings : Settings) (input : Bytes) : StateM World Ending := do
  let (answers, failure) ← Server.serve (Registry.ofSettings settings) (inputText input)
  let lines := answers.map fun line => line ++ ("\n" : Text)
  match failure with
  | none => pure (.done lines)
  | some .interrupted => do
    let _ ← (Action.report ⟨.info, "server.interrupted", [], none⟩).run
    pure (.done lines)
  | some e => pure { Ending.ofFailure e with printed := lines }

/-- The index of a language is resolved and printed or counted. -/
def indices (settings : Settings) (language : Text) (asJson : Bool) : StateM World Ending :=
  let resolver := Resolver.create settings.docs
  tellFailure (resolver.resolve language) fun index =>
    .done (if asJson then [index.render ++ "\n"]
      else [language ++ ": " ++ Text.ofNat index.entries.length ++ " entries\n",
        ("  cache: " : Text) ++ (resolver.cache.recordPath language).text ++ "\n"])

/-- The JSON of a tree, and the directories that were left empty. A tree whose JSON is nested deeper
than `budget` cannot be printed. -/
def treeEnding (budget : Nat) (tree : DirTree) (skipped : List Skipped) : Ending :=
  let v := tree.toJson
  match v.fault? budget with
  | some _ => .ofFailure .tooDeep
  | none =>
    { code := 0, printed := [v.pretty true 0 ++ "\n"],
      errors := skipped.flatMap fun s =>
        ("skipped " : Text) ++ s.path ++ ": " ++ s.message ++ "\n" }

/-- The tree of a directory is printed. -/
def tree (settings : Settings) (path : Path) : StateM World Ending := do
  let budget := (← get).host.stack.prints
  tellFailure (settings.tree.build path.text) fun (tree, skipped) => treeEnding budget tree skipped

/-- How deep the values of a printed outcome may be nested. -/
def outcomeLimit : Nat := 254

mutual

/-- All texts of a value are free of surrogates. -/
def isWritable : Json.Value → Bool
  | .string t => decide t.IsScalar
  | .list items | .unordered items => areWritable items
  | .object members => areWritableMembers members
  | _ => true

/-- All texts of the values are free of surrogates. -/
def areWritable : List Json.Value → Bool
  | [] => true
  | v :: rest => isWritable v && areWritable rest

/-- All names and texts of the members are free of surrogates. -/
def areWritableMembers : List (Text × Json.Value) → Bool
  | [] => true
  | (name, v) :: rest => decide name.IsScalar && isWritable v && areWritableMembers rest

end

/-- The outcome of a call, printed. -/
def outcomeEnding (outcome : Outcome) : Ending :=
  let v := outcome.toJson
  if (v.fault? (outcomeLimit + 1)).isSome || !isWritable v then .ofFailure .unprintable
  else
    let code := match outcome with
      | .completed _ => 0
      | .failed _ _ => 1
    { code := code, printed := [v.pretty false 0 ++ "\n"] }

/-- A command of the host is called and its outcome printed. -/
def call (settings : Settings) (name : Text) (args : List Text) : StateM World Ending := do
  match ← ((Registry.ofSettings settings).dispatch name args).run with
  | .ok outcome => pure (outcomeEnding outcome)
  | .error e@(.unknownCommand _ _) => pure (.failed 1 (("Error: " : Text) ++ e.message))
  | .error e => pure (.ofFailure e)

/-- The width to which a language tag is filled up. -/
def tagWidth : Nat := 8

/-- The sources are listed. -/
def languages (settings : Settings) : Ending :=
  let line (entry : Text × Text) : Text :=
    ("  " : Text) ++ entry.1.padEnd tagWidth ++ " " ++ entry.2 ++ "\n"
  .done (("Documentation sources:\n\n" : Text) :: settings.docs.sources.urls.map line)

/-- The path of a record is printed, and whether there is one. -/
def cachePath (settings : Settings) (language : Text) : StateM World Ending := do
  let cache : Cache := ⟨settings.docs.cacheDir⟩
  match ← (cache.exists? language).run with
  | .ok present =>
    pure (.done [(cache.recordPath language).text ++
      (if present then (" (present)\n" : Text) else " (absent)\n")])
  | .error e => pure (.ofFailure e)

/-- Records are deleted: those of the languages, or of all languages with a source if none is
named. -/
def cacheClear (settings : Settings) (languages : List Text) : StateM World Ending := do
  let cache : Cache := ⟨settings.docs.cacheDir⟩
  let targets := if languages.isEmpty then settings.docs.urls.keys else languages
  match ← (cache.clear targets).run with
  | .ok n => pure (.done [("Deleted " : Text) ++ Text.ofNat n ++ " cached index(es)\n"])
  | .error e => pure (.ofFailure e)

/-- What is printed about a valid configuration. -/
def validLines (settings : Settings) : List Text :=
  let tags := Text.join ", " settings.docs.urls.keys
  let file : Text := match settings.log.file with
    | some p => p.text
    | none => "(none)"
  [("Valid configuration\n" : Text),
    ("  Cache dir: " : Text) ++ settings.docs.cacheDir.text ++ "\n",
    ("  Languages: " : Text) ++ (if tags.isEmpty then ("(none)" : Text) else tags) ++ "\n",
    ("  Log file: " : Text) ++ file ++ "\n"]

/-- A configuration is validated. -/
def validateConfig (s : Setting) (config : Path) : StateM World Ending := do
  match ← (Config.load s.temporary s.environment (some config) []).run with
  | .ok (.valid settings) => pure (.done (validLines settings))
  | .ok (.invalid ps) => pure (.failed 1 (("Invalid configuration: " : Text) ++ Config.summary ps))
  | .error e =>
    pure (if e.isMissingFile then .failed 3 (("Error: " : Text) ++ e.message)
      else if e.isValue || e = .malformedConfiguration then
        .failed 1 (("Invalid configuration: " : Text) ++ e.message)
      else .ofFailure e)

/-- What is printed about the program. -/
def helpText : Text :=
  ("Usage: docnav COMMAND [OPTIONS] [ARGS]...\n\nCommands: " : Text) ++
    Text.join ", " (["serve", "indices LANGUAGE", "tree PATH", "call COMMAND [ARGS]...",
      "languages", "cache path LANGUAGE", "cache clear [LANGUAGE]...",
      "validate-config"].map Text.ofString) ++ "\n"

/-- The options of a tree as configuration data. -/
def treeData (strict : Bool) (maxDepth : Option Int) : Config.Mapping :=
  [(.text "strict", .scalar (.bool strict)),
    (.text "max_depth", match maxDepth with
      | some n => .scalar (.int n)
      | none => .scalar .null)]

/-- What was asked for is done. -/
def perform (s : Setting) (input : Bytes) : Invocation → StateM World Ending
  | .help => pure (.done [helpText])
  | .version => pure (.done [versionText])
  | .serve o => withBoth s o [] fun settings => serve settings input
  | .indices language asJson o => withBoth s o [] fun settings => indices settings language asJson
  | .tree path strict maxDepth o =>
    withBoth s o (treeData strict maxDepth) fun settings => tree settings path
  | .call name args o => withBoth s o [] fun settings => call settings name args
  | .languages config => withSettings s config [] fun settings => pure (languages settings)
  | .cachePath language config => withSettings s config [] fun settings =>
    cachePath settings language
  | .cacheClear languages o => withBoth s o [] fun settings => cacheClear settings languages
  | .validateConfig config => validateConfig s config

/-- A command line is run with an input. -/
def run (s : Setting) (args : List Text) (input : Bytes) : StateM World Ending := do
  let ending ← match ← (read args).run.run with
    | .error e => pure (Ending.ofFailure e)
    | .ok (.error m) => pure (Ending.ofMisuse m)
    | .ok (.ok invocation) => perform s input invocation
  pure { ending.print with errors := escapeSurrogates ending.errors }

end EditorDocs.CommandLine
