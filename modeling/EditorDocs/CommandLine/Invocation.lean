import EditorDocs.CommandLine.Options
import EditorDocs.Text.Digits
import EditorDocs.World.Files
/-!
# What a command line asks for

A command line names a command with its options and arguments. Values are looked at in the order in
which they were given; the first one that will not do is the misuse. A configuration file has to be
there.
-/

namespace EditorDocs.CommandLine

/-- The configuration file, the log file and how much the console shows. -/
structure Options where
  /-- The configuration file. -/
  config : Option Path
  /-- How often it was said that the console shows more. -/
  verbose : Nat
  /-- The log file. -/
  logFile : Option Path

/-- What is to be done. -/
inductive Invocation where
  /-- The help is printed. -/
  | help
  /-- The version is printed. -/
  | version
  /-- Requests are served. -/
  | serve (o : Options)
  /-- The index of a language is resolved. -/
  | indices (language : Text) (asJson : Bool) (o : Options)
  /-- The tree of a directory is printed. -/
  | tree (path : Path) (strict : Bool) (maxDepth : Option Int) (o : Options)
  /-- A command is called. -/
  | call (name : Text) (args : List Text) (o : Options)
  /-- The sources are listed. -/
  | languages (config : Option Path)
  /-- The path of a record is printed. -/
  | cachePath (language : Text) (config : Option Path)
  /-- Records are deleted. -/
  | cacheClear (languages : List Text) (o : Options)
  /-- A configuration is validated. -/
  | validateConfig (config : Path)

/-- An action that reads a command line. -/
abbrev Reading := ExceptT Misuse Action

namespace Reading

/-- The command line makes no sense. -/
def refuse {α : Type} (m : Misuse) : Reading α := throw m

/-- What a scan gives. -/
def ofScan (s : Except Misuse Scan) : Reading Scan := MonadExcept.ofExcept s

end Reading

/-! ## Values -/

/-- There is something at a path. A path that no file can have is a failure. -/
def isPresent (t : Text) : Action Bool :=
  match Files.refusal? t with
  | some f => throw f
  | none => do pure ((← get).files.lookup t).isOk

/-- The value of a switch will do. -/
def checkValue (s : Switch) (value : Text) : Reading Unit :=
  match s with
  | .config => do
    if !(← isPresent value) then Reading.refuse (.invalidValue s value)
  | .logFile => do
    let _ ← isPresent value
  | .maxDepth =>
    match value.toAnyInt? with
    | some n => if n < 0 then Reading.refuse (.invalidValue s value) else pure ()
    | none => Reading.refuse (.invalidValue s value)
  | _ => pure ()

/-- The values of all switches will do. -/
def checkValues : Table Switch Text → Reading Unit
  | [] => pure ()
  | (s, value) :: rest => do
    checkValue s value
    checkValues rest

/-- The path that is the value of a switch. -/
def Scan.path? (s : Scan) (switch : Switch) : Option Path := (s.value? switch).map Path.ofText

/-- The options that most commands have. -/
def Scan.options (s : Scan) : Options := ⟨s.path? .config, s.count .verbose, s.path? .logFile⟩

/-! ## Arguments -/

/-- The first argument, which has a name, and the others. -/
def firstArgument (name : Text) : List Text → Reading (Text × List Text)
  | [] => Reading.refuse (.missingArgument name)
  | arg :: rest => pure (arg, rest)

/-- There are no further arguments. -/
def noFurther : List Text → Reading Unit
  | [] => pure ()
  | arg :: _ => Reading.refuse (.extraArguments arg)

/-! ## Commands -/

/-- The switches of a command that works with a configuration and a log. -/
def loggedSwitches : List Switch := [.help, .config, .verbose, .logFile]

/-- What a command line asks for behind the name of a command: `finish` reads the arguments and
makes the invocation, once the values of the switches will do. -/
def readCommand (allowed : List Switch) (finish : Scan → Reading Invocation) (args : List Text) :
    Reading Invocation := do
  let s ← Reading.ofScan (scan allowed true args)
  if s.has .help then pure .help
  else
    checkValues s.settings
    finish s

/-- What a command line asks for behind the command that serves. -/
def readServe : List Text → Reading Invocation :=
  readCommand loggedSwitches fun s => do
    noFurther s.arguments
    pure (.serve s.options)

/-- What a command line asks for behind the command that resolves an index. -/
def readIndices : List Text → Reading Invocation :=
  readCommand (.json :: loggedSwitches) fun s => do
    let (language, further) ← firstArgument "LANGUAGE" s.arguments
    noFurther further
    pure (.indices language (s.has .json) s.options)

/-- What a command line asks for behind the command that prints a tree. -/
def readTree : List Text → Reading Invocation :=
  readCommand (.strict :: .maxDepth :: loggedSwitches) fun s => do
    let (path, further) ← firstArgument "PATH" s.arguments
    let _ ← isPresent path
    noFurther further
    pure (.tree (Path.ofText path) (s.has .strict) ((s.value? .maxDepth).bind Text.toAnyInt?)
      s.options)

/-- What a command line asks for behind the command that calls one of the host's commands. -/
def readCall : List Text → Reading Invocation :=
  readCommand loggedSwitches fun s => do
    let (name, args) ← firstArgument "COMMAND" s.arguments
    pure (.call name args s.options)

/-- What a command line asks for behind the command that lists the sources. -/
def readLanguages : List Text → Reading Invocation :=
  readCommand [.help, .config] fun s => do
    noFurther s.arguments
    pure (.languages (s.path? .config))

/-- What a command line asks for behind the command that prints the path of a record. -/
def readCachePath : List Text → Reading Invocation :=
  readCommand [.help, .config] fun s => do
    let (language, further) ← firstArgument "LANGUAGE" s.arguments
    noFurther further
    pure (.cachePath language (s.path? .config))

/-- What a command line asks for behind the command that deletes records. -/
def readCacheClear : List Text → Reading Invocation :=
  readCommand loggedSwitches fun s => pure (.cacheClear s.arguments s.options)

/-- What a command line asks for behind the command that validates a configuration. -/
def readValidateConfig : List Text → Reading Invocation :=
  readCommand [.help, .config] fun s => do
    match s.path? .config with
    | none => Reading.refuse (.missingOption .config)
    | some path =>
      noFurther s.arguments
      pure (.validateConfig path)

/-- The commands of a group, by name. -/
abbrev Group := Table Text (List Text → Reading Invocation)

/-- What a command line asks for that names a command of a group. The first of the switches that
give something out is what is asked for. -/
def readGroup (allowed : List Switch) (commands : Group) (args : List Text) :
    Reading Invocation := do
  if args.isEmpty then Reading.refuse .missingCommand
  let s ← Reading.ofScan (scan allowed false args)
  match s.given with
  | (.version, _) :: _ => pure .version
  | _ :: _ => pure .help
  | [] =>
    match s.arguments with
    | [] => Reading.refuse .missingCommand
    | name :: rest =>
      match commands.get? name with
      | some read => read rest
      | none => Reading.refuse (.unknownCommand name)

/-- The commands that concern records. -/
def cacheCommands : Group := [("path", readCachePath), ("clear", readCacheClear)]

/-- The commands of the program. -/
def commands : Group :=
  [("serve", readServe), ("indices", readIndices), ("tree", readTree), ("call", readCall),
    ("languages", readLanguages), ("cache", readGroup [.help] cacheCommands),
    ("validate-config", readValidateConfig)]

/-- What a command line asks for. -/
def read (args : List Text) : Reading Invocation := readGroup [.help, .version] commands args

end EditorDocs.CommandLine
