import EditorDocs.Table
import EditorDocs.Text.Basic
/-!
# Options of a command line

A command line is a list of texts. A text that begins with a dash and goes on is an option or
several: a long option has two dashes and may have its value behind an equals sign, short options
share one dash and the last of them may have its value behind it. An option that takes a value and
has none takes the next text, whatever it is. Two dashes alone end the options.

What is not an option is an argument. Where a command has commands of its own, the options end at
the first argument.
-/

namespace EditorDocs.CommandLine

/-! ## Switches -/

/-- What an option sets. -/
inductive Switch where
  /-- The help is asked for. -/
  | help
  /-- The version is asked for. -/
  | version
  /-- The configuration file. -/
  | config
  /-- The console shows more. -/
  | verbose
  /-- The log file. -/
  | logFile
  /-- The whole index is printed as JSON. -/
  | json
  /-- A directory that cannot be listed is a failure. -/
  | strict
  /-- The deepest level of a tree. -/
  | maxDepth
  deriving DecidableEq, Repr

namespace Switch

/-- The long spelling of a switch. -/
def long : Switch → Text
  | .help => "--help"
  | .version => "--version"
  | .config => "--config"
  | .verbose => "--verbose"
  | .logFile => "--log-file"
  | .json => "--json"
  | .strict => "--strict"
  | .maxDepth => "--max-depth"

/-- The letter of a switch that has one. -/
def letter? : Switch → Option CodePoint
  | .config => some 'c'
  | .verbose => some 'v'
  | _ => none

/-- The switch takes a value. -/
def takesValue : Switch → Bool
  | .config | .logFile | .maxDepth => true
  | _ => false

end Switch

/-! ## Misuse -/

/-- Why a command line makes no sense. -/
inductive Misuse where
  /-- There is no option of this spelling. -/
  | unknownOption (spelling : Text)
  /-- The option takes a value, and there is none. -/
  | missingValue (s : Switch)
  /-- The option takes no value, and there is one. -/
  | unexpectedValue (s : Switch)
  /-- The value is none that the option takes. -/
  | invalidValue (s : Switch) (value : Text)
  /-- The option has to be given. -/
  | missingOption (s : Switch)
  /-- A command has to be named. -/
  | missingCommand
  /-- There is no command of this name. -/
  | unknownCommand (name : Text)
  /-- An argument has to be given. -/
  | missingArgument (name : Text)
  /-- There are arguments too many. -/
  | extraArguments (first : Text)
  deriving DecidableEq

/-- The wording of a misuse. -/
def Misuse.message : Misuse → Text
  | .unknownOption spelling => ("No such option: " : Text) ++ spelling
  | .missingValue s => ("Option '" : Text) ++ s.long ++ "' requires an argument."
  | .unexpectedValue s => ("Option '" : Text) ++ s.long ++ "' does not take a value."
  | .invalidValue s value => ("Invalid value for '" : Text) ++ s.long ++ "': " ++ value
  | .missingOption s => ("Missing option '" : Text) ++ s.long ++ "'."
  | .missingCommand => "Missing command."
  | .unknownCommand name => ("No such command '" : Text) ++ name ++ "'."
  | .missingArgument name => ("Missing argument '" : Text) ++ name ++ "'."
  | .extraArguments first => ("Got unexpected extra argument (" : Text) ++ first ++ ")"

/-! ## Scanning -/

/-- What one text of a command line gives: switches with their values, and the switch whose value is
the next text. -/
structure Piece where
  /-- The switches with their values, which are empty if they take none. -/
  given : List (Switch × Text)
  /-- The switch that waits for its value. -/
  waiting : Option Switch

/-- The short options behind a dash. -/
def readLetters (allowed : List Switch) : Text → Except Misuse Piece
  | [] => .ok ⟨[], none⟩
  | c :: rest =>
    match allowed.find? fun s => s.letter? = some c with
    | none => .error (.unknownOption [CodePoint.ofNat 0x2D, c])
    | some s =>
      if s.takesValue then
        if rest.isEmpty then .ok ⟨[], some s⟩ else .ok ⟨[(s, rest)], none⟩
      else (readLetters allowed rest).map fun p => ⟨(s, []) :: p.given, p.waiting⟩

/-- The options that a text is. -/
def readOption (allowed : List Switch) (arg : Text) : Except Misuse Piece :=
  let (spelling, value) : Text × Option Text := match arg.cut? ('=' : CodePoint) with
    | some (before, after) => (before, some after)
    | none => (arg, none)
  match allowed.find? fun s => s.long = spelling with
  | some s =>
    match s.takesValue, value with
    | true, some v => .ok ⟨[(s, v)], none⟩
    | true, none => .ok ⟨[], some s⟩
    | false, some _ => .error (.unexpectedValue s)
    | false, none => .ok ⟨[(s, [])], none⟩
  | none =>
    if arg.startsWith "--" then .error (.unknownOption spelling)
    else readLetters allowed (arg.drop 1)

/-- What a command line gives. -/
structure Scan where
  /-- The switches with their values, in order. -/
  given : List (Switch × Text)
  /-- The arguments. -/
  arguments : List Text

/-- The text is an option. -/
def isOption (arg : Text) : Bool := arg.startsWith "-" && 1 < arg.length

/-- The switches and arguments of a command line. Options that are `mixed` may stand behind
arguments. -/
def scan (allowed : List Switch) (mixed : Bool) : List Text → Except Misuse Scan
  | [] => .ok ⟨[], []⟩
  | arg :: rest =>
    if arg = ("--" : Text) then .ok ⟨[], rest⟩
    else if isOption arg then
      match readOption allowed arg with
      | .error m => .error m
      | .ok ⟨given, none⟩ =>
        (scan allowed mixed rest).map fun s => ⟨given ++ s.given, s.arguments⟩
      | .ok ⟨given, some waiting⟩ =>
        match rest with
        | [] => .error (.missingValue waiting)
        | value :: rest =>
          (scan allowed mixed rest).map fun s =>
            ⟨given ++ (waiting, value) :: s.given, s.arguments⟩
    else if mixed then (scan allowed mixed rest).map fun s => ⟨s.given, arg :: s.arguments⟩
    else .ok ⟨[], arg :: rest⟩

namespace Scan

/-- The switch was given. -/
def has (s : Scan) (switch : Switch) : Bool := s.given.any fun g => g.1 = switch

/-- How often the switch was given. -/
def count (s : Scan) (switch : Switch) : Nat := (s.given.filter fun g => g.1 = switch).length

/-- The switches in the order in which they first came, each with its last value. -/
def settings (s : Scan) : Table Switch Text := Table.ofPairs s.given

/-- The last value of a switch. -/
def value? (s : Scan) (switch : Switch) : Option Text := s.settings.get? switch

end Scan

end EditorDocs.CommandLine
