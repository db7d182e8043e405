import EditorDocs.Log.Pipeline
import EditorDocs.World.Files
/-!
# The log of a program

The file of a log is opened when the program starts, with the directories on the way to it. That it
cannot be opened is told on the console, and the program goes on without it.

What loggers are then given are messages: events of components with named values, and texts of other
parts of the program. A message becomes a record, unless it has values of names that are not for
them.
-/

namespace EditorDocs.Log

open Json (Value)

/-! ## Messages -/

/-- The names that no value can be bound to. -/
def unboundNames : List Text := ["self"]

/-- The names that no value can be given with an event. -/
def ungivenNames : List Text := ["self", "event", "method_name"]

/-- The record of a logger that is given values with an event, besides those that are bound to the
logger. -/
def Emission.ofValues (logger : Text) (severity : Severity) (event : Text) (bound given : Context) :
    Except Failure Emission :=
  if bound.any (fun m => unboundNames.contains m.1) || given.any (fun m => ungivenNames.contains m.1)
  then .error .reservedName
  else
    let context := bound.bind given
    match context.get? ("_record" : Text) with
    | none | some .null => .ok ⟨logger, ⟨severity, event, context, none⟩, false⟩
    | some _ => .error .falseRecord

/-- What a logger is given to record. -/
inductive Message where
  /-- A component gives an event, with the values that are bound to the logger and those that come
  with the event. -/
  | native (logger : Text) (severity : Severity) (event : Text) (bound given : Context)
  /-- Another part of the program gives a text. -/
  | foreign (logger : Text) (severity : Severity) (text : Text)

/-- The record that is made of a message, unless it has values of names that are not for them. -/
def Message.emission : Message → Except Failure Emission
  | .native logger severity event bound given =>
    Emission.ofValues logger severity event bound given
  | .foreign logger severity text => .ok ⟨logger, ⟨severity, text, [], none⟩, true⟩

/-! ## Opening -/

/-- The log file at a path is opened; what it holds is kept, and the directories on the way to it
are made. -/
def openFile (path : Path) : Action FileSystem.Location := do
  Files.makePath path.parent
  Files.openForWriting false ((← get).workingDirectory.append path).collapse.text

/-- What the console shows if the log file cannot be opened. -/
def warning (path : Path) (e : Failure) : Text :=
  ("Warning: cannot open log file " : Text) ++ path.text ++ ": " ++ e.message ++ "\n"

/-- The log that settings describe is opened, for a logger and with what stands for the time of a
record. If its file cannot be opened there is none. -/
def openJournal (s : LogSettings) (quiet : Bool) (logger time : Text) : Action Journal := do
  let console := if quiet then none else some (consoleThreshold s.verbose)
  let rendering := (← get).host.rendering
  match s.file with
  | none => pure ⟨logger, ⟨none, console⟩, rendering, none, time, []⟩
  | some path =>
    tryCatch (do
        let loc ← openFile path
        pure ⟨logger, ⟨some s.level, console⟩, rendering, some loc, time, []⟩) fun
      | e@(.system _) => pure ⟨logger, ⟨none, console⟩, rendering, none, time, warning path e⟩
      | e => throw e

end EditorDocs.Log
