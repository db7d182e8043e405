import EditorDocs.Config.Settings
import EditorDocs.Failure
import EditorDocs.Json.Writer
import EditorDocs.Log.Console
/-!
# Where records go

A record goes to a file, as a line of JSON, and to the console. Each has a least severity of its
own. The console shows nothing if it is to be quiet; but a warning or failure is not lost when there
is no file either.

Records that were not made by the components of the library are foreign: they are a severity and a
text. The console shows them like others if there is a file, and as their text alone if not.

What a record says by itself comes before what its named values say: values that are named like
those facts are lost. A few names are no values at all but tell how to log, or belong to the log.

Not every value can be rendered. Without a file a record that has one is refused; with a file the
console shows a complaint in its place, and only the want of stack comes back to where the record
was made.
-/

namespace EditorDocs.Log

open Json (Value)

/-! ## Thresholds -/

/-- The least severity of a level. -/
def threshold : Level → Severity
  | .debug => .debug
  | .info => .info
  | .warn => .warning
  | .error => .error

/-- The least severity that the console shows: warnings at first, and more if more is asked for. -/
def consoleThreshold (verbose : Int) : Severity :=
  if verbose = 0 then .warning else if verbose = 1 then .info else .debug

/-- The severity is no less than another one. -/
def reaches (least s : Severity) : Bool := least.rank ≤ s.rank

/-! ## Emissions -/

/-- The logger that has no name of its own. -/
def rootName : Text := "root"

/-- A record on its way, with the name of its logger. -/
structure Emission where
  /-- The name of the logger. -/
  logger : Text
  /-- What is recorded. -/
  record : Record
  /-- The record was not made by a component of the library. -/
  foreign : Bool := false

/-- The names of values that tell how to log the record. -/
def directiveNames : List Text := ["stack_info", "exc_info"]

/-- The names of values that a pipeline with a file takes for its own. -/
def ownNames : List Text := ["_record", "_from_structlog"]

namespace Emission

/-- The name under which the logger is shown. -/
def loggerName (e : Emission) : Text := if e.logger.isEmpty then rootName else e.logger

/-- What is said about the record: its named values, what happened, how grave it is, who says so and
when, and the trace if there is one. -/
def fields (e : Emission) (time : Text) : Context :=
  let given : Context := e.record.context.filter fun m => !directiveNames.contains m.1
  let traced : Context := match e.record.trace with
    | some t => [("exception", .string t)]
    | none => []
  let facts : Context := [("event", .string e.record.event),
    ("level", .string e.record.severity.name), ("logger", .string e.loggerName),
    ("timestamp", .string time)]
  (given.bind facts).bind traced

end Emission

/-! ## Rendering -/

/-- How the values of records are rendered. How deep containers may be nested depends on the stack
that is left where the rendering happens. -/
structure Rendering where
  /-- The depth on the way to a console without a file, where a record is rendered as it is made. -/
  ready : Nat
  /-- The depth in a line of the file, whose own braces count. -/
  filed : Nat
  /-- The depth on the console beside a file. -/
  shown : Nat
  /-- What the console shows instead of a record whose rendering failed. -/
  complaint : Emission → Failure → Text
  /-- The braces of a line have room. -/
  room : 0 < filed
  /-- Something is shown of each failure. -/
  complains : ∀ e f, complaint e f ≠ []

/-- What a stack of the usual size leaves, and the complaint of a log that says no more about a failure
than its kind and wording. -/
def Rendering.usual : Rendering where
  ready := 974
  filed := 966
  shown := 968
  complaint := fun _ f => ("--- Logging error ---\nTraceback (most recent call last):\n" : Text) ++
    f.kind ++ ": " ++ f.message ++ "\n"
  room := by decide
  complains := fun _ _ => List.append_ne_nil_of_right_ne_nil _ (by decide)

/-- The failure to render a value with containers nested at most `budget` deep. A collection without
order is rendered, too. -/
def valueFault? (budget : Nat) (v : Value) : Option Failure :=
  match v.fault? budget with
  | none | some .noForm => none
  | some f => some f.failure

/-- The failure to render fields as a line of JSON. -/
def lineFault? (budget : Nat) (fields : Context) : Option Failure :=
  valueFault? budget (.object fields)

/-- The values of fields in the order in which the console renders them. -/
def consoleValues (fields : Context) : List Value :=
  leadingColumns.filterMap (fun c => fields.get? c.1) ++
    (sortByName (fields.filter isOrdinary)).map Prod.snd

/-- The failure to render fields for the console. A stack and an exception have to be texts. -/
def consoleFault? (budget : Nat) (fields : Context) : Option Failure :=
  match (consoleValues fields).findSome? (valueFault? budget) with
  | some f => some f
  | none => if blockNames.all (isBlock fields) then none else some .shapelessBlock

/-! ## Pipelines -/

/-- Where records go. -/
structure Pipeline where
  /-- The level of the file, if there is one. -/
  file : Option Level
  /-- The least severity that the console shows, unless it is quiet. -/
  console : Option Severity
  deriving DecidableEq

/-- What becomes of a record. -/
structure Fate where
  /-- What the file gets. -/
  filed : Text := []
  /-- What the console shows. -/
  shown : Text := []
  /-- The failure that comes back to where the record was made, if there is one. -/
  failure : Option Failure := none
  deriving DecidableEq

namespace Pipeline

/-- The record goes to the file. -/
def isFiled (p : Pipeline) (e : Emission) : Bool :=
  match p.file with
  | some level => reaches (threshold level) e.record.severity
  | none => false

/-- The record is shown on the console. -/
def isShown (p : Pipeline) (e : Emission) : Bool :=
  match p.console with
  | some least => reaches least e.record.severity
  | none => p.file.isNone && reaches .warning e.record.severity

/-- The fields of a record that come out of the pipeline. -/
def fields (p : Pipeline) (time : Text) (e : Emission) : Context :=
  let all := e.fields time
  if p.file.isSome then all.filter fun m => !ownNames.contains m.1 else all

/-- The text, if something is to have it. -/
def textIf (reached : Bool) (t : Text) : Text := if reached then t ++ "\n" else []

/-- What becomes of a record without a file. One of the library is rendered whatever its severity,
and what goes wrong then comes back; a foreign one is shown as its text alone. -/
def fateAlone (p : Pipeline) (r : Rendering) (time : Text) (e : Emission) : Fate :=
  if e.foreign then { shown := textIf (p.isShown e) e.record.event }
  else match consoleFault? r.ready (p.fields time e) with
    | some f => { failure := some f }
    | none => { shown := textIf (p.isShown e) (fieldsText (p.fields time e)) }

/-- What the console makes of a record beside a file. That the stack does not suffice comes back;
any other failure is shown. -/
def fateShown (p : Pipeline) (r : Rendering) (time : Text) (e : Emission) : Fate :=
  if p.isShown e then
    match consoleFault? r.shown (p.fields time e) with
    | some .tooDeep => { failure := some .tooDeep }
    | some f => { shown := r.complaint e f }
    | none => { shown := fieldsText (p.fields time e) ++ "\n" }
  else {}

/-- What the file makes of a record, in the same way. -/
def fateFiled (p : Pipeline) (r : Rendering) (time : Text) (e : Emission) : Fate :=
  if p.isFiled e then
    match lineFault? r.filed (p.fields time e) with
    | some .tooDeep => { failure := some .tooDeep }
    | some f => { shown := r.complaint e f }
    | none => { filed := (Value.object (p.fields time e)).render .line ++ "\n" }
  else {}

/-- What becomes of a record, with what stands for its time. The file comes before the console, which
gets nothing if a failure comes back from there. -/
def fate (p : Pipeline) (r : Rendering) (time : Text) (e : Emission) : Fate :=
  if p.file.isNone then p.fateAlone r time e
  else
    let first := p.fateFiled r time e
    if first.failure.isSome then first
    else
      let second := p.fateShown r time e
      ⟨first.filed, first.shown ++ second.shown, second.failure⟩

end Pipeline

end EditorDocs.Log
