import EditorDocs.Json.Value
/-!
# Log records

What the components report: an event with a severity and named values. A component binds its own
name to everything that it reports, and a value that comes with the event takes the place of a
bound one of the same name.
-/

namespace EditorDocs

/-- How grave an event is. -/
inductive Severity where
  /-- A step of the work. -/
  | debug
  /-- Something happened. -/
  | info
  /-- Something went wrong and was survived. -/
  | warning
  /-- Something failed. -/
  | error
  /-- The program cannot go on. -/
  | critical
  /-- There is a rank for it and no name: records of other parts of the program may have one. -/
  | numbered (rank : Int) (h : rank ∉ [10, 20, 30, 40, 50])
  deriving DecidableEq, Repr

namespace Severity

/-- The name of a severity. -/
def name : Severity → Text
  | .debug => "debug"
  | .info => "info"
  | .warning => "warning"
  | .error => "error"
  | .critical => "critical"
  | .numbered rank _ => ("level " : Text) ++ Text.ofInt rank

/-- The rank of a severity among all. -/
def rank : Severity → Int
  | .debug => 10
  | .info => 20
  | .warning => 30
  | .error => 40
  | .critical => 50
  | .numbered rank _ => rank

end Severity

/-- The named values of an event. -/
abbrev Context := Table Text Json.Value

/-- An event that a component reports. -/
structure Record where
  /-- How grave the event is. -/
  severity : Severity
  /-- What happened. -/
  event : Text
  /-- The named values. -/
  context : Context
  /-- The failure that the record shows in full, if there is one. -/
  trace : Option Text := none

/-- No named value holds others. -/
def Context.isFlat (c : Context) : Bool := c.all fun m => m.2.isFlat

/-- The named values of an event together with those that are bound. -/
def Context.bind (bound more : Context) : Context :=
  more.foldl (fun c (name, v) => c.put name v) bound

end EditorDocs
