import EditorDocs.World
/-!
# Commands

A command is called by name with a list of texts. It says how many it takes; a call with another
number of them is refused before anything is done. A call has an outcome: the value that the command
returned, or the kind and wording of a failure that is the caller's business. Other failures go
through.
-/

namespace EditorDocs

/-- What the host can call. -/
structure Command where
  /-- The name by which the command is called. -/
  name : Text
  /-- What the command does. -/
  description : Text := []
  /-- What the arguments mean. -/
  usage : Text := []
  /-- The least number of arguments; one below zero asks for nothing. -/
  least : Int := 0
  /-- The greatest number of arguments, if there is one; no call keeps within one below zero. -/
  most : Option Int := none
  /-- The kind of command, as it is shown in a listing. -/
  label : Text
  /-- What the command does with an accepted list of arguments. -/
  execute : List Text → Action Json.Value

/-- The outcome of a call. -/
inductive Outcome where
  /-- The command returned a value. -/
  | completed (value : Json.Value)
  /-- The call failed; the kind of the failure and its wording. -/
  | failed (kind message : Text)

namespace Outcome

/-- The outcome that a failure is. -/
def ofFailure (e : Failure) : Outcome := failed e.kind e.message

/-- The outcome in JSON. -/
def toJson : Outcome → Json.Value
  | completed v =>
    .object [("success", .bool true), ("result", v), ("error", .null), ("error_type", .null)]
  | failed kind message =>
    .object [("success", .bool false), ("result", .null), ("error", .string message),
      ("error_type", .string kind)]

end Outcome

namespace Command

/-- The command takes so many arguments. -/
def accepts (c : Command) (count : Nat) : Bool :=
  decide (c.least ≤ count) && match c.most with
    | some most => decide ((count : Int) ≤ most)
    | none => true

/-- What the command takes, in words. -/
def expected (c : Command) : Text :=
  let bound : Text :=
    if c.most = some c.least then
      Text.ofInt c.least ++ (if c.least = 1 then (" argument" : Text) else " arguments")
    else match c.most with
      | none => ("at least " : Text) ++ Text.ofInt c.least ++ " arguments"
      | some most => Text.ofInt c.least ++ " to " ++ Text.ofInt most ++ " arguments"
  if c.usage.isEmpty then bound else bound ++ " (" ++ c.usage ++ ")"

/-- The command as it is shown in a listing. -/
def shown (c : Command) : Text :=
  ("<" : Text) ++ c.label ++ "(name='" ++ c.name ++ "')>"

/-- What a command reports. -/
def report (name : Text) (severity : Severity) (event : Text) (context : Context) : Action Unit :=
  Action.report ⟨severity, event,
    Context.bind [("component", .string "command"), ("command", .string name)] context, none⟩

/-- The failure is the caller's business. -/
def isAnswer (e : Failure) : Bool :=
  e.isArgumentCount || e.isDocumentation || e.isSystem || e.isUndecodable

/-- A failure that is the caller's business is reported. -/
def reportFailure (name : Text) : Failure → Action Unit
  | .argumentCount _ _ got | .foreign (.argumentCount got) _ _ _ =>
    report name .warning "command.bad_arguments" [("got", .int got)]
  | e => report name .warning "command.failed"
      [("error", .string e.message), ("error_type", .string e.kind)]

/-- The value that the command returns, if it takes the arguments. -/
def evaluate (c : Command) (args : List Text) : Action Json.Value :=
  if c.accepts args.length then c.execute args
  else throw (.argumentCount c.name c.expected args.length)

/-- The outcome of a call. -/
def call (c : Command) (args : List Text) : Action Outcome := do
  let outcome ← tryCatch (do pure (Outcome.completed (← c.evaluate args))) fun e => do
    if isAnswer e then
      reportFailure c.name e
      pure (Outcome.ofFailure e)
    else throw e
  match outcome with
  | .completed _ => report c.name .debug "command.ok" []
  | .failed _ _ => pure ()
  pure outcome

end Command

end EditorDocs
