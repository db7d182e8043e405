import EditorDocs.Command.Registry
import EditorDocs.Json.Line
import EditorDocs.Text.Lines
/-!
# The server

A host sends requests, one to a line, and gets one line back for each in the order of the requests.
A request is a JSON object that names a command and its arguments; what it holds as its id comes
back with the answer. A line that is no request is answered, too, and a blank line is passed over.

Two lines end the service: one that holds an integer with too many digits, and one that is nested
too deeply for the stack that is left. So does a response that cannot be written, if the failure to
write it cannot be logged.
-/

namespace EditorDocs.Server

open Json (Value)

/-- What the server reports. -/
def report (severity : Severity) (event : Text) (context : Context) (trace : Option Text) :
    Action Unit :=
  Action.report ⟨severity, event,
    Context.bind [("component", .string "stdio_server")] context, trace⟩

/-! ## Requests and responses -/

/-- A call that a host asks for. -/
structure Request where
  /-- What comes back with the response. -/
  id : Value
  /-- The name of the command. -/
  method : Text
  /-- The arguments. -/
  args : List Text

/-- The response to a request that cannot be carried out. -/
def errorResponse (id : Value) (kind message : Text) : Value :=
  .object [("id", id), ("ok", .bool false),
    ("error", .object [("type", .string kind), ("message", .string message)])]

/-- The response to a request that was carried out. -/
def okResponse (id result : Value) : Value :=
  .object [("id", id), ("ok", .bool true), ("result", result)]

/-- The member of an object under a name, or null. -/
def memberOrNull (name : Text) (v : Value) : Value := (v.member? name).getD .null

/-- The arguments that a request holds, none if it does not mention them. -/
def argsOf (payload : Value) : Option (List Text) :=
  match payload.member? "args" with
  | none => some []
  | some (.list items) => items.mapM Value.text?
  | some _ => none

/-- The request that a payload is, or the response if it is none. -/
def requestOf (payload : Value) : Except Value Request :=
  match payload with
  | .object _ =>
    let id := memberOrNull "id" payload
    match memberOrNull "method" payload with
    | .string (c :: method) =>
      match argsOf payload with
      | some args => .ok ⟨id, c :: method, args⟩
      | none => .error (errorResponse id "INVALID_REQUEST" "args must be a list of strings.")
    | _ => .error (errorResponse id "INVALID_REQUEST" "method must be a non-empty string.")
  | _ => .error (errorResponse .null "INVALID_REQUEST" "Request must be a JSON object.")

/-- The response that the outcome of a call is. A failure without a kind is one of a command. -/
def responseOf (id : Value) : Outcome → Value
  | .completed v => okResponse id v
  | .failed kind message =>
    errorResponse id (if kind.isEmpty then ("CommandError" : Text) else kind) message

/-- The trace of a failure, which ends with its kind and wording. -/
def traceOf (e : Failure) : Text :=
  ("Traceback (most recent call last):\n" : Text) ++ e.kind ++ ": " ++ e.message

/-- The response to a request whose call ended in a failure. Only the user ends the service. -/
def failureResponse (request : Request) : Failure → Action Value
  | .interrupted => throw .interrupted
  | e@(.unknownCommand _ _) => pure (errorResponse request.id "UNKNOWN_COMMAND" e.message)
  | e => do
    report .error "server.internal_error"
      [("method", .string request.method), ("error", .string e.message),
        ("error_type", .string e.kind)] (some (traceOf e))
    pure (errorResponse request.id "INTERNAL_ERROR"
      (("Unhandled error while executing " : Text) ++ request.method ++ ": " ++ e.message))

/-- The response to a payload. -/
def handle (r : Registry) (payload : Value) : Action Value :=
  match requestOf payload with
  | .error response => pure response
  | .ok request =>
    tryCatch (do pure (responseOf request.id (← r.dispatch request.method request.args)))
      (failureResponse request)

/-! ## Lines -/

/-- The line that holds a response, if its containers are nested at most `budget` deep. If the
response cannot be written the line says so; if the id cannot be written either, or not be logged,
there is no line. -/
def encode (budget : Nat) (response : Value) : Action Text :=
  match response.fault? budget with
  | none => pure (response.render .line)
  | some fault => do
    let id := memberOrNull "id" response
    let kind := fault.failure.kind
    report .error "server.encode_failed"
      [("request_id", id), ("error", .string fault.failure.message),
        ("error_type", .string kind)] none
    let fallback := errorResponse id "INTERNAL_ERROR"
      (("Response could not be encoded: " : Text) ++ kind)
    match fallback.fault? budget with
    | none => pure (fallback.render .line)
    | some fault => throw fault.failure

/-- The response to a line without blanks at its ends. -/
def handleLine (r : Registry) (budget : Nat) (line : Text) : Action Value :=
  match Json.readLine budget line with
  | .ok payload => handle r payload
  | .error .malformed => do
    report .warning "server.invalid_json" [("length", .int line.length)] none
    pure (errorResponse .null "INVALID_JSON" "Request must be valid JSON.")
  | .error (.longInteger digits) => throw (.longInteger digits)
  | .error .tooDeep => throw .tooDeep

/-- The line that answers a line; a blank line is not answered. -/
def respond (r : Registry) (budget : Nat) (line : Text) : Action (Option Text) :=
  match Text.strip line with
  | [] => pure none
  | line => do pure (some (← encode budget (← handleLine r budget line)))

/-- The lines that answer lines, as far as the service gets, and the failure that ends it. -/
def serveLines (r : Registry) (budget : Nat) :
    List Text → StateM World (List Text × Option Failure)
  | [] => pure ([], none)
  | line :: rest => do
    match ← (respond r budget line).run with
    | .error e => pure ([], some e)
    | .ok none => serveLines r budget rest
    | .ok (some answer) =>
      let (answers, failure) ← serveLines r budget rest
      pure (answer :: answers, failure)

/-- The lines that answer the lines of a text, and the failure that ends the service early. -/
def serve (r : Registry) (input : Text) : StateM World (List Text × Option Failure) := do
  let budget := (← get).host.stack.lines
  let _ ← (report .info "server.started" [("commands", .int r.count)] none).run
  let (answers, failure) ← serveLines r budget input.lines
  if failure.isNone then
    let _ ← (report .info "server.stopped" [] none).run
  pure (answers, failure)

end EditorDocs.Server
