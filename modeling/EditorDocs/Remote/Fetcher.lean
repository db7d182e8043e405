import EditorDocs.Index.Decode
import EditorDocs.Number.Binary64
import EditorDocs.Source.Basic
import EditorDocs.World
/-!
# Fetching indices and documents

Every fetch is one request, and a request that fails is not made again. A fetcher that was not given
a client makes its own, and closes only that one.
-/

namespace EditorDocs

/-- The status says that a request was carried out. -/
def Status.isSuccess (status : Nat) : Bool := 200 ≤ status && status ≤ 299

/-- What requests are made with. -/
structure Client where
  /-- The name under which requests are made. -/
  agent : Text
  /-- How long a request may take, in seconds. -/
  timeout : Binary64
  /-- Whether redirections are followed. -/
  followsRedirects : Bool
  /-- Whether the client has been closed. -/
  closed : Bool
  deriving DecidableEq

/-- Fetches indices and documents of the languages of a source table. -/
structure Fetcher where
  /-- Where indices and documents are found. -/
  sources : Sources
  /-- What requests are made with. -/
  client : Client
  /-- Whether the client is the fetcher's own. -/
  ownsClient : Bool
  deriving DecidableEq

namespace Fetcher

/-- A fetcher with a client of its own. -/
def create (sources : Sources) (timeout : Binary64) : Fetcher :=
  ⟨sources, ⟨"docnav/0.1", timeout, true, false⟩, true⟩

/-- The fetcher after its work is done: a client of its own is closed. -/
def close (f : Fetcher) : Fetcher :=
  if f.ownsClient then { f with client := { f.client with closed := true } } else f

/-- What the fetcher reports. -/
def report (severity : Severity) (event : Text) (context : Context) : Action Unit :=
  Action.report ⟨severity, event,
    Context.bind [("component", .string "index_fetcher")] context, none⟩

/-- The body that a reply to a request for a URL brings. -/
def body (url : Text) : Reply → Action Bytes
  | .response status phrase content =>
    if Status.isSuccess status then pure content
    else do
      report .warning "http.bad_status" [("url", .string url), ("status", .int status)]
      let reason := ("HTTP status not OK: " : Text) ++ Text.ofNat status ++ " " ++ phrase
      throw (.remote url reason (some status))
  | .broken kind message => do
    report .warning "http.get_failed"
      [("url", .string url), ("error", .string message), ("error_type", .string kind)]
    throw (.remote url (if message.isEmpty then kind else message) none)
  | .refusedUrl message => throw (.invalidUrl message)
  | .cookieConflict message => throw (.cookieConflict message)
  | .interruption => throw .interrupted

/-- The body of the answer to a request for a URL. -/
def get (url : Text) : Action Bytes := do
  report .debug "http.get" [("url", .string url)]
  body url (← Action.request url)

/-- The index of a language. -/
def fetchIndex (f : Fetcher) (language : Text) : Action Index := do
  let url ← Action.ofExcept (f.sources.indexUrl language)
  let index ← Action.ofExcept (Index.receive (← Action.reader) url (← get url))
  report .info "index.fetched" [("url", .string url), ("entries", .int index.entries.length)]
  pure index

/-- The text of a document from a URL. -/
def documentText (url : Text) (content : Bytes) : Except Failure Text :=
  match Utf8.decode content with
  | .ok t => .ok t
  | .error m =>
    .error (.malformed url (("body is not valid UTF-8 (" : Text) ++ m.reason.message ++ ")"))

/-- The document that a path `<language>/<entry>` names. -/
def fetchDocument (f : Fetcher) (path : Text) : Action Text := do
  let url ← Action.ofExcept (f.sources.documentUrl path)
  let text ← Action.ofExcept (documentText url (← get url))
  report .info "document.fetched" [("url", .string url), ("chars", .int text.length)]
  pure text

end Fetcher

end EditorDocs
