import EditorDocs.Config.Settings
import EditorDocs.Index.Cache
import EditorDocs.Remote.Fetcher
/-!
# Resolving an index

The index of a language comes from its record if there is one, whatever state the record is in, and
from the remote source otherwise. What the remote source sent is then recorded; that this may fail
does not concern the caller. Nothing is remembered between calls.
-/

namespace EditorDocs

/-- Where indices come from. -/
structure Resolver where
  /-- The records. -/
  cache : Cache
  /-- The remote source. -/
  fetcher : Fetcher
  deriving DecidableEq

namespace Resolver

/-- The resolver that the settings describe. -/
def create (s : DocsSettings) : Resolver := ⟨⟨s.cacheDir⟩, Fetcher.create s.sources s.timeout⟩

/-- The resolver after its work is done. -/
def close (r : Resolver) : Resolver := { r with fetcher := r.fetcher.close }

/-- What the resolver reports. -/
def report (severity : Severity) (event : Text) (context : Context) : Action Unit :=
  Action.report ⟨severity, event,
    Context.bind [("component", .string "index_resolver")] context, none⟩

/-- There is a record of a language. That its path cannot be looked at is a failure to read it. -/
def isCached (r : Resolver) (language : Text) : Action Bool :=
  tryCatch (r.cache.exists? language) fun
    | .system e => throw (.unreadableRecord (r.cache.recordPath language).text e.message)
    | e => throw e

/-- An index is recorded, unless the files do not allow it. -/
def record (r : Resolver) (language : Text) (index : Index) : Action Unit :=
  tryCatch (do let _ ← r.cache.write language index) fun
    | .system e =>
      report .warning "index.cache_write_failed"
        [("path", .string (r.cache.recordPath language).text), ("error", .string e.message)]
    | e => throw e

/-- The index of a language. -/
def resolve (r : Resolver) (language : Text) : Action Index := do
  if ← r.isCached language then r.cache.read language
  else
    report .info "index.cache_miss"
      [("language", .string language), ("path", .string (r.cache.recordPath language).text)]
    let index ← r.fetcher.fetchIndex language
    r.record language index
    pure index

/-- The document that a path `<language>/<entry>` names, which is never recorded. -/
def fetchDocument (r : Resolver) (path : Text) : Action Text := r.fetcher.fetchDocument path

end Resolver

end EditorDocs
