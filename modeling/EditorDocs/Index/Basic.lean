import EditorDocs.Json.Document
import EditorDocs.Json.Writer
/-!
# Documentation indices

The index of a language is the list of its documented items, in the order in which it was received.
As a document it is an object whose member `entries` is an array of objects with the string members
`name`, `path` and `type`; whatever else the document holds is ignored.
-/

namespace EditorDocs

/-- One documented item. -/
structure Entry where
  /-- The label that is shown. -/
  name : Text
  /-- Where the item's document lies below the documents of its language. -/
  path : Text
  /-- The category of the item. -/
  kind : Text
  deriving DecidableEq

/-- The documentation index of a language. -/
structure Index where
  /-- The items, in the order received. -/
  entries : List Entry
  deriving DecidableEq

namespace Entry

/-- The entry as a JSON value. -/
def toJson (e : Entry) : Json.Value :=
  .object [("name", .string e.name), ("path", .string e.path), ("type", .string e.kind)]

end Entry

namespace Index

/-- The index as a JSON value. -/
def toJson (i : Index) : Json.Value := .object [("entries", .list (i.entries.map Entry.toJson))]

/-- The texts of an index, in the order in which a record holds them. -/
def texts (i : Index) : List Text := i.entries.flatMap fun e => [e.name, e.path, e.kind]

/-- The index as a record holds it: JSON on one line, without blanks. -/
def render (i : Index) : Text := i.toJson.render .compact

end Index

end EditorDocs
