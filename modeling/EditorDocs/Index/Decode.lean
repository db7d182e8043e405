import EditorDocs.Failure
import EditorDocs.Index.Basic
/-!
# Decoding an index

A payload is first read as JSON, and then held against the shape of an index. All violations of the
shape are found, in the order of the document and within an entry in the order name, path, type; the
message names the first and counts the others.
-/

namespace EditorDocs.Index

/-- What is wrong with the shape of a document. -/
inductive ShapeFault where
  /-- A member is missing. -/
  | missing
  /-- An object is wanted. -/
  | notObject
  /-- An array is wanted. -/
  | notArray
  /-- A string is wanted. -/
  | notString
  deriving DecidableEq, Repr

/-- The wording of a fault. -/
def ShapeFault.message : ShapeFault → Text
  | .missing => "Field required"
  | .notObject => "Input should be an object"
  | .notArray => "Input should be a valid array"
  | .notString => "Input should be a valid string"

/-- A place in a document where its shape is not that of an index. -/
structure Violation where
  /-- The names and positions that lead to the place; none for the whole document. -/
  location : List Text
  /-- What is wrong there. -/
  fault : ShapeFault
  deriving DecidableEq

/-- The string member of an entry under a name, or the violation. -/
def field (place : List Text) (members : List (Text × Json.Value)) (name : Text) :
    Except Violation Text :=
  match Table.get? name members with
  | some (.string t) => .ok t
  | some _ => .error ⟨place ++ [name], .notString⟩
  | none => .error ⟨place ++ [name], .missing⟩

/-- The violation, if there is one. -/
def violation? {α : Type} : Except Violation α → List Violation
  | .ok _ => []
  | .error v => [v]

/-- The entry at position `i`, or its violations. -/
def entryAt (i : Nat) : Json.Value → Except (List Violation) Entry
  | .object members =>
    let place : List Text := ["entries", Text.ofNat i]
    let name := field place members "name"
    let path := field place members "path"
    let kind := field place members "type"
    match name, path, kind with
    | .ok name, .ok path, .ok kind => .ok ⟨name, path, kind⟩
    | name, path, kind => .error (violation? name ++ violation? path ++ violation? kind)
  | _ => .error [⟨["entries", Text.ofNat i], .notObject⟩]

/-- The entries from position `i` on, or all their violations. -/
def entriesFrom (i : Nat) : List Json.Value → Except (List Violation) (List Entry)
  | [] => .ok []
  | v :: rest =>
    match entryAt i v, entriesFrom (i + 1) rest with
    | .ok e, .ok es => .ok (e :: es)
    | .ok _, .error later => .error later
    | .error here, .ok _ => .error here
    | .error here, .error later => .error (here ++ later)

/-- The index that a value has the shape of, or all violations. -/
def ofJson : Json.Value → Except (List Violation) Index
  | .object members =>
    match Table.get? ("entries" : Text) members with
    | some (.list items) => (entriesFrom 0 items).map Index.mk
    | some _ => .error [⟨["entries"], .notArray⟩]
    | none => .error [⟨["entries"], .missing⟩]
  | _ => .error [⟨[], .notObject⟩]

/-- The message for a payload with a fault at a place, and how many further faults there are. -/
def summary (location : List Text) (message : Text) (further : Nat) : Text :=
  (if location.isEmpty then ("<root>" : Text) else Text.join "." location) ++ ": " ++ message ++
    (if further = 0 then ([] : Text) else (" (+" : Text) ++ Text.ofNat further ++ " more)")

/-- The message for the violations of a document. -/
def summarize : List Violation → Text
  | [] => []
  | v :: rest => summary v.location v.fault.message rest.length

/-- The index that the bytes hold, or the reason why they hold none. -/
def decode (r : Json.Reader) (payload : Bytes) : Except Text Index :=
  match Json.readDocument r payload with
  | .error o => .error (summary [] (o.message payload) 0)
  | .ok v =>
    match ofJson v with
    | .error violations => .error (summarize violations)
    | .ok index => .ok index

/-- The index that a text holds, or the reason why it holds none. A text with a surrogate has no
bytes to read. -/
def decodeText (r : Json.Reader) (payload : Text) : Except Text Index :=
  match Utf8.encode payload with
  | .error _ => .error (summary []
      "Input should be a valid string, unable to parse raw data as a unicode string" 0)
  | .ok bytes => decode r bytes

/-- The index that the bytes from a source hold. -/
def receive (r : Json.Reader) (source : Text) (payload : Bytes) : Except Failure Index :=
  match decode r payload with
  | .ok index => .ok index
  | .error reason => .error (.malformed source reason)

/-- The index that the text from a source holds. -/
def receiveText (r : Json.Reader) (source : Text) (payload : Text) : Except Failure Index :=
  match decodeText r payload with
  | .ok index => .ok index
  | .error reason => .error (.malformed source reason)

end EditorDocs.Index
