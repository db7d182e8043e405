import EditorDocs.Failure
import EditorDocs.Text.Intake
/-!
# How far a document can be read

A document is the text of a file, read in portions when they are needed. A portion that cannot be
decoded, or holds a character that may not stand in a document, ends what can be read of it; the
fault counts when something is wanted from that portion, and not before.
-/

namespace EditorDocs.Yaml

/-- The character may stand in a document. -/
def isAllowed (c : CodePoint) : Bool :=
  c.val = 0x09 || c.val = 0x0A || c.val = 0x0D || (0x20 ≤ c.val && c.val ≤ 0x7E) || c.val = 0x85 ||
    (0xA0 ≤ c.val && c.val ≤ 0xD7FF) || (0xE000 ≤ c.val && c.val ≤ 0xFFFD) || 0x10000 ≤ c.val

/-- What can be read of a document. -/
structure Source where
  /-- The text that can be read. -/
  text : Text
  /-- Why nothing behind it can be read; none if the document ends there. -/
  fault : Option Failure

namespace Source

/-- The document that consists of portions, behind which a fault may stand. -/
def ofPortions (fault : Option Failure) : List Text → Source
  | [] => ⟨[], fault⟩
  | t :: rest =>
    if t.all isAllowed then
      let s := ofPortions fault rest
      ⟨t ++ s.text, s.fault⟩
    else ⟨[], some .malformedConfiguration⟩

/-- The portions with the first two of them taken as one, since both are read before anything else
is done. Of a file that holds one portion before a fault none is left. -/
def joinFirst (isWhole : Bool) : List Text → List Text
  | a :: b :: rest => (a ++ b) :: rest
  | ts => if isWhole then ts else []

/-- The document in a file. -/
def ofBytes (bytes : Bytes) : Source :=
  let (ts, fault) := Intake.portions bytes
  ofPortions (fault.map .undecodable) (joinFirst fault.isNone ts)

end Source

end EditorDocs.Yaml
