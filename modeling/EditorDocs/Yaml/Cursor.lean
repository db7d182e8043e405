import EditorDocs.Yaml.Source
/-!
# A position in a document

What is left of a document, and where the position lies: how many characters stand before it, and
its line and column. A carriage return before a line feed ends no line of its own, and a byte order
mark takes no column.

Where nothing is left the document ends, unless it cannot be read any further. What refuses a
document there does so for that reason.
-/

namespace EditorDocs.Yaml

/-! ## Classes of characters -/

/-- The character ends a line. -/
def isBreak (c : CodePoint) : Bool :=
  c.val = 0x0A || c.val = 0x0D || c.val = 0x85 || c.val = 0x2028 || c.val = 0x2029

/-- The character is a blank. -/
def isSpace (c : CodePoint) : Bool := c.val = 0x20

/-- The character is a blank or a tab. -/
def isGap (c : CodePoint) : Bool := c.val = 0x20 || c.val = 0x09

/-- The character may stand in the name of an anchor or a directive. -/
def isNameChar (c : CodePoint) : Bool :=
  c.isLetter || c.isDigit || c = ('-' : CodePoint) || c = ('_' : CodePoint)

/-- The character is one of the characters of `s`. -/
def isOneOf (s : String) (c : CodePoint) : Bool := (Text.ofString s).contains c

/-! ## Positions -/

/-- A position in a document. -/
structure Cursor where
  /-- What is left. -/
  rest : Text
  /-- How many characters stand before. -/
  index : Nat
  /-- The line, counted from zero. -/
  line : Nat
  /-- The column, counted from zero. -/
  column : Nat
  /-- Why nothing behind what is left can be read; none if the document ends there. -/
  fault : Option Failure

namespace Cursor

/-- The start of a document. -/
def start (s : Source) : Cursor := ⟨s.text, 0, 0, 0, s.fault⟩

/-- Why the document is refused at the position. -/
def refusal (c : Cursor) : Failure :=
  if c.rest.isEmpty then c.fault.getD .malformedConfiguration else .malformedConfiguration

/-- The document is refused at the position. -/
def refuse {α : Type} (c : Cursor) : Except Failure α := .error c.refusal

/-- The position, if it can be read what stands there. -/
def readable (c : Cursor) : Except Failure Cursor :=
  match c.rest, c.fault with
  | [], some f => .error f
  | _, _ => .ok c

/-- The position after the next character. -/
def next (c : Cursor) : Cursor :=
  match c.rest with
  | [] => c
  | x :: rest =>
    let endsLine := isBreak x &&
      !(x.val = 0x0D && rest.head? = some (CodePoint.ofNat 0x0A))
    if endsLine then ⟨rest, c.index + 1, c.line + 1, 0, c.fault⟩
    else ⟨rest, c.index + 1, c.line, if x.val = 0xFEFF then c.column else c.column + 1, c.fault⟩

/-- The position after the next `n` characters. -/
def advance (c : Cursor) : Nat → Cursor
  | 0 => c
  | n + 1 => c.next.advance n

/-- The next character, if there is one. -/
def peek? (c : Cursor) : Option CodePoint := c.rest.head?

/-- The next character satisfies `p`. -/
def sees (p : CodePoint → Bool) (c : Cursor) : Bool :=
  match c.rest with
  | x :: _ => p x
  | [] => false

/-- The document ends here, or the next character satisfies `p`. -/
def endsOr (p : CodePoint → Bool) (c : Cursor) : Bool :=
  match c.rest with
  | x :: _ => p x
  | [] => true

/-- The characters that satisfy `p`, and the position after them. -/
def span (p : CodePoint → Bool) (c : Cursor) : Text × Cursor :=
  let t := c.rest.takeWhile p
  (t, c.advance t.length)

/-- The position after the characters that satisfy `p`. -/
def skip (p : CodePoint → Bool) (c : Cursor) : Cursor := (c.span p).2

/-- The rest of the line is skipped. -/
def skipLine (c : Cursor) : Cursor := c.skip fun x => !isBreak x

/-- The line break that stands here, if one does, and the position after it. All breaks but the
two separators of the Unicode standard count as a line feed. -/
def lineBreak (c : Cursor) : Text × Cursor :=
  match c.rest with
  | x :: rest =>
    if x.val = 0x0D && rest.head? = some (CodePoint.ofNat 0x0A) then ("\n", c.advance 2)
    else if x.val = 0x0A || x.val = 0x0D || x.val = 0x85 then ("\n", c.next)
    else if isBreak x then ([x], c.next)
    else ([], c)
  | [] => ([], c)

/-- The next character is followed by a blank, a tab, a line break or the end. -/
def standsAlone (c : Cursor) : Bool := c.next.endsOr fun x => isGap x || isBreak x

/-- One of the two marks that divide documents stands here, on its own. -/
def atMarker (mark : Text) (c : Cursor) : Bool :=
  c.rest.startsWith mark && (c.advance 3).endsOr fun x => isGap x || isBreak x

/-- A mark that divides documents stands here. -/
def atDivision (c : Cursor) : Bool := c.atMarker "---" || c.atMarker "..."

end Cursor

/-- The document is not well formed. -/
def malformed {α : Type} : Except Failure α := .error .malformedConfiguration

end EditorDocs.Yaml
