import EditorDocs.Text.Basic
/-!
# Lines and blanks

A text as lines. A line ends behind its line feed; carriage returns, alone or before a line feed,
count as line feeds where a file is read as text.

Lines that hosts send are stripped of `isBlank` at their ends; numbers in a configuration are
stripped of the narrower `isUnicodeSpace`, which leaves the four information separators
`0x1C … 0x1F` in place.
-/

namespace EditorDocs

/-! ## Blanks -/

namespace CodePoint

/-- The blanks of the Unicode standard. -/
def unicodeSpaces : Ranges :=
  [0x9, 0xD, 0x20, 0x20, 0x85, 0x85, 0xA0, 0xA0, 0x1680, 0x1680, 0x2000, 0x200A, 0x2028, 0x2029,
    0x202F, 0x202F, 0x205F, 0x205F, 0x3000, 0x3000]

/-- White space as the Unicode standard lists it. -/
def isUnicodeSpace (c : CodePoint) : Bool := unicodeSpaces.contains c.val

/-- White space, or one of the four information separators. -/
def isBlank (c : CodePoint) : Bool := c.isUnicodeSpace || (0x1C ≤ c.val && c.val ≤ 0x1F)

end CodePoint

namespace Text

/-- The text without the blanks at both ends. -/
def strip (t : Text) : Text := t.trimBoth CodePoint.isBlank

/-- The text without the white space at both ends. -/
def stripSpaces (t : Text) : Text := t.trimBoth CodePoint.isUnicodeSpace

end Text

/-! ## Lines -/

namespace Text


/-- The text with every line break as a line feed; `afterReturn` says that a carriage return stands
right before. -/
def unifyAfter (afterReturn : Bool) : Text → Text
  | [] => []
  | c :: t =>
    if c.val = 0x0D then CodePoint.ofNat 0x0A :: unifyAfter true t
    else if c.val = 0x0A && afterReturn then unifyAfter false t
    else c :: unifyAfter false t

/-- The text with every line break as a line feed. -/
def unifyBreaks (t : Text) : Text := unifyAfter false t

/-- The lines of a text after the start of a line in `line`, which stands last first. Line feeds are
left out, and there is no line behind the last one. -/
def linesAfter (line : Text) : Text → List Text
  | [] => if line.isEmpty then [] else [line.reverse]
  | c :: t => if c.val = 0x0A then line.reverse :: linesAfter [] t else linesAfter (c :: line) t

/-- The lines of a text, without their line feeds. -/
def lines (t : Text) : List Text := linesAfter [] t

end Text

end EditorDocs
