import EditorDocs.Text.Lines
/-!
# Decimal digits of all scripts

Every script has its own ten digits, which follow one another from zero to nine. The options of the
command line and the scalars of a configuration file take numbers in any of them.
-/

namespace EditorDocs

/-- The numbers of the zeros. -/
def CodePoint.zeros : List Nat :=
  [0x30, 0x660, 0x6F0, 0x7C0, 0x966, 0x9E6, 0xA66, 0xAE6, 0xB66, 0xBE6, 0xC66, 0xCE6, 0xD66, 0xDE6,
    0xE50, 0xED0, 0xF20, 0x1040, 0x1090, 0x17E0, 0x1810, 0x1946, 0x19D0, 0x1A80, 0x1A90, 0x1B50,
    0x1BB0, 0x1C40, 0x1C50, 0xA620, 0xA8D0, 0xA900, 0xA9D0, 0xA9F0, 0xAA50, 0xABF0, 0xFF10, 0x104A0,
    0x10D30, 0x11066, 0x110F0, 0x11136, 0x111D0, 0x112F0, 0x11450, 0x114D0, 0x11650, 0x116C0,
    0x11730, 0x118E0, 0x11950, 0x11C50, 0x11D50, 0x11DA0, 0x16A60, 0x16AC0, 0x16B50, 0x1D7CE,
    0x1D7D8, 0x1D7E2, 0x1D7EC, 0x1D7F6, 0x1E140, 0x1E2F0, 0x1E950, 0x1FBF0]

/-- The value of a decimal digit of any script. -/
def CodePoint.digitValue? (c : CodePoint) : Option Nat :=
  (CodePoint.zeros.find? fun z => z ≤ c.val && c.val < z + 10).map fun z => c.val - z

/-- A decimal digit of any script as an ASCII digit; other characters unchanged. -/
def CodePoint.withAsciiDigit (c : CodePoint) : CodePoint :=
  match c.digitValue? with
  | some d => CodePoint.ofNat (0x30 + d)
  | none => c

namespace Text

/-- The text with ASCII digits for the digits of all scripts. -/
def withAsciiDigits (t : Text) : Text := t.map CodePoint.withAsciiDigit

/-- The values of digits, between which single underscores may stand; `afterDigit` says that a digit
stands right before. -/
def separatedDigits? (afterDigit : Bool) : Text → Option (List Nat)
  | [] => if afterDigit then some [] else none
  | c :: t =>
    match c.digitValue? with
    | some d => (separatedDigits? true t).map (d :: ·)
    | none => if c.val = 0x5F && afterDigit then separatedDigits? false t else none

/-- The number of digits that an integer may have. -/
def digitLimit : Nat := 4300

/-- The integer that a text spells: white space at the ends, an optional sign, and digits. -/
def toAnyInt? (t : Text) : Option Int :=
  let (negative, size) := match t.stripSpaces with
    | c :: rest =>
      if c.val = 0x2D then (true, rest) else if c.val = 0x2B then (false, rest)
      else (false, c :: rest)
    | [] => (false, [])
  match separatedDigits? false size with
  | some digits =>
    if digitLimit < digits.length then none
    else
      let n : Int := digitsValue 10 digits
      some (if negative then -n else n)
  | none => none

end Text

end EditorDocs
