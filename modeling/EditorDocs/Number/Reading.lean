import EditorDocs.Number.Binary64
import EditorDocs.Text.Lines
/-!
# Numbers in texts

How a number is read from a text that is nothing but the number. A decimal has a sign if need be,
digits with a point among them or at either end, and possibly an exponent; infinity and the value
that is not a number have words of their own, in any case. An integer is a sign and digits.

`withoutSeparators` takes the single underscores out that may stand between the characters of a
number.
-/

namespace EditorDocs

namespace Text

/-- The sign in front, if there is one: whether it is a minus sign, and what follows. -/
def splitSign : Text → Bool × Text
  | c :: t =>
    if c = ('-' : CodePoint) then (true, t) else if c = ('+' : CodePoint) then (false, t)
    else (false, c :: t)
  | [] => (false, [])

/-- ASCII letters in lower case, other characters unchanged. -/
def lowerAscii (t : Text) : Text :=
  t.map fun c => if 0x41 ≤ c.val && c.val ≤ 0x5A then CodePoint.ofNat (c.val + 0x20) else c

/-- Two underscores stand next to each other. -/
def hasDoubleUnderscore : Text → Bool
  | a :: b :: t => (a = ('_' : CodePoint) && b = ('_' : CodePoint)) || hasDoubleUnderscore (b :: t)
  | _ => false

/-- The text without its underscores, if there are some and they stand one by one within it. -/
def withoutSeparators (t : Text) : Option Text :=
  if t.contains ('_' : CodePoint) && !t.startsWith "_" && !t.endsWith "_" && !hasDoubleUnderscore t
  then some (t.filter (· ≠ ('_' : CodePoint))) else none

/-- The number that the digits of an exponent spell, after an `e`. -/
def exponentValue? : Text → Option Int
  | [] => some 0
  | c :: t =>
    if c.val = 0x65 ∨ c.val = 0x45 then
      let (negative, digits) := splitSign t
      if digits.isEmpty || !digits.all CodePoint.isDigit then none
      else some (if negative then -(decimalValue digits : Int) else decimalValue digits)
    else none

/-- The value of a decimal without sign. -/
def decimal? (negative : Bool) (t : Text) : Option Binary64 :=
  let (whole, rest) := t.span CodePoint.isDigit
  let (fraction, rest) := match rest with
    | c :: after => if c = ('.' : CodePoint) then after.span CodePoint.isDigit else ([], rest)
    | [] => ([], [])
  if whole.isEmpty && fraction.isEmpty then none
  else (exponentValue? rest).map fun e =>
    Binary64.ofDecimal negative (decimalValue (whole ++ fraction)) (e - fraction.length)

/-- The number that a text spells. -/
def toBinary64? (t : Text) : Option Binary64 :=
  let (negative, size) := splitSign t
  let word := lowerAscii size
  if word = ("inf" : Text) || word = ("infinity" : Text) then some (.infinity negative)
  else if word = ("nan" : Text) then some .nan
  else decimal? negative size

/-- The integer that a text spells. -/
def toInt? (t : Text) : Option Int :=
  let (negative, digits) := splitSign t
  if digits.isEmpty || !digits.all CodePoint.isDigit then none
  else some (if negative then -(decimalValue digits : Int) else decimalValue digits)

end Text

end EditorDocs
