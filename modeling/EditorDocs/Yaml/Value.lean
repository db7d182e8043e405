import EditorDocs.Config.Data
import EditorDocs.Number.Shortest
import EditorDocs.Text.Base64
import EditorDocs.Text.Digits
import EditorDocs.Text.Lowercase
import EditorDocs.Yaml.Resolve
/-!
# What a scalar says

The value that the text of a scalar spells under its tag. Underscores in numbers do not count.
Numbers may be written in base sixty, their parts divided by colons.
-/

namespace EditorDocs.Yaml

open Config (Scalar)

/-! ## Integers -/

/-- The value of a digit in bases up to sixteen. -/
def digitValue? (base : Nat) (c : CodePoint) : Option Nat := c.hexValue?.filter (· < base)

/-- How much of a spelling a message shows. -/
def spellingLimit : Nat := 200

/-- The letter that may stand behind a zero to name a base. -/
def baseLetter? (base : Nat) : Option CodePoint :=
  if base = 16 then some 'x' else if base = 8 then some 'o' else if base = 2 then some 'b' else none

/-- The text without a zero and the letter of the base in front. -/
def dropBase (base : Nat) (t : Text) : Text :=
  match t with
  | a :: b :: rest =>
    if a = ('0' : CodePoint) ∧ (Text.lowerAscii [b]).head? = baseLetter? base then rest else t
  | _ => t

/-- The number of digits that a decimal integer may have. -/
def integerLimit : Nat := 4300

/-- The integer that a text spells in a base, blanks around it aside, with digits of any script. A
decimal integer that begins with too many digits is refused whatever follows them. -/
def integerIn (base : Nat) (t : Text) : Except Failure Int :=
  let invalid : Except Failure Int := .error (.value
    (("invalid literal for int() with base " : Text) ++ Text.ofNat base ++ ": " ++
      t.quoted.take spellingLimit))
  let (negative, size) := Text.splitSign t.stripSpaces.withAsciiDigits
  let digits := dropBase base size
  let count := (digits.takeWhile CodePoint.isDigit).length
  if digits.isEmpty then invalid
  else if base = 10 ∧ integerLimit < count then .error (.longInteger count)
  else match digits.mapM (digitValue? base) with
    | none => invalid
    | some values =>
      let n : Int := Text.digitsValue base values
      .ok (if negative then -n else n)

/-- The text without underscores and without one sign in front, and whether that is a minus sign. A
number has one character at least. -/
def splitNumber (t : Text) : Except Failure (Bool × Text) :=
  let t := t.filter (· ≠ ('_' : CodePoint))
  if t.isEmpty then .error .emptyNumber else .ok (Text.splitSign t)

/-- The value of a number in base sixty, whose parts stand last first. -/
def sixtieths (parts : List Int) : Int :=
  (parts.foldl (fun (total, unit) d => (total + d * unit, unit * 60)) ((0 : Int), (1 : Int))).1

/-- The integer that a scalar spells. -/
def integer (t : Text) : Except Failure Int := do
  let (negative, size) ← splitNumber t
  let n ←
    (if size = ("0" : Text) then pure 0
    else if size.startsWith "0b" then integerIn 2 (size.drop 2)
    else if size.startsWith "0x" then integerIn 16 (size.drop 2)
    else if size.isEmpty then throw .emptyNumber
    else if size.startsWith "0" then integerIn 8 size
    else if size.contains (':' : CodePoint) then do
      let parts ← (size.splitOn ':').mapM (integerIn 10)
      pure (sixtieths parts.reverse)
    else integerIn 10 size : Except Failure Int)
  pure (if negative then -n else n)

/-! ## Other scalars -/

/-- The number that a text spells, blanks around it aside, with digits of any script. -/
def decimalNumber (t : Text) : Except Failure Binary64 :=
  match t.stripSpaces.withAsciiDigits.toBinary64? with
  | some x => .ok x
  | none => .error (.value (("could not convert string to float: " : Text) ++ t.quoted))

/-- The floating point number with parts in base sixty, which stand last first. A part has to have
a place that a floating point number can reach. -/
def sixtiethsNumber (parts : List Binary64) : Except Failure Binary64 := do
  let (total, _) ← parts.foldlM (fun (total, unit) d => do
    let place := Binary64.ofInt unit
    if place.isFinite then pure (Binary64.add total (Binary64.mul d place), unit * 60)
    else throw .hugeNumber) (Binary64.zero false, (1 : Int))
  pure total

/-- The floating point number that a scalar spells. -/
def number (t : Text) : Except Failure Binary64 := do
  let (negative, size) ← splitNumber t.lower
  let x ←
    (if size = (".inf" : Text) then pure (.infinity false)
    else if size = (".nan" : Text) then pure .nan
    else if size.contains (':' : CodePoint) then do
      let parts ← (size.splitOn ':').mapM decimalNumber
      sixtiethsNumber parts.reverse
    else decimalNumber size : Except Failure Binary64)
  pure (if negative then x.neg else x)

/-- The truth value that a word stands for. -/
def truth (t : Text) : Except Failure Bool :=
  let word := t.lower
  if isWord ["yes", "true", "on"] word then .ok true
  else if isWord ["no", "false", "off"] word then .ok false
  else .error (.unknownWord word)

/-- The day or point in time that a scalar spells. -/
def instant (t : Text) : Except Failure Scalar :=
  match Instant.ofText? (dropFinalBreak t) with
  | none => .error .unreadableInstant
  | some i => match i.fault? with
    | some message => .error (.value message)
    | none => .ok (match i.clock with
      | some c => .instant (i.shown c)
      | none => .date i.year i.month i.day)

/-- The bytes that a scalar spells. -/
def bytes (t : Text) : Except Failure Bytes :=
  if t.any fun c => 0x80 ≤ c.val then malformed
  else match Base64.decode? t with
    | some b => .ok b
    | none => malformed

/-- What the text of a scalar says under a tag that stands for scalars; none under another tag. -/
def scalarValue? (tag : Tag) (t : Text) : Option (Except Failure Scalar) :=
  match tag with
  | .null => some (.ok .null)
  | .bool => some ((truth t).map .bool)
  | .int => some ((integer t).map .int)
  | .float => some ((number t).map .float)
  | .binary => some ((bytes t).map .binary)
  | .timestamp => some (instant t)
  | .str => some (.ok (.text t))
  | _ => none

end EditorDocs.Yaml
