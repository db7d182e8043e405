/-!
# Text as a sequence of code points

Requests, file names and documents are sequences of code points, and a request may hold half of a
surrogate pair on its own. `Char` leaves those out, so the library has its own `CodePoint`, which
ranges over all of `0 … 0x10FFFF`, and `Text` is a list of them.

The second half of the module holds the cuts and joins that the other modules share: splitting at a
separator, stripping at the ends, and decimal text. A property of characters that a standard lists
is stored as a flat list of bounds: the first and the last number of one range, then of the next.
-/

namespace EditorDocs

/-! ## Code points -/

/-- A Unicode code point, surrogates included. -/
structure CodePoint where
  /-- The number of the code point. -/
  val : Nat
  /-- Code points end at `0x10FFFF`. -/
  isLt : val < 0x110000
  deriving DecidableEq

namespace CodePoint

/-- The code point that stands for what could not be decoded. -/
def replacement : CodePoint := ⟨0xFFFD, by decide⟩

instance : Inhabited CodePoint := ⟨replacement⟩

/-- The code point with number `n`, or the replacement character if there is none. -/
def ofNat (n : Nat) : CodePoint := if h : n < 0x110000 then ⟨n, h⟩ else replacement

/-- A character is a code point that is not a surrogate. -/
def ofChar (c : Char) : CodePoint :=
  ⟨c.toNat, by
    have h := c.valid
    simp only [UInt32.isValidChar, Nat.isValidChar] at h
    simp only [Char.toNat]
    omega⟩

instance : Coe Char CodePoint := ⟨ofChar⟩

/-- The first half of a surrogate pair. -/
def isHighSurrogate (c : CodePoint) : Bool := 0xD800 ≤ c.val && c.val < 0xDC00

/-- The second half of a surrogate pair. -/
def isLowSurrogate (c : CodePoint) : Bool := 0xDC00 ≤ c.val && c.val < 0xE000

/-- Either half of a surrogate pair: a code point that is not a scalar value. -/
def isSurrogate (c : CodePoint) : Bool := 0xD800 ≤ c.val && c.val < 0xE000

/-- The code point that a surrogate pair stands for. -/
def ofSurrogates (high low : CodePoint) : CodePoint :=
  ofNat (0x10000 + (high.val - 0xD800) * 0x400 + (low.val - 0xDC00))

/-- An ASCII decimal digit. -/
def isDigit (c : CodePoint) : Bool := 0x30 ≤ c.val && c.val ≤ 0x39

/-- An ASCII letter. -/
def isLetter (c : CodePoint) : Bool :=
  (0x41 ≤ c.val && c.val ≤ 0x5A) || (0x61 ≤ c.val && c.val ≤ 0x7A)

/-- The value of a hexadecimal digit in either case. -/
def hexValue? (c : CodePoint) : Option Nat :=
  if c.isDigit then some (c.val - 0x30)
  else if 0x41 ≤ c.val && c.val ≤ 0x46 then some (c.val - 0x41 + 10)
  else if 0x61 ≤ c.val && c.val ≤ 0x66 then some (c.val - 0x61 + 10)
  else none

/-- The lower-case hexadecimal digit of a number below sixteen. -/
def ofHexDigit (n : Nat) : CodePoint := ofNat (if n < 10 then 0x30 + n else 0x61 + (n - 10))

end CodePoint

/-! ## Text -/

/-- A sequence of code points. -/
abbrev Text := List CodePoint

namespace Text

/-- The text that a string of characters spells. -/
def ofString (s : String) : Text := s.toList.map CodePoint.ofChar

instance : Coe String Text := ⟨ofString⟩

/-- The text holds no surrogates: it is a sequence of Unicode scalar values. -/
def IsScalar (t : Text) : Prop := ∀ c ∈ t, c.isSurrogate = false

instance (t : Text) : Decidable t.IsScalar := inferInstanceAs (Decidable (∀ c ∈ t, _))

/-- The parts of a text between the occurrences of `sep`; a text without `sep` is one part. -/
def splitOn (sep : CodePoint) : Text → List Text
  | [] => [[]]
  | c :: t =>
    if c = sep then [] :: splitOn sep t
    else match splitOn sep t with
      | [] => [[c]]
      | part :: parts => (c :: part) :: parts

/-- The parts joined with `sep` between neighbours. -/
def join (sep : Text) (parts : List Text) : Text := (parts.intersperse sep).flatten

/-- What stands before and after the first `sep`, if there is one. -/
def cut? (sep : CodePoint) : Text → Option (Text × Text)
  | [] => none
  | c :: t => if c = sep then some ([], t) else (cut? sep t).map fun (a, b) => (c :: a, b)

/-- What stands before and after the first `sep`; without one, everything stands before. -/
def cut (sep : CodePoint) (t : Text) : Text × Text := (t.cut? sep).getD (t, [])

/-- The text without the code points at its end that satisfy `p`. -/
def dropEndWhile (p : CodePoint → Bool) (t : Text) : Text := (t.reverse.dropWhile p).reverse

/-- The text without the code points at either end that satisfy `p`. -/
def trimBoth (p : CodePoint → Bool) (t : Text) : Text := dropEndWhile p (t.dropWhile p)

/-- The text ends with `suffix`. -/
def endsWith (t suffix : Text) : Bool := suffix.isSuffixOf t

/-- The text begins with `start`. -/
def startsWith (t start : Text) : Bool := start.isPrefixOf t

/-- The text as code points repeated `n` times. -/
def blanks (n : Nat) : Text := List.replicate n (' ' : CodePoint)

/-- The text filled up with blanks at its end to `width` code points. -/
def padEnd (width : Nat) (t : Text) : Text := t ++ blanks (width - t.length)

/-- The order of texts by their code points, the first difference deciding. -/
def le : Text → Text → Bool
  | [], _ => true
  | _ :: _, [] => false
  | a :: s, b :: t => if a.val < b.val then true else if b.val < a.val then false else le s t

/-! ## Decimal text -/

/-- The digits of `n` in base `base`, the last digit first. -/
def reversedDigits (base : Nat) (n : Nat) : List Nat :=
  if _h : n < base ∨ base < 2 then [n]
  else n % base :: reversedDigits base (n / base)
termination_by n
decreasing_by
  have : n ≥ base := by omega
  exact Nat.div_lt_self (by omega) (by omega)

/-- The number in decimal. -/
def ofNat (n : Nat) : Text := (reversedDigits 10 n).reverse.map CodePoint.ofHexDigit

/-- The integer in decimal, with a minus sign if it is negative. -/
def ofInt : Int → Text
  | .ofNat n => ofNat n
  | .negSucc n => ('-' : CodePoint) :: ofNat (n + 1)

/-- The number in lower-case hexadecimal, filled up with zeros to `width` digits. -/
def ofHex (width : Nat) (n : Nat) : Text :=
  let digits := (reversedDigits 16 n).reverse.map CodePoint.ofHexDigit
  List.replicate (width - digits.length) ('0' : CodePoint) ++ digits

/-- The number that digits spell in base `base`, the first digit counting most. -/
def digitsValue (base : Nat) (digits : List Nat) : Nat := digits.foldl (fun n d => n * base + d) 0

/-- The number that a run of decimal digits spells. -/
def decimalValue (digits : Text) : Nat := digitsValue 10 (digits.map fun c => c.val - 0x30)

end Text

/-! ## Sets of code points -/

/-- Bounds of ranges of code points: first, last, first, last, in increasing order. -/
abbrev Ranges := List Nat

namespace Ranges

/-- The number lies in one of the ranges. The bounds increase, so a number below the first bound
that is left lies in none. -/
def contains : Ranges → Nat → Bool
  | first :: last :: rest, n =>
    if n < first then false else if n ≤ last then true else contains rest n
  | _, _ => false

end Ranges

end EditorDocs
