import EditorDocs.Number.Binary64
import EditorDocs.Table
/-!
# JSON values

What requests hold and what commands return. An object is a table: its members keep their order.
A command may also return a collection without order, which has no JSON form; it is a value of its
own kind here, so that the writer can refuse it.

A number in a text is an optional minus sign, digits, and then possibly a fraction and an exponent.
With neither of the two it is an integer of any size; otherwise it is a double precision number.
-/

namespace EditorDocs.Json

/-- A value that a request can hold or a command can return. -/
inductive Value where
  /-- The null value. -/
  | null
  /-- A truth value. -/
  | bool (b : Bool)
  /-- An integer of any size. -/
  | int (n : Int)
  /-- A number with a fraction or an exponent. -/
  | float (x : Binary64)
  /-- A text. -/
  | string (t : Text)
  /-- A list. -/
  | list (items : List Value)
  /-- An object: names with values, in order. -/
  | object (members : List (Text × Value))
  /-- A collection without order, which JSON cannot express. -/
  | unordered (items : List Value)

namespace Value

instance : Inhabited Value := ⟨.null⟩

/-- The text, if the value is one. -/
def text? : Value → Option Text
  | .string t => some t
  | _ => none

/-- The value holds no others. -/
def isFlat : Value → Bool
  | .list _ | .object _ | .unordered _ => false
  | _ => true

/-- The member of an object under a name. -/
def member? (name : Text) : Value → Option Value
  | .object members => Table.get? name members
  | _ => none

end Value

/-! ## Numbers -/

/-- The parts of a number as they stand in the text. -/
structure Numeral where
  /-- A minus sign stands in front. -/
  negative : Bool
  /-- The digits before the point. -/
  whole : Text
  /-- The digits after the point, if there is a fraction. -/
  fraction : Option Text
  /-- The sign and the digits of the exponent, if there is one. -/
  exponent : Option (Bool × Text)

/-- The numeral has neither fraction nor exponent. -/
def Numeral.isInteger (n : Numeral) : Bool := n.fraction.isNone && n.exponent.isNone

/-- The value of a numeral. -/
def Numeral.value (n : Numeral) : Value :=
  if n.isInteger then
    let size : Int := Text.decimalValue n.whole
    .int (if n.negative then -size else size)
  else
    let fraction := n.fraction.getD []
    let power : Int := match n.exponent with
      | none => 0
      | some (negative, digits) =>
        let size : Int := Text.decimalValue digits
        if negative then -size else size
    .float (Binary64.ofDecimal n.negative (Text.decimalValue (n.whole ++ fraction))
      (power - fraction.length))

end EditorDocs.Json
