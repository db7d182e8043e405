import EditorDocs.Failure
import EditorDocs.Json.Value
import EditorDocs.Number.Shortest
/-!
# JSON text

A value is written on one line or with one member a line. The one-line forms differ in their
separators and in whether characters outside ASCII are escaped; the indented forms differ in the
latter only.

Rendering is total. What cannot be written, a collection without order, an integer with too many
digits or a value nested too deeply, is found beforehand by `Value.fault?`, in the order in which a
writer would meet it.
-/

namespace EditorDocs.Json

/-! ## Strings -/

/-- A code unit as a hexadecimal escape. -/
def escapeUnit (n : Nat) : Text := "\\u" ++ Text.ofHex 4 n

/-- The escape of a character that has a letter of its own, or of a quote or backslash. -/
def shortEscape? (c : CodePoint) : Option Text :=
  if c.val = 0x22 then some "\\\""
  else if c.val = 0x5C then some "\\\\"
  else if c.val = 0x0A then some "\\n"
  else if c.val = 0x0D then some "\\r"
  else if c.val = 0x09 then some "\\t"
  else if c.val = 0x0C then some "\\f"
  else if c.val = 0x08 then some "\\b"
  else none

/-- A character within a string. With `ascii` everything but printable ASCII is escaped, past
`0xFFFF` as a surrogate pair; without it only the controls are. -/
def escapeOne (ascii : Bool) (c : CodePoint) : Text :=
  match shortEscape? c with
  | some t => t
  | none =>
    if c.val < 0x20 then escapeUnit c.val
    else if !ascii || c.val ≤ 0x7E then [c]
    else if c.val < 0x10000 then escapeUnit c.val
    else escapeUnit (0xD800 + (c.val - 0x10000) / 0x400) ++
      escapeUnit (0xDC00 + (c.val - 0x10000) % 0x400)

/-- A string between its quotes. -/
def quote (ascii : Bool) (t : Text) : Text :=
  [CodePoint.ofNat 0x22] ++ t.flatMap (escapeOne ascii) ++ [CodePoint.ofNat 0x22]

/-! ## One line -/

/-- How a value is written on one line. -/
structure Style where
  /-- Whether characters outside ASCII are escaped. -/
  ascii : Bool
  /-- What stands between items. -/
  comma : Text
  /-- What stands between a name and its value. -/
  colon : Text

/-- Escaped, with a blank after commas and colons: the form of the lines sent to a host. -/
def Style.line : Style := ⟨true, ", ", ": "⟩

/-- Unescaped and without blanks: the form of a record. -/
def Style.compact : Style := ⟨false, ",", ":"⟩

/-- The text of a number. -/
def floatText (x : Binary64) : Text := x.textWith "NaN" "Infinity"

mutual

/-- The value on one line. A collection without order is shown like a list. -/
def Value.render (s : Style) : Value → Text
  | .null => "null"
  | .bool b => if b then ("true" : Text) else "false"
  | .int n => Text.ofInt n
  | .float x => floatText x
  | .string t => quote s.ascii t
  | .list items => [CodePoint.ofNat 0x5B] ++ renderItems s true items
  | .object members => [CodePoint.ofNat 0x7B] ++ renderMembers s true members
  | .unordered items => [CodePoint.ofNat 0x5B] ++ renderItems s true items

/-- The rest of a list, with its closing bracket; `isFirst` says that no item stands before. -/
def renderItems (s : Style) (isFirst : Bool) : List Value → Text
  | [] => [CodePoint.ofNat 0x5D]
  | v :: rest => (if isFirst then [] else s.comma) ++ v.render s ++ renderItems s false rest

/-- The rest of an object, with its closing brace; `isFirst` says that no member stands before. -/
def renderMembers (s : Style) (isFirst : Bool) : List (Text × Value) → Text
  | [] => [CodePoint.ofNat 0x7D]
  | (name, v) :: rest =>
    (if isFirst then [] else s.comma) ++ quote s.ascii name ++ s.colon ++ v.render s ++
      renderMembers s false rest

end

/-! ## One member a line -/

/-- A line break, and two blanks for every level. -/
def lineBreak (level : Nat) : Text := CodePoint.ofNat 0x0A :: Text.blanks (2 * level)

mutual

/-- The value with one item or member a line, indented by two blanks a level. -/
def Value.pretty (ascii : Bool) (level : Nat) : Value → Text
  | .list items => [CodePoint.ofNat 0x5B] ++ prettyItems ascii level true items
  | .unordered items => [CodePoint.ofNat 0x5B] ++ prettyItems ascii level true items
  | .object members => [CodePoint.ofNat 0x7B] ++ prettyMembers ascii level true members
  | .null => "null"
  | .bool b => if b then ("true" : Text) else "false"
  | .int n => Text.ofInt n
  | .float x => floatText x
  | .string t => quote ascii t

/-- The rest of an indented list, with its closing bracket. -/
def prettyItems (ascii : Bool) (level : Nat) (isFirst : Bool) : List Value → Text
  | [] => (if isFirst then [] else lineBreak level) ++ [CodePoint.ofNat 0x5D]
  | v :: rest =>
    (if isFirst then [] else [CodePoint.ofNat 0x2C]) ++ lineBreak (level + 1) ++
      v.pretty ascii (level + 1) ++ prettyItems ascii level false rest

/-- The rest of an indented object, with its closing brace. -/
def prettyMembers (ascii : Bool) (level : Nat) (isFirst : Bool) : List (Text × Value) → Text
  | [] => (if isFirst then [] else lineBreak level) ++ [CodePoint.ofNat 0x7D]
  | (name, v) :: rest =>
    (if isFirst then [] else [CodePoint.ofNat 0x2C]) ++ lineBreak (level + 1) ++
      quote ascii name ++ ": " ++ v.pretty ascii (level + 1) ++
      prettyMembers ascii level false rest

end

/-! ## What cannot be written -/

/-- Why a value has no text. -/
inductive WriteFault where
  /-- Containers are nested too deeply. -/
  | tooDeep
  /-- An integer has too many digits. -/
  | longInteger
  /-- A collection without order has no JSON form. -/
  | noForm
  deriving DecidableEq

/-- The number of digits that an integer may have in a text that is read or written. -/
def integerLimit : Nat := 4300

/-- The first number that has more than so many digits. -/
def digitBound (digits : Nat) : Nat := Nat.pow 10 digits

mutual

/-- The first reason why a value cannot be written with containers nested at most `budget` deep. -/
def Value.fault? (budget : Nat) : Value → Option WriteFault
  | .list items => match budget with
    | 0 => some .tooDeep
    | n + 1 => faultItems? n items
  | .object members => match budget with
    | 0 => some .tooDeep
    | n + 1 => faultMembers? n members
  | .int n => if digitBound integerLimit ≤ n.natAbs then some .longInteger else none
  | .unordered _ => some .noForm
  | _ => none

/-- The first reason among the items of a list. -/
def faultItems? (budget : Nat) : List Value → Option WriteFault
  | [] => none
  | v :: rest => match v.fault? budget with
    | some f => some f
    | none => faultItems? budget rest

/-- The first reason among the members of an object. -/
def faultMembers? (budget : Nat) : List (Text × Value) → Option WriteFault
  | [] => none
  | (_, v) :: rest => match v.fault? budget with
    | some f => some f
    | none => faultMembers? budget rest

end

/-- The failure to write a value. -/
def WriteFault.failure : WriteFault → Failure
  | .tooDeep => .tooDeep
  | .longInteger => .value (("Exceeds the limit (4300 digits) for integer string " : Text) ++
      "conversion; use sys.set_int_max_str_digits() to increase the limit")
  | .noForm => .formless

end EditorDocs.Json
