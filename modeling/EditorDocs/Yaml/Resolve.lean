import EditorDocs.Number.Reading
import EditorDocs.Yaml.Cursor
import EditorDocs.Yaml.Instant
/-!
# What a plain scalar stands for

The tags that the library knows, and the tag of a scalar that has none: it is told from the form of
the text. A text of no special form is a text. Forms are looked for in a fixed order; a line feed at
the very end, which only a block scalar can have, is left out of account.
-/

namespace EditorDocs.Yaml

/-- A tag: the kind of value that a node stands for. -/
inductive Tag where
  /-- The absent value. -/
  | null
  /-- A truth value. -/
  | bool
  /-- An integer. -/
  | int
  /-- A floating point number. -/
  | float
  /-- Bytes in base 64. -/
  | binary
  /-- A day or a point in time. -/
  | timestamp
  /-- A list of pairs whose keys are in order. -/
  | omap
  /-- A list of pairs. -/
  | pairs
  /-- Keys without values. -/
  | set
  /-- A text. -/
  | str
  /-- A list. -/
  | seq
  /-- A mapping. -/
  | map
  /-- The key under which mappings stand that are merged in. -/
  | merge
  /-- The key under which the proper value of a mapping stands. -/
  | value
  /-- A tag that stands for nothing here. -/
  | other
  deriving DecidableEq

/-- What the names of the known tags begin with. -/
def tagBase : Text := "tag:yaml.org,2002:"

/-- The known tags by their names. -/
def knownTags : List (String × Tag) :=
  [("null", .null), ("bool", .bool), ("int", .int), ("float", .float), ("binary", .binary),
    ("timestamp", .timestamp), ("omap", .omap), ("pairs", .pairs), ("set", .set), ("str", .str),
    ("seq", .seq), ("map", .map), ("merge", .merge), ("value", .value)]

/-- The tag with a name. -/
def Tag.ofText (t : Text) : Tag :=
  match knownTags.find? fun (name, _) => t = tagBase ++ Text.ofString name with
  | some (_, tag) => tag
  | none => .other

/-! ## Forms -/

/-- The text is not empty and its characters satisfy `p`. -/
def allOf (p : CodePoint → Bool) (t : Text) : Bool := !t.isEmpty && t.all p

/-- A digit or an underscore. -/
def isDigitOrBar (c : CodePoint) : Bool := c.isDigit || c = ('_' : CodePoint)

/-- A digit, followed by digits and underscores. -/
def isLoose (t : Text) : Bool :=
  match t with
  | c :: rest => c.isDigit && rest.all isDigitOrBar
  | [] => false

/-- One or two digits that spell a number below sixty. -/
def isSixtieth (t : Text) : Bool :=
  match t with
  | [a] => a.isDigit
  | [a, b] => a.isDigit && b.isDigit && a.val < 0x36
  | _ => false

/-- The text without a sign in front. -/
def unsigned (t : Text) : Text := (Text.splitSign t).2

/-- The text is one of the words. -/
def isWord (words : List String) (t : Text) : Bool := words.any fun w => Text.ofString w = t

/-- The form of a truth value. -/
def isBoolForm (t : Text) : Bool :=
  isWord ["yes", "Yes", "YES", "no", "No", "NO", "true", "True", "TRUE", "false", "False", "FALSE",
    "on", "On", "ON", "off", "Off", "OFF"] t

/-- The form of the absent value, which is not empty. -/
def isNullForm (t : Text) : Bool := isWord ["~", "null", "Null", "NULL"] t

/-- The form of an integer: binary, octal, decimal, hexadecimal or in base sixty. -/
def isIntForm (t : Text) : Bool :=
  match unsigned t with
  | [] => false
  | [c] => c.isDigit
  | c :: d :: rest =>
    if c = ('0' : CodePoint) then
      if d = ('b' : CodePoint) then allOf (isOneOf "01_") rest
      else if d = ('x' : CodePoint) then allOf (fun x => x.hexValue?.isSome || x.val = 0x5F) rest
      else (d :: rest).all (isOneOf "01234567_")
    else
      match Text.splitOn ':' (c :: d :: rest) with
      | first :: parts => isLoose first && parts.all isSixtieth
      | [] => false

/-- An exponent with a sign, or nothing. -/
def isExponent : Text → Bool
  | [] => true
  | e :: s :: digits =>
    (e.val = 0x65 || e.val = 0x45) && (s = ('+' : CodePoint) || s = ('-' : CodePoint)) &&
      allOf CodePoint.isDigit digits
  | _ => false

/-- Digits and underscores, and then an exponent if there is one. -/
def isFraction (t : Text) : Bool := isExponent (t.dropWhile isDigitOrBar)

/-- The form of a floating point number, which needs a point. -/
def isFloatForm (t : Text) : Bool :=
  let size := unsigned t
  if isWord [".inf", ".Inf", ".INF"] size then true
  else if isWord [".nan", ".NaN", ".NAN"] t then true
  else match size.cut? ('.' : CodePoint) with
    | none => false
    | some (whole, fraction) =>
      if whole.isEmpty then
        -- a number without digits before the point has no sign
        size.length = t.length && (fraction.head?.any CodePoint.isDigit) && isFraction fraction
      else
        match whole.splitOn ':' with
        | [_] => isLoose whole && isFraction fraction
        | first :: parts => isLoose first && parts.all isSixtieth && fraction.all isDigitOrBar
        | [] => false

/-- The text without a line feed at its end. -/
def dropFinalBreak (t : Text) : Text :=
  if t.endsWith "\n" then t.dropLast else t

/-- The tag of a scalar that has none. -/
def resolve (t : Text) : Tag :=
  if t.isEmpty then .null
  else
    let t := dropFinalBreak t
    if isBoolForm t then .bool
    else if isFloatForm t then .float
    else if isIntForm t then .int
    else if t = ("<<" : Text) then .merge
    else if isNullForm t then .null
    else if Instant.isPlain t then .timestamp
    else if t = ("=" : Text) then .value
    else if isWord ["!", "&", "*"] t then .other
    else .str

end EditorDocs.Yaml
