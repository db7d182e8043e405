import EditorDocs.Config.Data
import EditorDocs.Number.Shortest
import EditorDocs.Text.Quoted
/-!
# Problems of a configuration

Validation does not stop at the first problem. A `Checked` value is a value or all the problems
that stand in its way; combining checked values keeps the problems of each, in order.
-/

namespace EditorDocs.Config

/-! ## Causes -/

/-- What is wrong with a setting. -/
inductive Cause where
  /-- A section is not a mapping; the name of what is wanted follows. -/
  | notSection (wanted : Text)
  /-- The name is not one of the settings. -/
  | unknownSetting
  /-- The name of a setting is not a text. -/
  | nameNotText
  /-- A text holds surrogates where it has to be encoded. -/
  | notUnicode
  /-- A text is wanted. -/
  | notText
  /-- A mapping is wanted. -/
  | notMapping
  /-- A path is wanted. -/
  | notPath
  /-- A number is wanted. -/
  | notNumber
  /-- The text is no number. -/
  | unreadableNumber
  /-- A number above zero is wanted. -/
  | notPositive
  /-- An integer is wanted. -/
  | notInteger
  /-- The text is no integer. -/
  | unreadableInteger
  /-- The number has a fraction. -/
  | fractional
  /-- The number is infinite or none at all. -/
  | notFinite
  /-- The integer is too large. -/
  | integerTooLarge
  /-- The integer is negative. -/
  | negative
  /-- A truth value is wanted. -/
  | notBool
  /-- The value is neither true nor false. -/
  | unreadableBool
  /-- The name is not one of the levels. -/
  | notLevel
  deriving DecidableEq

/-- The kind under which a cause is filed. -/
def Cause.kind : Cause → Text
  | .notSection _ => "model_type"
  | .unknownSetting => "extra_forbidden"
  | .nameNotText => "invalid_key"
  | .notUnicode => "string_unicode"
  | .notText => "string_type"
  | .notMapping => "dict_type"
  | .notPath => "path_type"
  | .notNumber => "float_type"
  | .unreadableNumber => "float_parsing"
  | .notPositive => "greater_than"
  | .notInteger => "int_type"
  | .unreadableInteger => "int_parsing"
  | .fractional => "int_from_float"
  | .notFinite => "finite_number"
  | .integerTooLarge => "int_parsing_size"
  | .negative => "greater_than_equal"
  | .notBool => "bool_type"
  | .unreadableBool => "bool_parsing"
  | .notLevel => "literal_error"

/-- The wording of a cause. -/
def Cause.message : Cause → Text
  | .notSection wanted => ("Input should be a valid dictionary or instance of " : Text) ++ wanted
  | .unknownSetting => "Extra inputs are not permitted"
  | .nameNotText => "Keys should be strings"
  | .notUnicode => "Input should be a valid string, unable to parse raw data as a unicode string"
  | .notText => "Input should be a valid string"
  | .notMapping => "Input should be a valid dictionary"
  | .notPath => "Input is not a valid path for <class 'pathlib.Path'>"
  | .notNumber => "Input should be a valid number"
  | .unreadableNumber => "Input should be a valid number, unable to parse string as a number"
  | .notPositive => "Input should be greater than 0"
  | .notInteger => "Input should be a valid integer"
  | .unreadableInteger => "Input should be a valid integer, unable to parse string as an integer"
  | .fractional => "Input should be a valid integer, got a number with a fractional part"
  | .notFinite => "Input should be a finite number"
  | .integerTooLarge => "Unable to parse input string as an integer, exceeded maximum size"
  | .negative => "Input should be greater than or equal to 0"
  | .notBool => "Input should be a valid boolean"
  | .unreadableBool => "Input should be a valid boolean, unable to interpret input"
  | .notLevel => "Input should be 'debug', 'info', 'warn' or 'error'"

/-! ## Problems -/

/-- A step on the way to a setting. -/
inductive Step where
  /-- The name of a section or a setting. -/
  | name (t : Text)
  /-- A number that stands as a name. -/
  | number (n : Int)
  deriving DecidableEq

/-- A place in a configuration and what is wrong there. -/
structure Problem where
  /-- The steps that lead to the place. -/
  location : List Step
  /-- What is wrong. -/
  cause : Cause
  deriving DecidableEq

/-- The problem seen from one step further out. -/
def Problem.within (step : Step) (p : Problem) : Problem := ⟨step :: p.location, p.cause⟩

/-- A step as it is written. -/
def Step.text : Step → Text
  | .name t => t
  | .number n => Text.ofInt n

/-- The problem on two lines: the place, and what is wrong there. -/
def Problem.shown (p : Problem) : Text :=
  Text.join "." (p.location.map Step.text) ++ "\n  " ++ p.cause.message ++ " [type=" ++
    p.cause.kind ++ "]"

/-- The number of problems, and each of them. -/
def summary (ps : List Problem) : Text :=
  Text.ofNat ps.length ++ (if ps.length = 1 then (" validation error" : Text)
    else " validation errors") ++ " for AppConfig" ++ ps.flatMap fun p => ("\n" : Text) ++ p.shown

/-- A byte between the quotes of a display of bytes. -/
def byteText (mark : CodePoint) (b : UInt8) : Text :=
  let c := CodePoint.ofNat b.toNat
  if c = mark ∨ c.val = 0x5C then [CodePoint.ofNat 0x5C, c]
  else if c.val = 0x09 then "\\t"
  else if c.val = 0x0A then "\\n"
  else if c.val = 0x0D then "\\r"
  else if 0x20 ≤ c.val ∧ c.val < 0x7F then [c]
  else "\\x" ++ Text.ofHex 2 c.val

/-- How a scalar is shown where it stands as a name. -/
def Scalar.shown : Scalar → Text
  | .null => "None"
  | .bool b => if b then ("True" : Text) else "False"
  | .int n => Text.ofInt n
  | .float x => x.text
  | .text t => t.quoted
  | .binary bytes =>
    let mark := Text.quoteMark (bytes.map fun b => CodePoint.ofNat b.toNat)
    [CodePoint.ofNat 0x62, mark] ++ bytes.flatMap (byteText mark) ++ [mark]
  | .date y m d => ("datetime.date(" : Text) ++ Text.ofNat y ++ ", " ++ Text.ofNat m ++ ", " ++
      Text.ofNat d ++ ")"
  | .instant shown => shown

/-- A text as a place shows it: each of the three bytes that a surrogate would take is replaced. -/
def shownName (t : Text) : Text :=
  t.flatMap fun c => if c.isSurrogate then List.replicate 3 CodePoint.replacement else [c]

/-- The step that leads to what stands under a scalar. Truth values count as numbers. -/
def Step.ofScalar : Scalar → Step
  | .text t => .name (shownName t)
  | .bool b => .number (if b then 1 else 0)
  | .int n => if isWord n then .number n else .name (Text.ofInt n)
  | s => .name s.shown

/-! ## Checked values -/

/-- A value, or all the problems that stand in its way. -/
inductive Checked (α : Type) where
  /-- A value without problems. -/
  | valid (value : α)
  /-- The problems, in order. -/
  | invalid (problems : List Problem)

namespace Checked

variable {α β : Type}

/-- The problems of a checked value. -/
def problems : Checked α → List Problem
  | .valid _ => []
  | .invalid ps => ps

/-- A function of a checked value. -/
def map (f : α → β) : Checked α → Checked β
  | .valid a => .valid (f a)
  | .invalid ps => .invalid ps

/-- A checked function of a checked value: the problems of both are kept. -/
def apply : Checked (α → β) → Checked α → Checked β
  | .valid f, .valid a => .valid (f a)
  | f, a => .invalid (f.problems ++ a.problems)

instance : Functor Checked := ⟨map, fun a => map fun _ => a⟩

instance : Applicative Checked where
  pure := valid
  seq f x := apply f (x ())

/-- The value if there are no further problems. -/
def also (c : Checked α) (further : List Problem) : Checked α :=
  match c, further with
  | c, [] => c
  | c, further => .invalid (c.problems ++ further)

/-- The problems seen from one step further out. -/
def within (step : Step) : Checked α → Checked α
  | .valid a => .valid a
  | .invalid ps => .invalid (ps.map (Problem.within step))

/-- A value that was found, or a single problem at this very place. -/
def ofExcept : Except Cause α → Checked α
  | .ok a => .valid a
  | .error cause => .invalid [⟨[], cause⟩]

end Checked

end EditorDocs.Config
