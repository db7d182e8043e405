import EditorDocs.Log.Record
import EditorDocs.Number.Shortest
import EditorDocs.Text.Quoted
/-!
# Records on a console

A record on a console is a line: the time, the severity in brackets, what happened, the logger in
brackets, and the named values in the order of their names. A value without a name comes first of
all. A stack and an exception stand on the lines behind it.
-/

namespace EditorDocs.Log

open Json (Value)

/-! ## Values -/

mutual

/-- A value as the console shows it within others. -/
def shown : Value → Text
  | .null => "None"
  | .bool b => if b then ("True" : Text) else "False"
  | .int n => Text.ofInt n
  | .float x => x.text
  | .string t => t.quoted
  | .list items => ("[" : Text) ++ shownItems true items ++ "]"
  | .object members => [CodePoint.ofNat 0x7B] ++ shownMembers true members ++ [CodePoint.ofNat 0x7D]
  | .unordered items => [CodePoint.ofNat 0x7B] ++ shownItems true items ++ [CodePoint.ofNat 0x7D]

/-- The items of a list; `isFirst` says that no item stands before. -/
def shownItems (isFirst : Bool) : List Value → Text
  | [] => []
  | v :: rest => (if isFirst then ([] : Text) else ", ") ++ shown v ++ shownItems false rest

/-- The members of an object; `isFirst` says that no member stands before. -/
def shownMembers (isFirst : Bool) : List (Text × Value) → Text
  | [] => []
  | (name, v) :: rest =>
    (if isFirst then ([] : Text) else ", ") ++ name.quoted ++ ": " ++ shown v ++
      shownMembers false rest

end

/-- A text with this character cannot stand in a line without quotes. -/
def needsQuotes (c : CodePoint) : Bool :=
  c.val = 0x20 || c.val = 0x09 || c.val = 0x3D || c.val = 0x0D || c.val = 0x0A || c.val = 0x22 ||
    c.val = 0x27

/-- The value of a name. A text stands without quotes if it can. -/
def shownValue : Value → Text
  | .string t => if t.any needsQuotes then t.quoted else t
  | v => shown v

/-! ## Lines -/

/-- The width to which the name of a severity is filled up. -/
def severityWidth : Nat := 9

/-- The width to which what happened is filled up. -/
def eventWidth : Nat := 30

/-- The named values with one more, behind those whose names come no later. -/
def insertByName (m : Text × Value) : Context → Context
  | [] => [m]
  | n :: rest => if m.1.le n.1 then m :: n :: rest else n :: insertByName m rest

/-- The named values in the order of their names. -/
def sortByName : Context → Context
  | [] => []
  | m :: rest => insertByName m (sortByName rest)

/-- A name with its value. -/
def shownPair (m : Text × Value) : Text := m.1 ++ "=" ++ shownValue m.2

/-- A value as it stands where its meaning is clear: a text as it is. -/
def plain : Value → Text
  | .string t => t
  | v => shown v

/-- A value in brackets. -/
def bracketed (v : Value) : Text := ("[" : Text) ++ plain v ++ "]"

/-- The fields whose columns come before all others, in order, and what stands there. -/
def leadingColumns : List (Text × (Value → Text)) :=
  [("", fun v => ("=" : Text) ++ shownValue v),
    ("timestamp", plain),
    ("level", fun v => ("[" : Text) ++ (plain v).padEnd severityWidth ++ "]"),
    ("event", fun v => (plain v).padEnd eventWidth),
    ("logger", bracketed),
    ("logger_name", bracketed)]

/-- The fields whose texts stand on the lines behind the one of the record. -/
def blockNames : List Text := ["stack", "exception"]

/-- The field has no place of its own on the console. -/
def isOrdinary (m : Text × Value) : Bool :=
  !(leadingColumns.map Prod.fst ++ blockNames).contains m.1

/-- The line of a record with these fields. -/
def fieldsLine (fields : Context) : Text :=
  let leading := leadingColumns.filterMap fun (name, show?) => (fields.get? name).map show?
  let others := (sortByName (fields.filter isOrdinary)).map shownPair
  Text.dropEndWhile (· = (' ' : CodePoint)) (Text.join " " (leading ++ others))

/-! ## Blocks -/

/-- What divides a stack from an exception. -/
def divider : Text := ("\n\n" : Text) ++ List.replicate 79 ('=' : CodePoint) ++ "\n"

/-- The field can stand on lines of its own: it is a text, or there is nothing in it. -/
def isBlock (fields : Context) (name : Text) : Bool :=
  match fields.get? name with
  | none | some .null | some (.string _) => true
  | some _ => false

/-- The text that stands on lines of its own. -/
def block? (fields : Context) (name : Text) : Option Text := (fields.get? name).bind Value.text?

/-- A record with these fields on the console: its line, the stack and the exception. -/
def fieldsText (fields : Context) : Text :=
  let exception := block? fields "exception"
  let stack : Text := match block? fields "stack" with
    | some t => ("\n" : Text) ++ t ++ if exception.isSome then divider else []
    | none => []
  let trace : Text := match exception with
    | some t => ("\n" : Text) ++ t
    | none => []
  fieldsLine fields ++ stack ++ trace

end EditorDocs.Log
