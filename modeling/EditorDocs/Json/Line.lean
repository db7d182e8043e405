import EditorDocs.Json.Value
import EditorDocs.Json.Writer
/-!
# Reading a line of JSON

How a request is read. The grammar is that of JSON, with the words `NaN`, `Infinity` and
`-Infinity` as numbers besides. A string keeps half of a surrogate pair that is escaped on its own,
a repeated name keeps its first place and its last value, and a text that is not JSON is refused
without saying where.

Two texts are refused in another way: an integer of more than `integerLimit` digits, and
containers nested deeper than the reader's stack allows.
-/

namespace EditorDocs.Json

/-- Why a line is not read. -/
inductive ReadFault where
  /-- The text is not JSON. -/
  | malformed
  /-- An integer has too many digits. -/
  | longInteger (digits : Nat)
  /-- Containers are nested too deeply. -/
  | tooDeep
  deriving DecidableEq

namespace Line

/-- The four characters that may stand between tokens. -/
def isGap (c : CodePoint) : Bool := c.val = 0x20 || c.val = 0x09 || c.val = 0x0A || c.val = 0x0D

/-- The text after the blanks at its start. -/
def skip (t : Text) : Text := t.dropWhile isGap

/-! ## Strings -/

/-- A string falls into characters and escaped sixteen-bit units. -/
inductive Part where
  /-- A character, which may have been escaped by a letter. -/
  | plain (c : CodePoint)
  /-- A unit that was escaped by its four digits. -/
  | unit (c : CodePoint)

/-- The character that a letter after a backslash stands for. -/
def letterEscape? (c : CodePoint) : Option CodePoint :=
  if c.val = 0x22 ∨ c.val = 0x5C ∨ c.val = 0x2F then some c
  else if c.val = 0x62 then some (CodePoint.ofNat 0x08)
  else if c.val = 0x66 then some (CodePoint.ofNat 0x0C)
  else if c.val = 0x6E then some (CodePoint.ofNat 0x0A)
  else if c.val = 0x72 then some (CodePoint.ofNat 0x0D)
  else if c.val = 0x74 then some (CodePoint.ofNat 0x09)
  else none

/-- The unit that four hexadecimal digits spell. -/
def unit? (a b c d : CodePoint) : Option CodePoint := do
  let digits ← [a, b, c, d].mapM CodePoint.hexValue?
  pure (CodePoint.ofNat (Text.digitsValue 16 digits))

/-- The parts of a string up to its closing quote, and the text after that. The parts that have
been read already stand in `before`, last first. -/
def partsAfter (before : List Part) : Text → Except ReadFault (List Part × Text)
  | [] => .error .malformed
  | c :: t =>
    if c.val = 0x22 then .ok (before.reverse, t)
    else if c.val = 0x5C then
      match t with
      | [] => .error .malformed
      | e :: t =>
        match letterEscape? e with
        | some x => partsAfter (.plain x :: before) t
        | none =>
          if e.val = 0x75 then
            match t with
            | a :: b :: c :: d :: t =>
              match unit? a b c d with
              | some u => partsAfter (.unit u :: before) t
              | none => .error .malformed
            | _ => .error .malformed
          else .error .malformed
    else if c.val < 0x20 then .error .malformed
    else partsAfter (.plain c :: before) t

/-- The text of the parts, after the text that stands in `before`, last first: two escaped units
that are a surrogate pair become one character. -/
def joinAfter (before : Text) : List Part → Text
  | [] => before.reverse
  | .plain c :: ps => joinAfter (c :: before) ps
  | [.unit u] => joinAfter (u :: before) []
  | .unit u :: .plain c :: ps => joinAfter (c :: u :: before) ps
  | .unit u :: .unit v :: ps =>
    if u.isHighSurrogate && v.isLowSurrogate then
      joinAfter (CodePoint.ofSurrogates u v :: before) ps
    else joinAfter (u :: before) (.unit v :: ps)

/-- The string after an opening quote, and the text after its closing quote. -/
def string (t : Text) : Except ReadFault (Text × Text) :=
  (partsAfter [] t).map fun (parts, rest) => (joinAfter [] parts, rest)

/-! ## Numbers and words -/

/-- The digits at the start of the text, and the text after them. -/
def digits (t : Text) : Text × Text := t.span CodePoint.isDigit

/-- The fraction at the start of the text, if a point with a digit after it stands there. -/
def fraction? : Text → Option Text × Text
  | c :: t =>
    match digits t with
    | ([], _) => (none, c :: t)
    | (ds, rest) => if c.val = 0x2E then (some ds, rest) else (none, c :: t)
  | [] => (none, [])

/-- The exponent at the start of the text, if an `e` with a number after it stands there. -/
def exponent? (t : Text) : Option (Bool × Text) × Text :=
  match t with
  | e :: rest =>
    if e.val = 0x65 ∨ e.val = 0x45 then
      let (negative, rest) := match rest with
        | s :: rest' => if s.val = 0x2D then (true, rest')
            else if s.val = 0x2B then (false, rest') else (false, rest)
        | [] => (false, [])
      match digits rest with
      | ([], _) => (none, t)
      | (ds, rest) => (some (negative, ds), rest)
    else (none, t)
  | [] => (none, t)

/-- The number at the start of the text, whose sign has been read. A zero is not followed by
further digits. -/
def number (negative : Bool) (t : Text) : Except ReadFault (Value × Text) :=
  let (whole, rest) := match t with
    | c :: rest => if c.val = 0x30 then ([c], rest) else digits t
    | [] => ([], [])
  if whole.isEmpty then .error .malformed
  else
    let (fraction, rest) := fraction? rest
    let (exponent, rest) := exponent? rest
    let numeral : Numeral := ⟨negative, whole, fraction, exponent⟩
    if numeral.isInteger && integerLimit < whole.length then .error (.longInteger whole.length)
    else .ok (numeral.value, rest)

/-- The value of a word, if the text begins with it. -/
def word (spelling : Text) (v : Value) (t : Text) : Except ReadFault (Value × Text) :=
  if t.startsWith spelling then .ok (v, t.drop spelling.length) else .error .malformed

/-! ## Values -/

/-- The items of a list after the first bracket or a comma; `item` reads one. Every round reads a
character at least, so that `rounds`, of which a character is taken away every time, does not run
out before the text does. -/
def items (item : Text → Except ReadFault (Value × Text)) :
    (rounds : Text) → Text → Except ReadFault (List Value × Text)
  | [], _ => .error .malformed
  | _ :: rounds, t => do
    let (v, t) ← item (skip t)
    match skip t with
    | c :: t =>
      if c.val = 0x5D then pure ([v], t)
      else if c.val = 0x2C then do
        let (vs, t) ← items item rounds t
        pure (v :: vs, t)
      else .error .malformed
    | [] => .error .malformed

/-- The members of an object after the first brace or a comma; `item` reads a value. -/
def members (item : Text → Except ReadFault (Value × Text)) :
    (rounds : Text) → Text → Except ReadFault (List (Text × Value) × Text)
  | [], _ => .error .malformed
  | _ :: rounds, t =>
    match skip t with
    | q :: t =>
      if q.val = 0x22 then do
        let (name, t) ← string t
        match skip t with
        | c :: t =>
          if c.val = 0x3A then do
            let (v, t) ← item (skip t)
            match skip t with
            | c :: t =>
              if c.val = 0x7D then pure ([(name, v)], t)
              else if c.val = 0x2C then do
                let (ms, t) ← members item rounds t
                pure ((name, v) :: ms, t)
              else .error .malformed
            | [] => .error .malformed
          else .error .malformed
        | [] => .error .malformed
      else .error .malformed
    | [] => .error .malformed

/-- The value at the start of the text, with containers nested at most `budget` deep. -/
def value : (budget : Nat) → Text → Except ReadFault (Value × Text)
  | _, [] => .error .malformed
  | budget, c :: t =>
    if c.val = 0x22 then (string t).map fun (s, rest) => (.string s, rest)
    else if c.val = 0x5B then
      match budget with
      | 0 => .error .tooDeep
      | inner + 1 =>
        match skip t with
        | [] => .error .malformed
        | d :: rest =>
          if d.val = 0x5D then .ok (.list [], rest)
          else (items (value inner) t t).map fun (vs, rest) => (.list vs, rest)
    else if c.val = 0x7B then
      match budget with
      | 0 => .error .tooDeep
      | inner + 1 =>
        match skip t with
        | [] => .error .malformed
        | d :: rest =>
          if d.val = 0x7D then .ok (.object [], rest)
          else (members (value inner) t t).map fun (ms, rest) =>
            (.object (Table.ofPairs ms), rest)
    else if c.val = 0x6E then word "null" .null (c :: t)
    else if c.val = 0x74 then word "true" (.bool true) (c :: t)
    else if c.val = 0x66 then word "false" (.bool false) (c :: t)
    else if c.val = 0x4E then word "NaN" (.float .nan) (c :: t)
    else if c.val = 0x49 then word "Infinity" (.float (.infinity false)) (c :: t)
    else if c.val = 0x2D then
      if Text.startsWith t "I" then word "Infinity" (.float (.infinity true)) t else number true t
    else number false (c :: t)

end Line

/-- The value that a line holds: blanks, the value, blanks, and nothing else. Containers are nested
at most `budget` deep. -/
def readLine (budget : Nat) (t : Text) : Except ReadFault Value := do
  let (v, rest) ← Line.value budget (Line.skip t)
  if (Line.skip rest).isEmpty then pure v else .error .malformed

end EditorDocs.Json
