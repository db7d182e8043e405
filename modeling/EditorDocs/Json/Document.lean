import EditorDocs.Json.Value
import EditorDocs.Text.Utf8
/-!
# Reading a JSON document

How an index document is read: from bytes, and with the place of the first offence. The grammar is
that of JSON, with the words `NaN`, `Infinity` and `-Infinity` as numbers besides. Strings have to
be UTF-8 and may hold surrogates only as escaped pairs, numbers have at most `wholeLimit` digits
before the point, and containers are nested at most `depthLimit` deep. Whether a minus sign counts
among the digits depends on the `Reader`.

Every reading function gives what it read and the bytes after it. An offence is placed by the
number of bytes from it to the end, from which `Offence.location` finds the line and the column.
-/

namespace EditorDocs.Json

/-- What is wrong with a document. -/
inductive Complaint where
  /-- No value begins with this byte. -/
  | expectedValue
  /-- A word is misspelled. -/
  | expectedWord
  /-- The input ends where a value is wanted or within one. -/
  | endInValue
  /-- The input ends within a list. -/
  | endInList
  /-- The input ends within an object. -/
  | endInObject
  /-- The input ends within a string. -/
  | endInString
  /-- An item of a list is followed by something else than a comma or the end. -/
  | expectedListEnd
  /-- A member of an object is followed by something else than a comma or the end. -/
  | expectedObjectEnd
  /-- The name of a member is not followed by a colon. -/
  | expectedColon
  /-- The name of a member is not a string. -/
  | expectedName
  /-- A comma is followed by the end of the container. -/
  | trailingComma
  /-- Something follows the document. -/
  | trailingCharacters
  /-- A number lacks a digit, or begins with a zero that another digit follows. -/
  | invalidNumber
  /-- A number has too many digits. -/
  | numberOutOfRange
  /-- A string holds a control character. -/
  | controlCharacter
  /-- A backslash is followed by no escape. -/
  | invalidEscape
  /-- A string is not UTF-8. -/
  | invalidCodePoint
  /-- The first half of a surrogate pair is followed by something else than an escape. -/
  | endOfHexEscape
  /-- Half of a surrogate pair stands alone. -/
  | loneSurrogate
  /-- Containers are nested too deeply. -/
  | tooDeep
  deriving DecidableEq, Repr

/-- The wording of a complaint. -/
def Complaint.message : Complaint → Text
  | .expectedValue => "expected value"
  | .expectedWord => "expected ident"
  | .endInValue => "EOF while parsing a value"
  | .endInList => "EOF while parsing a list"
  | .endInObject => "EOF while parsing an object"
  | .endInString => "EOF while parsing a string"
  | .expectedListEnd => "expected `,` or `]`"
  | .expectedObjectEnd => "expected `,` or `\x7d`"
  | .expectedColon => "expected `:`"
  | .expectedName => "key must be a string"
  | .trailingComma => "trailing comma"
  | .trailingCharacters => "trailing characters"
  | .invalidNumber => "invalid number"
  | .numberOutOfRange => "number out of range"
  | .controlCharacter => "control character (\\u0000-\\u001F) found while parsing a string"
  | .invalidEscape => "invalid escape"
  | .invalidCodePoint => "invalid unicode code point"
  | .endOfHexEscape => "unexpected end of hex escape"
  | .loneSurrogate => "lone leading surrogate in hex escape"
  | .tooDeep => "recursion limit exceeded"

/-- An offence: what is wrong, and how many bytes there are from its place to the end. -/
structure Offence where
  /-- What is wrong. -/
  complaint : Complaint
  /-- The number of bytes from the offending one to the end; none if the input ended too soon. -/
  left : Nat
  deriving DecidableEq

/-- How a reader of documents measures numbers, in which the versions of the reader differ. -/
structure Reader where
  /-- A minus sign counts among the digits before the point. -/
  countsSign : Bool
  deriving DecidableEq

/-- The number of digits that may stand before the point of a number. -/
def wholeLimit : Nat := 4300

/-- The depth to which containers that hold something may be nested in a document. -/
def depthLimit : Nat := 200

namespace Document

/-- The offence at the first of the bytes. -/
def refuse {α : Type} (complaint : Complaint) (at_ : Bytes) : Except Offence α :=
  .error ⟨complaint, at_.length⟩

/-- The four bytes that may stand between tokens. -/
def isGap (b : UInt8) : Bool := b = 0x20 || b = 0x09 || b = 0x0A || b = 0x0D

/-- The bytes after the blanks at their start. -/
def skip (bs : Bytes) : Bytes := bs.dropWhile isGap

/-- A byte as a character of ASCII. -/
def ascii (b : UInt8) : CodePoint := CodePoint.ofNat b.toNat

/-! ## Strings -/

/-- The byte that a letter after a backslash stands for. -/
def letterEscape? (b : UInt8) : Option UInt8 :=
  if b = 0x22 ∨ b = 0x5C ∨ b = 0x2F then some b
  else if b = 0x62 then some 0x08
  else if b = 0x66 then some 0x0C
  else if b = 0x6E then some 0x0A
  else if b = 0x72 then some 0x0D
  else if b = 0x74 then some 0x09
  else none

/-- The number that hexadecimal digits spell, `after` following them and `n` having been read. -/
def hexNumber (n : Nat) (after : Bytes) : Bytes → Except Offence Nat
  | [] => .ok n
  | b :: bs =>
    match (ascii b).hexValue? with
    | some d => hexNumber (n * 16 + d) after bs
    | none => .error ⟨.invalidEscape, bs.length + 1 + after.length⟩

/-- The bytes of the character whose first half of a surrogate pair was escaped as `high`, and the
bytes after it. The second half has to follow as another escape. -/
def secondHalf (high : Nat) : Bytes → Except Offence (Bytes × Bytes)
  | s :: u :: rest =>
    if s = 0x5C then
      if u = 0x75 then
        match rest with
        | l1 :: l2 :: l3 :: l4 :: rest => do
          let low ← hexNumber 0 rest [l1, l2, l3, l4]
          if 0xDC00 ≤ low ∧ low < 0xE000 then
            pure (Utf8.encodeNat (0x10000 + (high - 0xD800) * 0x400 + (low - 0xDC00)), rest)
          else .error ⟨.loneSurrogate, rest.length + 1⟩
        | _ => refuse .endInString []
      else refuse .endOfHexEscape (u :: rest)
    else refuse .endOfHexEscape (s :: u :: rest)
  | [s] => if s = 0x5C then refuse .endInString [] else refuse .endOfHexEscape [s]
  | [] => refuse .endInString []

/-- The bytes of the character that digits after `\u` stand for, and the bytes after it. -/
def unitEscape : Bytes → Except Offence (Bytes × Bytes)
  | h1 :: h2 :: h3 :: h4 :: rest => do
    let n ← hexNumber 0 rest [h1, h2, h3, h4]
    if 0xDC00 ≤ n ∧ n < 0xE000 then .error ⟨.loneSurrogate, rest.length + 1⟩
    else if 0xD800 ≤ n ∧ n < 0xDC00 then secondHalf n rest
    else pure (Utf8.encodeNat n, rest)
  | _ => refuse .endInString []

/-- The bytes that an escape stands for, whose backslash has been read, and the bytes after it. -/
def escape : Bytes → Except Offence (Bytes × Bytes)
  | [] => refuse .endInString []
  | e :: rest =>
    match letterEscape? e with
    | some x => .ok ([x], rest)
    | none => if e = 0x75 then unitEscape rest else refuse .invalidEscape (e :: rest)

/-- The bytes of a string up to its closing quote, with the escapes resolved, and the bytes after
the quote. What has been read already stands in `before`, last first. Every round reads a byte at
least, so that `rounds`, of which a byte is taken away every time, does not run out before the
input does. -/
def stringAfter (before : Bytes) : (rounds : Bytes) → Bytes → Except Offence (Bytes × Bytes)
  | [], _ => refuse .endInString []
  | _ :: _, [] => refuse .endInString []
  | _ :: rounds, b :: bs =>
    if b = 0x22 then .ok (before.reverse, bs)
    else if b = 0x5C then do
      let (content, rest) ← escape bs
      stringAfter (content.reverse ++ before) rounds rest
    else if b < 0x20 then refuse .controlCharacter (b :: bs)
    else stringAfter (b :: before) rounds bs

/-- The string after an opening quote, and the bytes after its closing quote. Bytes that are not
UTF-8 are placed by counting them from the start of the string with the escapes resolved. -/
def string (bs : Bytes) : Except Offence (Text × Bytes) := do
  let (content, rest) ← stringAfter [] bs bs
  match Utf8.decode content with
  | .ok t => pure (t, rest)
  | .error m => .error ⟨.invalidCodePoint, bs.length - m.position⟩

/-! ## Numbers and words -/

/-- The byte is a decimal digit. -/
def isDigit (b : UInt8) : Bool := 0x30 ≤ b && b ≤ 0x39

/-- The digits at the start, one at least, and the bytes after them. -/
def digits (bs : Bytes) : Except Offence (Text × Bytes) :=
  match bs.span isDigit with
  | ([], []) => refuse .endInValue []
  | ([], rest) => refuse .invalidNumber rest
  | (ds, rest) => .ok (ds.map ascii, rest)

/-- The digits before the point, where `before` characters count among them that have been read. A
zero is not followed by further digits. -/
def whole (before : Nat) (bs : Bytes) : Except Offence (Text × Bytes) := do
  let (ds, rest) ← digits bs
  match ds with
  | z :: _ :: _ =>
    if z.val = 0x30 then refuse .invalidNumber (bs.drop 1)
    else if wholeLimit < before + ds.length then
      .error ⟨.numberOutOfRange, before + bs.length - (wholeLimit + 1)⟩
    else pure (ds, rest)
  | _ => pure (ds, rest)

/-- The fraction, if a point stands at the start. -/
def fraction (bs : Bytes) : Except Offence (Option Text × Bytes) :=
  match bs with
  | b :: rest => if b = 0x2E then (digits rest).map fun (ds, r) => (some ds, r) else .ok (none, bs)
  | [] => .ok (none, [])

/-- The exponent, if an `e` stands at the start. -/
def exponent (bs : Bytes) : Except Offence (Option (Bool × Text) × Bytes) :=
  match bs with
  | b :: rest =>
    if b = 0x65 ∨ b = 0x45 then
      let (negative, rest) := match rest with
        | s :: r => if s = 0x2D then (true, r) else if s = 0x2B then (false, r) else (false, rest)
        | [] => (false, [])
      (digits rest).map fun (ds, r) => (some (negative, ds), r)
    else .ok (none, bs)
  | [] => .ok (none, [])

/-- How many characters of the sign a reader counts among the digits. -/
def signLength (r : Reader) (negative : Bool) : Nat := if negative && r.countsSign then 1 else 0

/-- The number at the start, whose sign has been read. -/
def number (r : Reader) (negative : Bool) (bs : Bytes) : Except Offence (Value × Bytes) := do
  let (w, rest) ← whole (signLength r negative) bs
  let (f, rest) ← fraction rest
  let (e, rest) ← exponent rest
  pure ((Numeral.value ⟨negative, w, f, e⟩), rest)

/-- The value of a word that is spelled at the start. -/
def word (v : Value) : (spelling : Bytes) → Bytes → Except Offence (Value × Bytes)
  | [], rest => .ok (v, rest)
  | _ :: _, [] => refuse .endInValue []
  | s :: spelling, b :: bs =>
    if s = b then word v spelling bs else refuse .expectedWord (b :: bs)

/-- The bytes of an ASCII word. -/
def spelled (s : String) : Bytes := s.toUTF8.toList

/-! ## Values -/

/-- The items of a list, the first of which stands at the start; `item` reads one. Here, too, every
round reads a byte at least. -/
def items (item : Bytes → Except Offence (Value × Bytes)) :
    (rounds : Bytes) → Bytes → Except Offence (List Value × Bytes)
  | [], _ => refuse .endInList []
  | _ :: rounds, bs => do
    let (v, bs) ← item bs
    match skip bs with
    | [] => refuse .endInList []
    | c :: bs =>
      if c = 0x5D then pure ([v], bs)
      else if c = 0x2C then
        match skip bs with
        | [] => refuse .endInValue []
        | d :: bs =>
          if d = 0x5D then refuse .trailingComma (d :: bs)
          else do
            let (vs, bs) ← items item rounds (d :: bs)
            pure (v :: vs, bs)
      else refuse .expectedListEnd (c :: bs)

/-- The members of an object, the first name of which stands at the start; `item` reads a value. -/
def members (item : Bytes → Except Offence (Value × Bytes)) :
    (rounds : Bytes) → Bytes → Except Offence (List (Text × Value) × Bytes)
  | [], _ => refuse .endInObject []
  | _ :: _, [] => refuse .endInValue []
  | _ :: rounds, q :: bs =>
    if q = 0x22 then do
      let (name, bs) ← string bs
      match skip bs with
      | [] => refuse .endInObject []
      | c :: bs =>
        if c = 0x3A then do
          let (v, bs) ← item (skip bs)
          match skip bs with
          | [] => refuse .endInObject []
          | c :: bs =>
            if c = 0x7D then pure ([(name, v)], bs)
            else if c = 0x2C then
              match skip bs with
              | [] => refuse .endInValue []
              | d :: bs =>
                if d = 0x7D then refuse .trailingComma (d :: bs)
                else do
                  let (ms, bs) ← members item rounds (d :: bs)
                  pure ((name, v) :: ms, bs)
            else refuse .expectedObjectEnd (c :: bs)
        else refuse .expectedColon (c :: bs)
    else refuse .expectedName (q :: bs)

/-- What stands in a container that may hold nothing: it is refused where it begins. -/
def beyond {α : Type} : Bytes → Except Offence α
  | [] => refuse .endInValue []
  | b :: bs => refuse .tooDeep (b :: bs)

/-- The value at the start; `item` reads what stands in a container. -/
def valueWith (r : Reader) (item : Bytes → Except Offence (Value × Bytes)) :
    Bytes → Except Offence (Value × Bytes)
  | [] => refuse .endInValue []
  | b :: bs =>
    if b = 0x22 then (string bs).map fun (s, rest) => (.string s, rest)
    else if b = 0x5B then
      match skip bs with
      | [] => refuse .endInList []
      | d :: rest =>
        if d = 0x5D then .ok (.list [], rest)
        else (items item bs (d :: rest)).map fun (vs, rest) => (.list vs, rest)
    else if b = 0x7B then
      match skip bs with
      | [] => refuse .endInObject []
      | d :: rest =>
        if d = 0x7D then .ok (.object [], rest)
        else (members item bs (d :: rest)).map fun (ms, rest) =>
          (.object (Table.ofPairs ms), rest)
    else if b = 0x6E then word .null (spelled "null") (b :: bs)
    else if b = 0x74 then word (.bool true) (spelled "true") (b :: bs)
    else if b = 0x66 then word (.bool false) (spelled "false") (b :: bs)
    else if b = 0x4E then word (.float .nan) (spelled "NaN") (b :: bs)
    else if b = 0x49 then word (.float (.infinity false)) (spelled "Infinity") (b :: bs)
    else if b = 0x2D then
      match bs with
      | c :: _ =>
        if c = 0x49 then word (.float (.infinity true)) (spelled "Infinity") bs
        else number r true bs
      | [] => number r true bs
    else if isDigit b then number r false (b :: bs)
    else refuse .expectedValue (b :: bs)

/-- The value at the start, with containers that hold something nested at most `budget` deep. -/
def value (r : Reader) : (budget : Nat) → Bytes → Except Offence (Value × Bytes)
  | 0 => valueWith r beyond
  | budget + 1 => valueWith r (value r budget)

end Document

/-- The value that a document holds: blanks, the value, blanks, and nothing else. -/
def readDocument (r : Reader) (bs : Bytes) : Except Offence Value := do
  let (v, rest) ← Document.value r depthLimit (Document.skip bs)
  match Document.skip rest with
  | [] => pure v
  | rest => Document.refuse .trailingCharacters rest

/-! ## Places -/

/-- The line and the column of the byte at `index`. Lines are counted from one and begin after a
line feed; the column is the number of bytes of the line up to the byte and with it. A line feed
counts as the start of the next line, where it has column zero. Past the end, the column is the
number of bytes of the last line. -/
def locate (bs : Bytes) (index : Nat) : Nat × Nat :=
  let (line, start, _) := (bs.take (index + 1)).foldl
    (fun (line, start, i) b => if b = 0x0A then (line + 1, i + 1, i + 1) else (line, start, i + 1))
    (1, 0, 0)
  (line, min (index + 1) bs.length - start)

/-- The wording of an offence in a document. -/
def Offence.message (bs : Bytes) (o : Offence) : Text :=
  let (line, column) := locate bs (bs.length - o.left)
  "Invalid JSON: " ++ o.complaint.message ++ " at line " ++ Text.ofNat line ++ " column " ++
    Text.ofNat column

end EditorDocs.Json
