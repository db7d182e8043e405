import EditorDocs.Text.Basic
/-!
# UTF-8

A sequence of bytes falls into pieces: characters, and faults where no character can be read. A
fault is as long as the bytes that could have begun a character, so that every byte that rules a
character out is looked at again as the start of the next piece. Both decodings follow from the
pieces: `decode` gives the text or the first fault, and `decodeLossy` puts the replacement
character in the place of every fault.
-/

namespace EditorDocs

/-- A sequence of bytes. -/
abbrev Bytes := List UInt8

namespace Utf8

/-! ## Decoding -/

/-- Why bytes are not a character. -/
inductive Reason where
  /-- The byte cannot begin a character. -/
  | invalidStart
  /-- A character was begun and is not continued. -/
  | invalidContinuation
  /-- A character was begun and the input ends. -/
  | unexpectedEnd
  deriving DecidableEq, Repr

/-- The wording of a reason. -/
def Reason.message : Reason → Text
  | .invalidStart => "invalid start byte"
  | .invalidContinuation => "invalid continuation byte"
  | .unexpectedEnd => "unexpected end of data"

/-- A stretch of the input: a character of some width in bytes, or bytes that are none. -/
inductive Piece where
  /-- A character, and the number of bytes that spell it. -/
  | char (c : CodePoint) (width : Nat)
  /-- Bytes that spell no character. -/
  | fault (reason : Reason) (bytes : Bytes)
  deriving DecidableEq

/-- The number of bytes of a piece. -/
def Piece.width : Piece → Nat
  | .char _ n => n
  | .fault _ bytes => bytes.length

/-- A character of which some bytes have been read. -/
structure Begun where
  /-- The bytes read so far, last first. -/
  read : Bytes
  /-- The bits read so far. -/
  value : Nat
  /-- Continuation bytes that are due, one at least. -/
  due : Nat
  /-- The least value of the next byte. -/
  low : Nat
  /-- The greatest value of the next byte. -/
  high : Nat

/-- What a first byte begins: a character of its own, a longer one, or nothing. -/
inductive Start where
  /-- The byte is a character. -/
  | whole (c : CodePoint)
  /-- The byte begins a longer character. -/
  | begun (b : Begun)
  /-- The byte begins no character. -/
  | none

/-- What the byte begins. The first continuation byte is bounded more tightly after `E0`, `ED`,
`F0` and `F4`, which rules out overlong spellings, surrogates and numbers past the last one. -/
def Start.ofByte (b : UInt8) : Start :=
  let n := b.toNat
  let begin (value due low high : Nat) : Start := .begun ⟨[b], value, due, low, high⟩
  if n < 0x80 then .whole (CodePoint.ofNat n)
  else if n < 0xC2 then .none
  else if n < 0xE0 then begin (n - 0xC0) 1 0x80 0xBF
  else if n < 0xF0 then
    begin (n - 0xE0) 2 (if n = 0xE0 then 0xA0 else 0x80) (if n = 0xED then 0x9F else 0xBF)
  else if n < 0xF5 then
    begin (n - 0xF0) 3 (if n = 0xF0 then 0x90 else 0x80) (if n = 0xF4 then 0x8F else 0xBF)
  else .none

/-- The pieces of the input after those in `done`, which stand last first. A character may have
been begun. -/
def piecesAfter (done : List Piece) : Option Begun → Bytes → List Piece
  | none, [] => done.reverse
  | some p, [] => (.fault .unexpectedEnd p.read.reverse :: done).reverse
  | none, b :: rest =>
    match Start.ofByte b with
    | .whole c => piecesAfter (.char c 1 :: done) none rest
    | .begun p => piecesAfter done (some p) rest
    | .none => piecesAfter (.fault .invalidStart [b] :: done) none rest
  | some p, b :: rest =>
    if p.low ≤ b.toNat ∧ b.toNat ≤ p.high then
      let value := p.value * 0x40 + (b.toNat - 0x80)
      if p.due ≤ 1 then
        piecesAfter (.char (CodePoint.ofNat value) (p.read.length + 1) :: done) none rest
      else piecesAfter done (some ⟨b :: p.read, value, p.due - 1, 0x80, 0xBF⟩) rest
    else
      let done := .fault .invalidContinuation p.read.reverse :: done
      match Start.ofByte b with
      | .whole c => piecesAfter (.char c 1 :: done) none rest
      | .begun q => piecesAfter done (some q) rest
      | .none => piecesAfter (.fault .invalidStart [b] :: done) none rest

/-- The pieces into which the bytes fall. -/
def pieces (bytes : Bytes) : List Piece := piecesAfter [] none bytes

/-- Where and why bytes are not UTF-8. -/
structure Malformed where
  /-- The offending bytes, one at least. -/
  bytes : Bytes
  /-- How many bytes stand before them. -/
  position : Nat
  /-- What is wrong with them. -/
  reason : Reason
  deriving DecidableEq

/-- The wording of a failure to decode. -/
def Malformed.message (m : Malformed) : Text :=
  let place : Text := match m.bytes with
    | [b] => "byte 0x" ++ Text.ofHex 2 b.toNat ++ " in position " ++ Text.ofNat m.position
    | bytes => "bytes in position " ++ Text.ofNat m.position ++ "-" ++
        Text.ofNat (m.position + bytes.length - 1)
  "'utf-8' codec can't decode " ++ place ++ ": " ++ m.reason.message

/-- The characters of the pieces after those in `before`, which stand last first, or the first
fault; `position` bytes have been read. -/
def charactersAfter (before : Text) (position : Nat) : List Piece → Except Malformed Text
  | [] => .ok before.reverse
  | .char c n :: rest => charactersAfter (c :: before) (position + n) rest
  | .fault reason bytes :: _ => .error ⟨bytes, position, reason⟩

/-- The text that the bytes spell, or the first place where they spell none. -/
def decode (bytes : Bytes) : Except Malformed Text := charactersAfter [] 0 (pieces bytes)

/-- The characters of the pieces after those in `before`, which stand last first, and the bytes at
the end that begin a character; or the first fault. `position` bytes have been read. -/
def beginningAfter (before : Text) (position : Nat) :
    List Piece → Except Malformed (Text × Bytes)
  | [] => .ok (before.reverse, [])
  | .char c n :: rest => beginningAfter (c :: before) (position + n) rest
  | .fault .unexpectedEnd bytes :: _ => .ok (before.reverse, bytes)
  | .fault reason bytes :: _ => .error ⟨bytes, position, reason⟩

/-- The text that the bytes spell when more bytes may follow, and the bytes at the end that begin a
character; or the first place where they spell none. -/
def decodeBeginning (bytes : Bytes) : Except Malformed (Text × Bytes) :=
  beginningAfter [] 0 (pieces bytes)

/-- The text that the bytes spell, with the replacement character for every fault. -/
def decodeLossy (bytes : Bytes) : Text :=
  (pieces bytes).map fun
    | .char c _ => c
    | .fault _ _ => CodePoint.replacement

/-! ## Encoding -/

/-- The bytes that spell a number below `0x110000`; for a surrogate they are no valid UTF-8. -/
def encodeNat (n : Nat) : Bytes :=
  if n < 0x80 then [UInt8.ofNat n]
  else if n < 0x800 then [UInt8.ofNat (0xC0 + n / 0x40), UInt8.ofNat (0x80 + n % 0x40)]
  else if n < 0x10000 then
    [UInt8.ofNat (0xE0 + n / 0x1000), UInt8.ofNat (0x80 + n / 0x40 % 0x40),
      UInt8.ofNat (0x80 + n % 0x40)]
  else
    [UInt8.ofNat (0xF0 + n / 0x40000), UInt8.ofNat (0x80 + n / 0x1000 % 0x40),
      UInt8.ofNat (0x80 + n / 0x40 % 0x40), UInt8.ofNat (0x80 + n % 0x40)]

/-- The bytes of a text, surrogates being spelled like other code points. -/
def encodeAll (t : Text) : Bytes := t.flatMap fun c => encodeNat c.val

/-- A run of surrogates, which UTF-8 cannot hold. -/
structure Unencodable where
  /-- The first surrogate of the run. -/
  first : CodePoint
  /-- How many code points stand before the run. -/
  position : Nat
  /-- The number of surrogates in the run. -/
  length : Nat
  deriving DecidableEq

/-- The wording of a failure to encode. -/
def Unencodable.message (u : Unencodable) : Text :=
  let place : Text :=
    if u.length = 1 then
      "character '" ++ Text.quoteOneSurrogate u.first ++ "' in position " ++ Text.ofNat u.position
    else
      "characters in position " ++ Text.ofNat u.position ++ "-" ++
        Text.ofNat (u.position + u.length - 1)
  "'utf-8' codec can't encode " ++ place ++ ": surrogates not allowed"
where
  /-- A surrogate as its four hexadecimal digits. -/
  Text.quoteOneSurrogate (c : CodePoint) : Text := "\\u" ++ Text.ofHex 4 c.val

/-- The first run of code points that satisfy `bad`, `position` code points standing before the
text. A run is as long as the surrogates that follow its start. -/
def firstRun (bad : CodePoint → Bool) (position : Nat) : Text → Option Unencodable
  | [] => none
  | c :: t =>
    if bad c then some ⟨c, position, (t.takeWhile CodePoint.isSurrogate).length + 1⟩
    else firstRun bad (position + 1) t

/-- The bytes that spell the text, or the first run of surrogates in it. -/
def encode (t : Text) : Except Unencodable Bytes :=
  match firstRun CodePoint.isSurrogate 0 t with
  | some run => .error run
  | none => .ok (encodeAll t)

end Utf8

end EditorDocs
