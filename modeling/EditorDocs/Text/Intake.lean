import EditorDocs.Text.Lines
import EditorDocs.Text.Utf8
/-!
# Reading a text file in portions

A text file is read in portions of a fixed number of characters. The bytes are fetched in blocks and
decoded block by block; what a portion leaves over is there for the next one. A character that a
block breaks off in is completed by the next block, and so is a line break that begins with a
carriage return at its end.

Undecodable bytes are noticed when their block is fetched, and their position is counted from the
start of that block, or of the character that the block before broke off in. The portion for which
the block was fetched cannot be read at all then.
-/

namespace EditorDocs

/-- A text file of which some has been read. -/
structure Intake where
  /-- The bytes that have not been fetched. -/
  bytes : Bytes
  /-- The bytes that begin a character at the end of what has been fetched. -/
  begun : Bytes := []
  /-- A carriage return stands at the end of what has been decoded. -/
  holdsReturn : Bool := false
  /-- The characters that have been decoded and belong to no portion yet. -/
  ready : Text := []
  /-- The number of bytes in the last block. -/
  blockBytes : Nat := 0
  /-- The number of characters that the last block gave. -/
  blockCharacters : Nat := 0

namespace Intake

/-- The number of characters in a portion. -/
def portionSize : Nat := 4096

/-- The least number of bytes that are fetched at once. -/
def leastBlock : Nat := 8192

/-- The number of bytes that are fetched for so many characters: if the characters of the last block
take as many bytes as they did, they suffice. -/
def blockSize (i : Intake) (wanted : Nat) : Nat :=
  max leastBlock
    (if i.blockCharacters = 0 then 0 else i.blockBytes * wanted / i.blockCharacters)

/-- The text of a block, given whether the text before ended with a carriage return that was held
back, and whether its own end is held back. -/
def holdReturn (held isLast : Bool) (t : Text) : Text × Bool :=
  let gives := isLast || !t.isEmpty
  let t := if held && gives then CodePoint.ofNat 0x0D :: t else t
  if !isLast && t.getLast? = some (CodePoint.ofNat 0x0D) then (t.dropLast, true)
  else (t, held && !gives)

/-- A block is fetched because so many characters are wanted; the result says whether there may be
more. -/
def fetch (i : Intake) (wanted : Nat) : Except Utf8.Malformed (Bool × Intake) := do
  let size := i.blockSize wanted
  let block := i.bytes.take size
  let isLast := block.isEmpty
  let (decoded, begun) ←
    if isLast then (Utf8.decode i.begun).map fun t => (t, [])
    else Utf8.decodeBeginning (i.begun ++ block)
  let (t, holdsReturn) := holdReturn i.holdsReturn isLast decoded
  let ready := t.unifyBreaks
  pure (!(isLast && ready.isEmpty), {
    bytes := i.bytes.drop size, begun, holdsReturn, ready,
    blockBytes := block.length, blockCharacters := ready.length })

/-- The portion that begins with the texts in `done`, which stand last first, and goes on for
`wanted` characters. Every round fetches a block. -/
def portionAfter (done : List Text) :
    (rounds wanted : Nat) → Intake → Except Utf8.Malformed (Text × Intake)
  | 0, _, i => .ok (done.reverse.flatten, i)
  | rounds + 1, wanted, i => do
    let done := i.ready.take wanted :: done
    let left := wanted - i.ready.length
    let i := { i with ready := i.ready.drop wanted }
    if left = 0 then pure (done.reverse.flatten, i)
    else
      let (more, i) ← i.fetch left
      if more then portionAfter done rounds left i else pure (done.reverse.flatten, i)

/-- The next portion, which is empty at the end of the file. -/
def portion (i : Intake) : Except Utf8.Malformed (Text × Intake) :=
  portionAfter [] (i.bytes.length + 3) portionSize i

/-- The portions after those in `done`, which stand last first, up to the end of the file or to the
first one that cannot be read. -/
def portionsAfter (done : List Text) :
    (rounds : Nat) → Intake → List Text × Option Utf8.Malformed
  | 0, _ => (done.reverse, none)
  | rounds + 1, i =>
    match i.portion with
    | .error m => (done.reverse, some m)
    | .ok ([], _) => (done.reverse, none)
    | .ok (t, i) => portionsAfter (t :: done) rounds i

/-- The portions of a file, up to its end or to the first one that cannot be read. -/
def portions (bytes : Bytes) : List Text × Option Utf8.Malformed :=
  portionsAfter [] (bytes.length + 2) { bytes }

end Intake

end EditorDocs
