import EditorDocs.Yaml.Tag
/-!
# From text to tokens

The lexer moves through a document and emits tokens. Outside of brackets it keeps the columns of the
blocks that are open, and emits the end of a block when a token stands further to the left.

A key is recognised by the colon behind it. So wherever a key may begin, its position among the
tokens is remembered as a candidate; when a colon follows on the same line, the mark of a key is
put in front of it afterwards, and so is the start of a block mapping if the key stands further to
the right than the block around it. Until then neither the candidate nor what follows it is certain.
-/

namespace EditorDocs.Yaml

/-- A place where a key may have begun. -/
structure Candidate where
  /-- The number of tokens that stand before it. -/
  position : Nat
  /-- Nothing but a key can stand here. -/
  required : Bool
  /-- How many characters stand before it. -/
  index : Nat
  /-- Its line. -/
  line : Nat
  /-- Its column. -/
  column : Nat

/-- The number of characters that a key may have. -/
def keyLengthLimit : Nat := 1024

/-- The lexer at work. -/
structure Lexer where
  /-- The position in the document. -/
  cursor : Cursor
  /-- The tokens so far. -/
  tokens : Array Token
  /-- The column of the innermost open block, `-1` outside of all blocks. -/
  indent : Int
  /-- The columns of the blocks around it. -/
  outer : List Int
  /-- A key may begin here. -/
  keyAllowed : Bool
  /-- The candidate at the innermost level of brackets. -/
  candidate : Option Candidate
  /-- The candidates at the levels around it, one for every open bracket. -/
  suspended : List (Option Candidate)

namespace Lexer

/-- The lexer at the start of a document. -/
def start (s : Source) : Lexer := ⟨Cursor.start s, #[], -1, [], true, none, []⟩

/-- The lexer is within brackets. -/
def inFlow (l : Lexer) : Bool := !l.suspended.isEmpty

/-- The lexer with one more token, at another position. -/
def emit (l : Lexer) (t : Token) (c : Cursor) : Lexer :=
  { l with tokens := l.tokens.push t, cursor := c }

/-! ## Candidates -/

/-- The candidate is too far back: on an earlier line, or too long ago. -/
def isStale (c : Cursor) (k : Candidate) : Bool :=
  k.line != c.line || keyLengthLimit < c.index - k.index

/-- The candidate, unless it is too far back; one that had to be a key must not be. -/
def refresh (c : Cursor) : Option Candidate → Except Failure (Option Candidate)
  | none => .ok none
  | some k =>
    if isStale c k then (if k.required then malformed else .ok none) else .ok (some k)

/-- The lexer without the candidates that are too far back. -/
def dropStale (l : Lexer) : Except Failure Lexer := do
  let candidate ← refresh l.cursor l.candidate
  let suspended ← l.suspended.mapM (refresh l.cursor)
  pure { l with candidate, suspended }

/-- The lexer without a candidate at this level; one that had to be a key must not be there. -/
def dropCandidate (l : Lexer) : Except Failure Lexer :=
  match l.candidate with
  | some k => if k.required then malformed else .ok { l with candidate := none }
  | none => .ok l

/-- The lexer with a candidate at the position, if a key may begin there. -/
def saveCandidate (l : Lexer) : Except Failure Lexer :=
  if l.keyAllowed then do
    let c := l.cursor
    let required := !l.inFlow && l.indent = c.column
    let l ← l.dropCandidate
    pure { l with candidate := some ⟨l.tokens.size, required, c.index, c.line, c.column⟩ }
  else .ok l

/-! ## Blocks -/

/-- Blocks are closed until the innermost one does not stand to the right of `column`. -/
def closeBlocks (column : Int) (l : Lexer) : Lexer :=
  if l.inFlow then l
  else go l.outer l
where
  /-- The blocks whose columns stand in the list are those that may be closed. -/
  go : List Int → Lexer → Lexer
    | [], l => if column < l.indent then
        { l with indent := -1, outer := [], tokens := l.tokens.push .blockEnd } else l
    | i :: rest, l => if column < l.indent then
        go rest { l with indent := i, outer := rest, tokens := l.tokens.push .blockEnd } else l

/-- The lexer within a new block at `column`, if that is to the right of the innermost one, and
whether it is. -/
def openBlock (column : Nat) (l : Lexer) : Bool × Lexer :=
  if l.indent < column then (true, { l with indent := column, outer := l.indent :: l.outer })
  else (false, l)

/-- A token in a block of its own: `start` is emitted if the token stands further to the right than
the innermost block. -/
def startBlock (start : Token) (l : Lexer) : Except Failure Lexer :=
  if l.inFlow then .ok l
  else if !l.keyAllowed then malformed
  else match l.openBlock l.cursor.column with
    | (true, l) => .ok { l with tokens := l.tokens.push start }
    | (false, l) => .ok l

/-! ## Tokens -/

/-- A token is put among the tokens at a position. -/
def insert (l : Lexer) (position : Nat) (t : Token) : Lexer :=
  { l with tokens := l.tokens.insertIdxIfInBounds position t }

/-- All blocks are closed, as at the end of a document. -/
def closeDocument (l : Lexer) : Except Failure Lexer := do
  let l ← (l.closeBlocks (-1)).dropCandidate
  pure { l with keyAllowed := false }

/-- A mark of three characters between documents. -/
def division (t : Token) (l : Lexer) : Except Failure Lexer := do
  let l ← l.closeDocument
  pure (l.emit t (l.cursor.advance 3))

/-- An opening bracket or brace. -/
def openFlow (t : Token) (l : Lexer) : Except Failure Lexer := do
  let l ← l.saveCandidate
  let l := { l with suspended := l.candidate :: l.suspended, candidate := none, keyAllowed := true }
  pure (l.emit t l.cursor.next)

/-- A closing bracket or brace. -/
def closeFlow (t : Token) (l : Lexer) : Except Failure Lexer := do
  let l ← l.dropCandidate
  match l.suspended with
  | [] => malformed
  | k :: rest =>
    let l := { l with suspended := rest, candidate := k, keyAllowed := false }
    pure (l.emit t l.cursor.next)

/-- A comma between the entries of brackets. -/
def flowEntry (l : Lexer) : Except Failure Lexer := do
  let l ← { l with keyAllowed := true }.dropCandidate
  pure (l.emit .flowEntry l.cursor.next)

/-- The dash in front of an entry. -/
def blockEntry (l : Lexer) : Except Failure Lexer := do
  let l ← l.startBlock .blockSequenceStart
  let l ← { l with keyAllowed := true }.dropCandidate
  pure (l.emit .blockEntry l.cursor.next)

/-- A question mark in front of a key. -/
def explicitKey (l : Lexer) : Except Failure Lexer := do
  let l ← l.startBlock .blockMappingStart
  let l ← { l with keyAllowed := !l.inFlow }.dropCandidate
  pure (l.emit .key l.cursor.next)

/-- A colon in front of a value: the candidate, if there is one, was a key. -/
def value (l : Lexer) : Except Failure Lexer :=
  match l.candidate with
  | some k =>
    let l := { l with candidate := none, keyAllowed := false }.insert k.position .key
    let l := if l.inFlow then l else match l.openBlock k.column with
      | (true, l) => l.insert k.position .blockMappingStart
      | (false, l) => l
    .ok (l.emit .value l.cursor.next)
  | none => do
    let l ← l.startBlock .blockMappingStart
    let l := { l with keyAllowed := !l.inFlow }
    pure (l.emit .value l.cursor.next)

/-- A token with which a key may begin. -/
def word (read : Lexer → Except Failure (Token × Cursor)) (l : Lexer) : Except Failure Lexer := do
  let l ← l.saveCandidate
  let (t, c) ← read l
  pure ({ l with keyAllowed := false }.emit t c)

/-- A plain scalar. -/
def plain (l : Lexer) : Except Failure Lexer := do
  let l ← l.saveCandidate
  let s := plainScalar l.inFlow (l.indent + 1) l.cursor
  if s.after.sees (· = (':' : CodePoint)) then
    let _ ← s.after.next.readable
  pure ({ l with keyAllowed := s.breaksLine }.emit (.scalar s.text true) s.after)

/-- A block scalar. -/
def block (folded : Bool) (l : Lexer) : Except Failure Lexer := do
  let l ← { l with keyAllowed := true }.dropCandidate
  let (t, c) ← blockScalar folded l.indent l.cursor
  pure (l.emit (.scalar t false) c)

/-- What the character begins depends on the one behind it. -/
def looksAhead (l : Lexer) (x : CodePoint) : Bool :=
  x = ('-' : CodePoint) || (!l.inFlow && isOneOf "?:" x)

/-- A plain scalar may begin with the next character. -/
def plainBegins (l : Lexer) : Bool :=
  match l.cursor.rest with
  | [] => false
  | x :: _ =>
    !(isGap x || isBreak x || isOneOf "-?:,[]{}#&*!|>'\"%@`" x) ||
      (!l.cursor.standsAlone && l.looksAhead x)

/-- The position at the next token: blanks, comments and line breaks are skipped. Outside of
brackets a key may begin on a new line. -/
def skipToToken (l : Lexer) : Lexer :=
  let l := if l.cursor.index = 0 && l.cursor.sees (fun x => x.val = 0xFEFF) then
    { l with cursor := l.cursor.next } else l
  go (l.cursor.rest.length + 1) l
where
  /-- One round for every line. -/
  go : Nat → Lexer → Lexer
    | 0, l => l
    | rounds + 1, l =>
      let c := l.cursor.skip isSpace
      let c := if c.sees (· = ('#' : CodePoint)) then c.skipLine else c
      match c.lineBreak with
      | ([], _) => { l with cursor := c }
      | (_, after) => go rounds { l with cursor := after, keyAllowed := l.keyAllowed || !l.inFlow }

/-- The lexer after the token that begins with `x`, which is the next character. -/
def token (x : CodePoint) (l : Lexer) : Except Failure Lexer := do
  let c := l.cursor
  if l.looksAhead x then
    let _ ← c.next.readable
  if x = ('%' : CodePoint) && c.column = 0 then
    let l ← l.closeDocument
    let (t, c) ← directive l.cursor
    pure (l.emit t c)
  else if c.column = 0 && c.atMarker "---" then l.division .documentStart
  else if c.column = 0 && c.atMarker "..." then l.division .documentEnd
  else if x = ('[' : CodePoint) then l.openFlow .flowSequenceStart
  else if x.val = 0x7B then l.openFlow .flowMappingStart
  else if x = (']' : CodePoint) then l.closeFlow .flowSequenceEnd
  else if x.val = 0x7D then l.closeFlow .flowMappingEnd
  else if x = (',' : CodePoint) then l.flowEntry
  else if x = ('-' : CodePoint) && c.standsAlone then l.blockEntry
  else if x = ('?' : CodePoint) && (l.inFlow || c.standsAlone) then l.explicitKey
  else if x = (':' : CodePoint) && (l.inFlow || c.standsAlone) then l.value
  else if x = ('*' : CodePoint) then
    l.word fun l => do
      let (name, c) ← anchorName l.cursor
      pure (.alias name, c)
  else if x = ('&' : CodePoint) then
    l.word fun l => do
      let (name, c) ← anchorName l.cursor
      pure (.anchor name, c)
  else if x = ('!' : CodePoint) then l.word fun l => tag l.cursor
  else if x = ('|' : CodePoint) && !l.inFlow then l.block false
  else if x = ('>' : CodePoint) && !l.inFlow then l.block true
  else if x = ('\'' : CodePoint) || x = ('"' : CodePoint) then
    l.word fun l => do
      let (t, c) ← quotedScalar (x = ('"' : CodePoint)) l.cursor
      pure (.scalar t false, c)
  else if l.plainBegins then l.plain
  else malformed

/-- The lexer after the next token, or after the end of the document; then the result says so. -/
def fetch (l : Lexer) : Except Failure (Bool × Lexer) := do
  let l := (← l.dropStale).skipToToken
  let l ← { l with cursor := ← l.cursor.readable }.dropStale
  let l := l.closeBlocks l.cursor.column
  match l.cursor.rest with
  | [] => pure (true, ← l.closeDocument)
  | x :: _ =>
    let l ← l.token x
    pure (false, { l with cursor := ← l.cursor.readable })

/-- The candidate can still turn out to be a key, or to be missing. -/
def isOpen (c : Cursor) (k : Candidate) : Bool := k.required || !isStale c k

/-- The number of tokens that are certain: what a key may begin with is not, nor is what follows. -/
def certain (l : Lexer) : Nat :=
  (l.candidate :: l.suspended).foldl (fun n k => match k with
    | some k => if isOpen l.cursor k then min n k.position else n
    | none => n) l.tokens.size

/-- The tokens up to the end of the document or to the first fault, and the fault. In front of a
fault there are only tokens that are certain. -/
def run : Nat → Lexer → List Token × Option Failure
  | 0, l => (l.tokens.toList, some .malformedConfiguration)
  | rounds + 1, l =>
    match l.fetch with
    | .error f => (l.tokens.toList.take l.certain, some f)
    | .ok (true, l) => (l.tokens.toList, none)
    | .ok (false, l) => run rounds l

end Lexer

/-- The tokens of a document, up to its end or to the first fault. -/
def tokens (s : Source) : List Token × Option Failure :=
  Lexer.run (s.text.length + 1) (Lexer.start s)

end EditorDocs.Yaml
