import EditorDocs.Yaml.Scalar
import EditorDocs.Yaml.Token
/-!
# Names in a document

Directives, anchors, aliases and tags: everything that starts with a percent sign, an ampersand, an
asterisk or an exclamation mark.
-/

namespace EditorDocs.Yaml

/-- The document ends here, or a blank or a line break follows. -/
def atWordEnd (c : Cursor) : Bool := c.endsOr fun x => isSpace x || isBreak x

/-! ## Tags -/

/-- The character may stand in a tag. -/
def isTagChar (c : CodePoint) : Bool :=
  c.isLetter || c.isDigit || isOneOf "-;/?:@&=+$,_.!~*'()[]%" c

/-- The bytes of the percent escapes at the position. -/
def escapedBytes (done : Bytes) : Nat → Cursor → Except Failure (Bytes × Cursor)
  | 0, c => c.refuse
  | rounds + 1, c =>
    match c.rest with
    | x :: rest =>
      if x = ('%' : CodePoint) then
        match rest with
        | a :: b :: _ => match a.hexValue?, b.hexValue? with
          | some h, some l => escapedBytes (UInt8.ofNat (h * 16 + l) :: done) rounds (c.advance 3)
          | _, _ => c.refuse
        | rest => (c.advance (rest.length + 1)).refuse
      else .ok (done.reverse, c)
    | [] => .ok (done.reverse, c)

/-- The text of a tag after the parts in `done`, which stand last first. -/
def tagTextAfter (done : List Text) : Nat → Cursor → Except Failure (Text × Cursor)
  | 0, c => c.refuse
  | rounds + 1, c =>
    match c.rest with
    | x :: _ =>
      if x = ('%' : CodePoint) then do
        let (bytes, c) ← escapedBytes [] (c.rest.length + 1) c
        match Utf8.decode bytes with
        | .ok t => tagTextAfter (t :: done) rounds c
        | .error _ => malformed
      else if isTagChar x then tagTextAfter ([x] :: done) rounds c.next
      else .ok (done.reverse.flatten, c)
    | [] => .ok (done.reverse.flatten, c)

/-- The text of a tag at the position. -/
def tagText (c : Cursor) : Except Failure (Text × Cursor) := do
  if c.sees isTagChar then tagTextAfter [] (c.rest.length + 1) c else c.refuse

/-- The handle at the position: an exclamation mark, or two with a name between them. -/
def tagHandle (c : Cursor) : Except Failure (Text × Cursor) :=
  match c.rest with
  | x :: rest =>
    if x = ('!' : CodePoint) then
      if rest.head? = some (' ' : CodePoint) then .ok ("!", c.next)
      else
        let name := rest.takeWhile isNameChar
        let after := c.advance (name.length + 1)
        if after.sees (· = ('!' : CodePoint)) then .ok ([x] ++ name ++ [x], after.next)
        else after.refuse
    else c.refuse
  | [] => c.refuse

/-- A second exclamation mark stands in the word behind the first one. -/
def hasHandle (c : Cursor) : Bool :=
  (c.rest.takeWhile fun x => !(isSpace x || isBreak x)).contains ('!' : CodePoint)

/-- The tag whose exclamation mark is the next character. -/
def tag (c : Cursor) : Except Failure (Token × Cursor) := do
  let inner := c.next
  let (handle, suffix, after) ←
    (if inner.sees (· = ('<' : CodePoint)) then do
      let (suffix, after) ← tagText inner.next
      if after.sees (· = ('>' : CodePoint)) then pure (none, suffix, after.next)
      else after.refuse
    else if inner.endsOr fun x => isGap x || isBreak x then
      pure (none, ("!" : Text), inner)
    else if hasHandle inner then do
      let (handle, after) ← tagHandle c
      let (suffix, after) ← tagText after
      pure (some handle, suffix, after)
    else do
      let (suffix, after) ← tagText inner
      pure (some ("!" : Text), suffix, after) : Except Failure (Option Text × Text × Cursor))
  if atWordEnd after then pure (.tag handle suffix, after) else after.refuse

/-! ## Anchors -/

/-- The name behind an ampersand or an asterisk, which is the next character. -/
def anchorName (c : Cursor) : Except Failure (Text × Cursor) :=
  let (name, after) := c.next.span isNameChar
  let ends := after.endsOr fun x => isGap x || isBreak x || isOneOf "?:,]\x7d%@`" x
  if name.isEmpty || !ends then after.refuse else .ok (name, after)

/-! ## Directives -/

/-- The number of digits that a number of a version may have. -/
def versionLimit : Nat := 4300

/-- A number of a version. -/
def versionNumber (c : Cursor) : Except Failure (Nat × Cursor) := do
  let (digits, after) := c.span CodePoint.isDigit
  if digits.isEmpty then c.refuse
  else
    let after ← after.readable
    if versionLimit < digits.length then throw (.longInteger digits.length)
    else pure (Text.decimalValue digits, after)

/-- The version behind the name of its directive. -/
def versionDirective (c : Cursor) : Except Failure (Directive × Cursor) := do
  let (major, c) ← versionNumber (c.skip isSpace)
  if c.sees (· = ('.' : CodePoint)) then
    let (_, c) ← versionNumber c.next
    if atWordEnd c then pure (.version major, c) else c.refuse
  else c.refuse

/-- The handle and its expansion behind the name of their directive. -/
def handleDirective (c : Cursor) : Except Failure (Directive × Cursor) := do
  let (name, c) ← tagHandle (c.skip isSpace)
  if c.sees isSpace then
    let (expansion, c) ← tagText (c.skip isSpace)
    if atWordEnd c then pure (.handle name expansion, c) else c.refuse
  else c.refuse

/-- The directive whose percent sign is the next character. -/
def directive (c : Cursor) : Except Failure (Token × Cursor) := do
  let (name, c) := c.next.span isNameChar
  if name.isEmpty || !atWordEnd c then c.refuse
  else
    let (d, c) ←
      (if name = ("YAML" : Text) then versionDirective c
      else if name = ("TAG" : Text) then handleDirective c
      else pure (.other, c.skipLine) : Except Failure (Directive × Cursor))
    let c ← idleLine c
    pure (.directive d, c)

end EditorDocs.Yaml
