import EditorDocs.Yaml.Cursor
/-!
# Scalars

The three ways to write a scalar. A plain scalar stands as it is and ends where an indicator, a
comment or a less indented line begins. A quoted scalar ends at its quote. A block scalar is the
indented lines below its indicator. In plain and quoted scalars a single line break counts as a
blank, and a break that is followed by empty lines counts as those.

All readers are given the position behind what has been read so far and collect the text backwards;
every round consumes a character, so that the rounds do not run out before the text does.
-/

namespace EditorDocs.Yaml

/-! ## Folded line breaks -/

/-- The breaks of the empty lines that follow, and the position at the first character of the next
line. Indentation is skipped with `isIndent`; with `stop` a mark between documents ends the
reading. -/
def emptyLines (isIndent : CodePoint → Bool) (breaks : Text) :
    Nat → Cursor → Text × Cursor
  | 0, c => (breaks, c)
  | rounds + 1, c =>
    let c := c.skip isIndent
    match c.lineBreak with
    | ([], _) => (breaks, c)
    | (b, after) => emptyLines isIndent (breaks ++ b) rounds after

/-- What a line break counts as, given the breaks of the empty lines after it. -/
def foldBreak (lineBreak breaks : Text) : Text :=
  if lineBreak ≠ ("\n" : Text) then lineBreak ++ breaks
  else if breaks.isEmpty then " " else breaks

/-! ## Quoted scalars -/

/-- The breaks of the empty lines within a quoted scalar. A mark between documents must not stand
at the start of a line. -/
def quotedEmptyLines (breaks : Text) : Nat → Cursor → Except Failure (Text × Cursor)
  | 0, c => c.refuse
  | rounds + 1, c =>
    if c.atDivision then c.refuse
    else
      let c := c.skip isGap
      match c.lineBreak with
      | ([], _) => .ok (breaks, c)
      | (b, after) => quotedEmptyLines (breaks ++ b) rounds after

/-- The character that a letter stands for after a backslash. -/
def escapedLetter? (c : CodePoint) : Option CodePoint :=
  let table : List (Char × Nat) :=
    [('0', 0x00), ('a', 0x07), ('b', 0x08), ('t', 0x09), ('\t', 0x09), ('n', 0x0A), ('v', 0x0B),
      ('f', 0x0C), ('r', 0x0D), ('e', 0x1B), (' ', 0x20), ('"', 0x22), ('\\', 0x5C), ('/', 0x2F),
      ('N', 0x85), ('_', 0xA0), ('L', 0x2028), ('P', 0x2029)]
  (table.find? fun (letter, _) => CodePoint.ofChar letter = c).map fun (_, n) => CodePoint.ofNat n

/-- The number of digits that follow a letter after a backslash. -/
def escapeDigits? (c : CodePoint) : Option Nat :=
  if c = ('x' : CodePoint) then some 2 else if c = ('u' : CodePoint) then some 4
  else if c = ('U' : CodePoint) then some 8 else none

/-- The character with a number, if there is one. -/
def numbered (n : Nat) : Except Failure CodePoint :=
  if h : n < 0x110000 then .ok ⟨n, h⟩
  else if n < 0x80000000 then .error (.value "chr() arg not in range(0x110000)")
  else .error .characterNumber

/-- The text that the escape at the position, behind its backslash, stands for. -/
def escape (c : Cursor) : Except Failure (Text × Cursor) :=
  match c.rest with
  | [] => c.refuse
  | x :: rest =>
    match escapedLetter? x with
    | some y => .ok ([y], c.next)
    | none =>
      match escapeDigits? x with
      | some n =>
        match (rest.take n).mapM CodePoint.hexValue? with
        | some digits =>
          if digits.length = n then do
            let y ← numbered (Text.digitsValue 16 digits)
            pure ([y], c.advance (n + 1))
          else (c.advance (n + 1)).refuse
        | none => malformed
      | none =>
        if isBreak x then quotedEmptyLines [] (c.rest.length + 1) c.lineBreak.2 else c.refuse

/-- What the blanks and breaks at the position count as. The scalar must not end with the
document. -/
def quotedGap (c : Cursor) : Except Failure (Text × Cursor) :=
  let (blanks, c) := c.span isGap
  if c.rest.isEmpty then c.refuse
  else match c.lineBreak with
    | ([], _) => .ok (blanks, c)
    | (b, after) => do
      let (breaks, after) ← quotedEmptyLines [] (c.rest.length + 1) after
      pure (foldBreak b breaks, after)

/-- A quoted scalar after the parts in `done`, which stand last first. -/
def quotedAfter (double : Bool) (done : List Text) :
    Nat → Cursor → Except Failure (Text × Cursor)
  | 0, c => c.refuse
  | rounds + 1, c =>
    match c.rest with
    | [] => c.refuse
    | x :: rest =>
      if x = ('"' : CodePoint) && double then .ok (done.reverse.flatten, c.next)
      else if x = ('\'' : CodePoint) && !double then
        if rest.head? = some ('\'' : CodePoint) then
          quotedAfter double ([x] :: done) rounds (c.advance 2)
        else .ok (done.reverse.flatten, c.next)
      else if x = ('\\' : CodePoint) && double then do
        let (t, c) ← escape c.next
        quotedAfter double (t :: done) rounds c
      else if isGap x || isBreak x then do
        let (t, c) ← quotedGap c
        quotedAfter double (t :: done) rounds c
      else quotedAfter double ([x] :: done) rounds c.next

/-- The quoted scalar whose opening quote is the next character. -/
def quotedScalar (double : Bool) (c : Cursor) : Except Failure (Text × Cursor) :=
  quotedAfter double [] (c.rest.length + 1) c.next

/-! ## Plain scalars -/

/-- The number of characters of a plain scalar that follow without a gap. Within brackets, commas,
question marks and brackets end it as well. -/
def plainRun (inFlow : Bool) : Text → Nat
  | [] => 0
  | x :: rest =>
    let colonEnds := match rest with
      | [] => true
      | y :: _ => isGap y || isBreak y || (inFlow && isOneOf ",[]{}" y)
    if isGap x || isBreak x || (x = (':' : CodePoint) && colonEnds) ||
        (inFlow && isOneOf ",?[]{}" x) then 0
    else plainRun inFlow rest + 1

/-- The breaks of the empty lines within a plain scalar; none if a mark between documents stands at
the start of a line. -/
def plainEmptyLines (breaks : Text) : Nat → Cursor → Option Text × Cursor
  | 0, c => (some breaks, c)
  | rounds + 1, c =>
    if c.atDivision then (none, c)
    else
      let c := c.skip isSpace
      match c.lineBreak with
      | ([], _) => (some breaks, c)
      | (b, after) => plainEmptyLines (breaks ++ b) rounds after

/-- A gap within a plain scalar. -/
structure PlainGap where
  /-- What the gap counts as, if the scalar may go on after it. -/
  text : Option Text
  /-- The gap holds a line break. -/
  breaksLine : Bool
  /-- The position behind the gap. -/
  after : Cursor

/-- The gap at the position. -/
def plainGap (c : Cursor) : PlainGap :=
  let (blanks, c) := c.span isSpace
  match c.lineBreak with
  | ([], _) => ⟨if blanks.isEmpty then none else some blanks, false, c⟩
  | (b, after) =>
    let (breaks, after) := plainEmptyLines [] (c.rest.length + 1) after
    ⟨breaks.map (foldBreak b), true, after⟩

/-- A plain scalar: its text, whether a line break stands behind it, and the position there. -/
structure PlainScalar where
  /-- The text. -/
  text : Text
  /-- A line break was read behind the last character. -/
  breaksLine : Bool
  /-- The position behind the scalar. -/
  after : Cursor

/-- A plain scalar after the parts in `done`, which stand last first. Outside of brackets the lines
that go on with it have to be indented by `indent`. -/
def plainAfter (inFlow : Bool) (indent : Int) (done : List Text) (gap : Text)
    (breaksLine : Bool) : Nat → Cursor → PlainScalar
  | 0, c => ⟨done.reverse.flatten, breaksLine, c⟩
  | rounds + 1, c =>
    let stop : PlainScalar := ⟨done.reverse.flatten, breaksLine, c⟩
    if c.sees (· = ('#' : CodePoint)) then stop
    else
      let n := plainRun inFlow c.rest
      if n = 0 then stop
      else
        let done := c.rest.take n :: gap :: done
        let next := plainGap (c.advance n)
        let ends : PlainScalar := ⟨done.reverse.flatten, next.breaksLine, next.after⟩
        match next.text with
        | none => ends
        | some gap =>
          if next.after.sees (· = ('#' : CodePoint)) ||
              (!inFlow && (next.after.column : Int) < indent) then ends
          else plainAfter inFlow indent done gap next.breaksLine rounds next.after

/-- The plain scalar at the position. -/
def plainScalar (inFlow : Bool) (indent : Int) (c : Cursor) : PlainScalar :=
  plainAfter inFlow indent [] [] false (c.rest.length + 1) c

/-! ## Block scalars -/

/-- What is kept of the line breaks at the end of a block scalar. -/
inductive Chomping where
  /-- None. -/
  | strip
  /-- One. -/
  | clip
  /-- All. -/
  | keep
  deriving DecidableEq

/-- What a plus or minus sign says about the breaks at the end. -/
def chomping? (c : CodePoint) : Option Chomping :=
  if c = ('+' : CodePoint) then some .keep else if c = ('-' : CodePoint) then some .strip else none

/-- The indentation that a digit says. -/
def increment? (c : CodePoint) : Option Nat := if c.isDigit then some (c.val - 0x30) else none

/-- The sign and the digit behind the indicator of a block scalar, in either order. -/
def blockHeader (c : Cursor) : Chomping × Option Nat × Cursor :=
  match c.peek?.bind chomping? with
  | some ch => match c.next.peek?.bind increment? with
    | some n => (ch, some n, c.advance 2)
    | none => (ch, none, c.next)
  | none => match c.peek?.bind increment? with
    | some n => match c.next.peek?.bind chomping? with
      | some ch => (ch, some n, c.advance 2)
      | none => (.clip, some n, c.next)
    | none => (.clip, none, c)

/-- The rest of a line that may hold blanks and a comment only, and its break. -/
def idleLine (c : Cursor) : Except Failure Cursor :=
  let c := c.skip isSpace
  let c := if c.sees (· = ('#' : CodePoint)) then c.skipLine else c
  if c.endsOr isBreak then .ok c.lineBreak.2 else c.refuse

/-- The empty lines before the first line of a block scalar, and the widest indentation seen. -/
def leadingLines (breaks : Text) (widest : Nat) : Nat → Cursor → Text × Nat × Cursor
  | 0, c => (breaks, widest, c)
  | rounds + 1, c =>
    match c.rest with
    | [] => (breaks, widest, c)
    | x :: _ =>
      if isSpace x then leadingLines breaks (max widest c.next.column) rounds c.next
      else match c.lineBreak with
        | ([], _) => (breaks, widest, c)
        | (b, after) => leadingLines (breaks ++ b) widest rounds after

/-- The position behind the blanks up to column `indent`. -/
def skipIndent (indent : Nat) (c : Cursor) : Cursor :=
  c.advance ((c.rest.takeWhile isSpace).take (indent - c.column)).length

/-- The empty lines within a block scalar, and the position behind the indentation of the next
line. -/
def blockEmptyLines (indent : Nat) (breaks : Text) : Nat → Cursor → Text × Cursor
  | 0, c => (breaks, c)
  | rounds + 1, c =>
    let c := skipIndent indent c
    match c.lineBreak with
    | ([], _) => (breaks, c)
    | (b, after) => blockEmptyLines indent (breaks ++ b) rounds after

/-- The lines of a block scalar after the parts in `done`, which stand last first. A line that
begins with a blank or a tab is not folded, nor is its neighbour. -/
def blockLines (folded : Bool) (indent : Nat) (chomping : Chomping) (done : List Text)
    (lineBreak breaks : Text) : Nat → Cursor → Text × Cursor
  | 0, c => (done.reverse.flatten, c)
  | rounds + 1, c =>
    let isLine (c : Cursor) : Bool := c.column = indent && !c.rest.isEmpty
    let ending : Text := match chomping with
      | .strip => []
      | .clip => lineBreak
      | .keep => lineBreak ++ breaks
    if isLine c then
      let (line, after) := c.span fun x => !isBreak x
      let (lineBreak, after) := after.lineBreak
      let (nextBreaks, after) := blockEmptyLines indent [] (c.rest.length + 1) after
      let done := line :: breaks :: done
      if isLine after then
        let folds := folded && lineBreak = ("\n" : Text) && !c.sees isGap && !after.sees isGap
        let joint : Text := if folds then (if nextBreaks.isEmpty then " " else []) else lineBreak
        blockLines folded indent chomping (joint :: done) lineBreak nextBreaks rounds after
      else
        let ending : Text := match chomping with
          | .strip => []
          | .clip => lineBreak
          | .keep => lineBreak ++ nextBreaks
        ((ending :: done).reverse.flatten, after)
    else ((ending :: done).reverse.flatten, c)

/-- The block scalar whose indicator is the next character, within a block indented by `outer`. -/
def blockScalar (folded : Bool) (outer : Int) (c : Cursor) : Except Failure (Text × Cursor) := do
  let (chomping, increment, c) := blockHeader c.next
  if increment = some 0 || !c.endsOr (fun x => isSpace x || isBreak x) then c.refuse
  else
    let c ← idleLine c
    let least : Nat := (max (outer + 1) 1).toNat
    let rounds := c.rest.length + 1
    let (indent, breaks, c) := match increment with
      | none =>
        let (breaks, widest, c) := leadingLines [] 0 rounds c
        (max least widest, breaks, c)
      | some n =>
        let indent := least + n - 1
        let (breaks, c) := blockEmptyLines indent [] rounds c
        (indent, breaks, c)
    pure (blockLines folded indent chomping [] [] breaks rounds c)

end EditorDocs.Yaml
