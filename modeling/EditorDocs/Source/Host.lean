import EditorDocs.Failure
/-!
# Hosts of URLs

A host may stand in brackets if it is an address of version six, or of a version yet to come; an
address is all that may stand there, and behind it only a port. Characters that would become
delimiters when compatibility forms are resolved may not stand in a host at all.
-/

namespace EditorDocs.Host

/-! ## Addresses -/

/-- A number below 256 in decimal, without zeros in front. -/
def isOctet (t : Text) : Bool :=
  !t.isEmpty && t.all CodePoint.isDigit && t.length ≤ 3 &&
    (t.length = 1 || t.head? != some ('0' : CodePoint)) && Text.decimalValue t < 256

/-- An address of version four: four octets with points between them. -/
def isVersion4 (t : Text) : Bool :=
  let parts := t.splitOn ('.' : CodePoint)
  parts.length = 4 && parts.all isOctet

/-- One to four hexadecimal digits. -/
def isGroup (t : Text) : Bool :=
  !t.isEmpty && t.length ≤ 4 && t.all fun c => c.hexValue?.isSome

/-- The parts of an address with two groups in the place of an address of version four at its end,
if that is one. -/
def withoutVersion4 (parts : List Text) : Option (List Text) :=
  match parts.getLast? with
  | some last =>
    if last.contains ('.' : CodePoint) then
      if isVersion4 last then some (parts.dropLast ++ ([("0" : Text), "0"] : List Text)) else none
    else some parts
  | none => some parts

/-- The parts before and after the first empty part that is neither the first nor the last of all;
`before` holds those that were passed, last first. -/
def splitAtGap (before : List Text) : List Text → Option (List Text × List Text)
  | [] | [_] => none
  | part :: rest =>
    if part.isEmpty && !before.isEmpty then some (before.reverse, rest)
    else splitAtGap (part :: before) rest

/-- The groups at one side of a gap. A side that is empty consists of an empty part alone. -/
def isSide (parts : List Text) : Bool := parts = [[]] || parts.all isGroup

/-- The number of groups at one side of a gap. -/
def sideLength (parts : List Text) : Nat := if parts = [[]] then 0 else parts.length

/-- The groups of an address: eight of them, or fewer with one gap that stands for the rest. -/
def areGroups (parts : List Text) : Bool :=
  match splitAtGap [] parts with
  | some (before, after) =>
    isSide before && isSide after && sideLength before + sideLength after < 8
  | none => parts.length = 8 && parts.all isGroup

/-- An address of version six, possibly with the name of a zone behind a percent sign. -/
def isVersion6 (t : Text) : Bool :=
  let (address, zone) := match t.cut? ('%' : CodePoint) with
    | some (a, z) => (a, some z)
    | none => (t, none)
  let zoneFits := match zone with
    | some z => !z.isEmpty && !z.contains ('%' : CodePoint)
    | none => true
  let parts := address.splitOn (':' : CodePoint)
  !t.contains ('/' : CodePoint) && zoneFits && 3 ≤ parts.length &&
    (withoutVersion4 parts).any fun parts => parts.length ≤ 9 && areGroups parts

/-- An address of a later version: the letter `v`, the version in hexadecimal, a point, and at least
one character more. -/
def isLaterVersion : Text → Bool
  | [] => false
  | v :: t =>
    let (version, rest) := t.span fun c => c.hexValue?.isSome
    v = ('v' : CodePoint) && !version.isEmpty &&
      match rest with
      | point :: _ :: _ => point = ('.' : CodePoint)
      | _ => false

/-- Why an address may not stand in brackets, if it may not. -/
def addressFault? (t : Text) : Option Failure :=
  if t.startsWith "v" then if isLaterVersion t then none else some .malformedLaterAddress
  else if isVersion4 t then some .bracketedAddress
  else if isVersion6 t then none else some (.noAddress t)

/-! ## Brackets -/

/-- What follows the last at sign. -/
def afterUser (t : Text) : Text := (t.reverse.takeWhile fun c => c != ('@' : CodePoint)).reverse

/-- Why the brackets of a host are wrong, if they are. -/
def bracketFault? (host : Text) : Option Failure :=
  let opens := host.contains ('[' : CodePoint)
  let closes := host.contains (']' : CodePoint)
  if opens != closes then some .unbalancedHost
  else if opens then
    let name := afterUser host
    match name.cut? ('[' : CodePoint) with
    | some (before, after) =>
      let (address, port) := after.cut (']' : CodePoint)
      if !before.isEmpty || !(port.isEmpty || port.startsWith ":") then some .unbalancedHost
      else addressFault? address
    | none => addressFault? (name.cut (':' : CodePoint)).1
  else none

/-! ## Disguised delimiters -/

/-- Characters that stand for a slash, question mark, number sign, at sign or colon when
compatibility forms are resolved. -/
def disguisedDelimiters : List Nat :=
  [0x2047, 0x2048, 0x2049, 0x2100, 0x2101, 0x2105, 0x2106, 0x2A74, 0xFE13, 0xFE16, 0xFE55, 0xFE56,
    0xFE5F, 0xFE6B, 0xFF03, 0xFF0F, 0xFF1A, 0xFF1F, 0xFF20]

/-- Why a host is refused, if it is. -/
def fault? (host : Text) : Option Failure :=
  (bracketFault? host).or
    (if host.any fun c => disguisedDelimiters.contains c.val then some (.ambiguousHost host)
    else none)

end EditorDocs.Host
