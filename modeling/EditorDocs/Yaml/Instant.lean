import EditorDocs.Failure
/-!
# Days and points in time

A day is written as a year, a month and a day; a point in time goes on with hours, minutes and
seconds, possibly a fraction of a second and possibly an offset from universal time. Whether the
calendar has such a day is looked at after the form has been recognised.
-/

namespace EditorDocs.Yaml

/-- An offset from universal time, in minutes; or universal time itself. -/
inductive Zone where
  /-- Universal time. -/
  | universal
  /-- An offset. -/
  | offset (negative : Bool) (minutes : Nat)
  deriving DecidableEq

/-- A time of the day. -/
structure Clock where
  /-- The hour. -/
  hour : Nat
  /-- The minute. -/
  minute : Nat
  /-- The second. -/
  second : Nat
  /-- The fraction of the second, in millionths. -/
  millionths : Nat
  /-- The offset, if one is given. -/
  zone : Option Zone
  deriving DecidableEq

/-- A day or a point in time as it is written. -/
structure Instant where
  /-- The year. -/
  year : Nat
  /-- The month. -/
  month : Nat
  /-- The day of the month. -/
  day : Nat
  /-- The month and the day have two digits each. -/
  isPadded : Bool
  /-- The time of the day, if one is given. -/
  clock : Option Clock
  deriving DecidableEq

namespace Instant

/-- A number of `least` to `most` digits at the start of the text, and what follows it. -/
def number? (least most : Nat) (t : Text) : Option (Text × Text) :=
  let digits := (t.take most).takeWhile CodePoint.isDigit
  if digits.length < least then none else some (digits, t.drop digits.length)

/-- What follows a character at the start of the text. -/
def after? (c : CodePoint) : Text → Option Text
  | x :: t => if x = c then some t else none
  | [] => none

/-- The offset that makes up the whole text, blanks in front of it aside; none if the text is
empty. -/
def zone? (t : Text) : Option (Option Zone) := do
  if t.isEmpty then return none
  match t.dropWhile fun c => c.val = 0x20 || c.val = 0x09 with
  | [] => none
  | c :: t =>
    if c = ('Z' : CodePoint) then
      if t.isEmpty then some (some .universal) else none
    else if c = ('+' : CodePoint) || c = ('-' : CodePoint) then
      let (hours, t) ← number? 1 2 t
      let minutes ← if t.isEmpty then some [] else do
        let t ← after? ':' t
        let (minutes, t) ← number? 2 2 t
        if t.isEmpty then some minutes else none
      some (some (.offset (c = ('-' : CodePoint))
        (60 * Text.decimalValue hours + Text.decimalValue minutes)))
    else none

/-- The millionths of a second that the digits of a fraction spell. Further digits do not count. -/
def millionthsOf (digits : Text) : Nat :=
  let kept := digits.take 6
  Text.decimalValue (kept ++ List.replicate (6 - kept.length) ('0' : CodePoint))

/-- The time of the day that makes up the whole text. -/
def clock? (t : Text) : Option Clock := do
  let (hour, t) ← number? 1 2 t
  let t ← after? ':' t
  let (minute, t) ← number? 2 2 t
  let t ← after? ':' t
  let (second, t) ← number? 2 2 t
  let (fraction, t) := match after? '.' t with
    | some t => t.span CodePoint.isDigit
    | none => ([], t)
  let zone ← zone? t
  pure ⟨Text.decimalValue hour, Text.decimalValue minute, Text.decimalValue second,
    millionthsOf fraction, zone⟩

/-- What stands between a day and a time is behind: a letter `T`, or blanks and tabs. -/
def afterDay? : Text → Option Text
  | c :: t =>
    if c = ('T' : CodePoint) || c = ('t' : CodePoint) then some t
    else if c.val = 0x20 || c.val = 0x09 then
      some (t.dropWhile fun c => c.val = 0x20 || c.val = 0x09)
    else none
  | [] => none

/-- The day or point in time that makes up the whole text. -/
def ofText? (t : Text) : Option Instant := do
  let (year, t) ← number? 4 4 t
  let t ← after? '-' t
  let (month, t) ← number? 1 2 t
  let t ← after? '-' t
  let (day, t) ← number? 1 2 t
  let isPadded := month.length = 2 && day.length = 2
  let date := Instant.mk (Text.decimalValue year) (Text.decimalValue month) (Text.decimalValue day)
    isPadded
  if t.isEmpty then pure (date none)
  else do
    let t ← afterDay? t
    let clock ← clock? t
    pure (date (some clock))

/-- A text has the form that is taken for a day or a point in time without further ado. -/
def isPlain (t : Text) : Bool :=
  match ofText? t with
  | some i => i.isPadded || i.clock.isSome
  | none => false

/-! ## The calendar -/

/-- The year has a day more in February. -/
def isLeap (year : Nat) : Bool := year % 4 = 0 && (year % 100 ≠ 0 || year % 400 = 0)

/-- The number of days of a month. -/
def daysOf (year month : Nat) : Nat :=
  if month = 2 then (if isLeap year then 29 else 28)
  else if month = 4 || month = 6 || month = 9 || month = 11 then 30 else 31

/-- A length of time, as messages show it. -/
def durationText (seconds : Int) : Text :=
  let days := seconds / 86400
  let rest := seconds % 86400
  let parts : List Text :=
    (if days = 0 then [] else [("days=" : Text) ++ Text.ofInt days]) ++
      (if rest = 0 then [] else [("seconds=" : Text) ++ Text.ofInt rest])
  ("datetime.timedelta(" : Text) ++ Text.join ", " parts ++ ")"

/-- Why there is no such day or point in time, if there is none. -/
def fault? (i : Instant) : Option Text :=
  let zoneFault : Option Text := match i.clock with
    | some ⟨_, _, _, _, some (.offset negative minutes)⟩ =>
      if 1440 ≤ minutes then
        let seconds : Int := 60 * minutes
        some (("offset must be a timedelta strictly between -timedelta(hours=24) and " : Text) ++
          "timedelta(hours=24), not " ++
          durationText (if negative then -seconds else seconds) ++ ".")
      else none
    | _ => none
  let clockFault : Option Text := match i.clock with
    | some c =>
      if 24 ≤ c.hour then some "hour must be in 0..23"
      else if 60 ≤ c.minute then some "minute must be in 0..59"
      else if 60 ≤ c.second then some "second must be in 0..59" else none
    | none => none
  if zoneFault.isSome then zoneFault
  else if i.year = 0 then some "year 0 is out of range"
  else if i.month = 0 || 12 < i.month then some "month must be in 1..12"
  else if i.day = 0 || daysOf i.year i.month < i.day then some "day is out of range for month"
  else clockFault

/-! ## Display -/

/-- How an offset is shown behind a point in time. -/
def zoneText : Option Zone → List Text
  | none => []
  | some .universal | some (.offset _ 0) => ["tzinfo=datetime.timezone.utc"]
  | some (.offset negative minutes) =>
    let seconds : Int := 60 * minutes
    [("tzinfo=datetime.timezone(" : Text) ++
      durationText (if negative then -seconds else seconds) ++ ")"]

/-- The numbers of a clock, without millionths that are zero and then without a second that is. -/
def clockNumbers (c : Clock) : List Nat :=
  [c.hour, c.minute] ++
    (if c.second = 0 ∧ c.millionths = 0 then [] else [c.second]) ++
    (if c.millionths = 0 then [] else [c.millionths])

/-- How a point in time is shown. -/
def shown (i : Instant) (c : Clock) : Text :=
  let numbers := ([i.year, i.month, i.day] ++ clockNumbers c).map Text.ofNat
  ("datetime.datetime(" : Text) ++ Text.join ", " (numbers ++ zoneText c.zone) ++ ")"

end Instant

end EditorDocs.Yaml
