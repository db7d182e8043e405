import EditorDocs.Number.Binary64
/-!
# The shortest decimal of a number

A number is written with the fewest digits from which it can be read back, and among those with the
digits nearest to it. The search tries one digit, then two, up to seventeen. With `k` digits the
only candidates are the two neighbours of the number on the grid of `k`-digit decimals, and
whether a candidate reads back is decided in whole numbers: it has to lie between the midpoints to
the two neighbouring numbers, the midpoints included if the mantissa is even.
-/

namespace EditorDocs

namespace Binary64

/-- A decimal `digits · 10 ^ exponent`. -/
structure Decimal where
  /-- The digits as one whole number. -/
  digits : Nat
  /-- The power of ten that the last digit counts. -/
  exponent : Int
  deriving DecidableEq

/-- The order of `a · 10 ^ s` and `b · 2 ^ e`. -/
def compareScaled (a : Nat) (s : Int) (b : Nat) (e : Int) : Ordering :=
  compare (a * tenTo s.toNat * twoTo (-e).toNat) (b * twoTo e.toNat * tenTo (-s).toNat)

/-- The number of digits before the decimal point of `m · 2 ^ e`, counted below zero for a number
that has zeros after the point: the least `p` with `m · 2 ^ e < 10 ^ p`. -/
def pointPosition (m : Nat) (e : Int) : Int :=
  let low : Int := ((m.log2 : Int) + e) * 30103 / 100000
  let above (p : Int) : Bool := compareScaled 1 p m e == .gt
  if above (low - 1) then low - 1 else if above low then low
  else if above (low + 1) then low + 1 else low + 2

/-- The bounds, over four, between which a decimal reads back as `m · 2 ^ e`. -/
def readsBack (m : Nat) (e : Int) (d : Nat) (s : Int) : Bool :=
  let low := 4 * m - (if m = leastNormal ∧ -1074 < e then 1 else 2)
  let high := 4 * m + 2
  let toLow := compareScaled d s low (e - 2)
  let toHigh := compareScaled d s high (e - 2)
  if m % 2 = 0 then toLow != .lt && toHigh != .gt else toLow == .gt && toHigh == .lt

/-- The nearest decimal of `k` digits that reads back as `m · 2 ^ e`, whose point stands at `p`. -/
def nearest? (m : Nat) (e p : Int) (k : Nat) : Option Decimal :=
  let s := p - k
  let num := m * twoTo e.toNat * tenTo (-s).toNat
  let den := twoTo (-e).toNat * tenTo s.toNat
  let below := num / den
  let closer := divideEven num den
  let further := if closer = below then below + 1 else below
  if readsBack m e closer s then some ⟨closer, s⟩
  else if readsBack m e further s then some ⟨further, s⟩ else none

/-- The shortest decimal of a positive number `m · 2 ^ e`. -/
def shortest (m : Nat) (e : Int) : Decimal :=
  let p := pointPosition m e
  ((List.range 17).findSome? fun k => nearest? m e p (k + 1)).getD ⟨m, e⟩

/-- The digits without zeros at the end, and the position of the point before the first digit. -/
def Decimal.significant (d : Decimal) : Text × Int :=
  let all := Text.ofNat d.digits
  (all.dropEndWhile (· = ('0' : CodePoint)), d.exponent + all.length)

/-- The text of a positive number: positional from `0.0001` to below `10 ^ 16`, with a fraction
always, and otherwise one digit, the fraction if there is one, and an exponent with a sign and two
digits at least. -/
def positiveText (m : Nat) (e : Int) : Text :=
  let (digits, p) := (shortest m e).significant
  let zeros (n : Int) : Text := List.replicate n.toNat ('0' : CodePoint)
  let count : Int := digits.length
  if -4 < p ∧ p ≤ 0 then "0." ++ zeros (-p) ++ digits
  else if 0 < p ∧ p ≤ 16 then
    if count ≤ p then digits ++ zeros (p - count) ++ ".0"
    else digits.take p.toNat ++ "." ++ digits.drop p.toNat
  else
    let fraction : Text := if count ≤ 1 then [] else "." ++ digits.drop 1
    let x := p - 1
    let size := Text.ofNat x.natAbs
    digits.take 1 ++ fraction ++ "e" ++ (if x < 0 then ("-" : Text) else "+") ++
      zeros (2 - (size.length : Int)) ++ size

/-- The text of a number, with the given words for the values that have no digits. -/
def textWith (nanWord infinityWord : Text) : Binary64 → Text
  | .nan => nanWord
  | .infinity s => (if s then ("-" : Text) else []) ++ infinityWord
  | .finite s m e =>
    (if s then ("-" : Text) else []) ++ (if m = 0 then ("0.0" : Text) else positiveText m e)

/-- The text of a number in messages and answers. -/
def text (x : Binary64) : Text := x.textWith "nan" "inf"

end Binary64

end EditorDocs
