import EditorDocs.Text.Basic
/-!
# Binary floating point of double precision

A number is a sign, a mantissa below `2 ^ 53` and an exponent of two that is at least `-1074`; the
mantissa is at least `2 ^ 52` unless the exponent is the least one, so every number has one form.
Every operation computes the exact result and rounds it once, to the nearest number and to the
even mantissa of two nearest ones.
-/

namespace EditorDocs

/-- A double precision number: `± mantissa · 2 ^ exponent`, an infinity, or not a number. -/
inductive Binary64 where
  /-- Not a number. -/
  | nan
  /-- Past the largest number, or below the smallest one. -/
  | infinity (negative : Bool)
  /-- `mantissa · 2 ^ exponent`, with the sign that `negative` says. -/
  | finite (negative : Bool) (mantissa : Nat) (exponent : Int)
  deriving DecidableEq

namespace Binary64

/-! ## Powers -/

/-- A power of two. -/
def twoTo (n : Nat) : Nat := Nat.pow 2 n

/-- A power of ten. -/
def tenTo (n : Nat) : Nat := Nat.pow 10 n

/-- The number at which a mantissa becomes too large: two to the power of fifty-three. -/
def mantissaEnd : Nat := 0x20000000000000

/-- The least mantissa of a number whose exponent is not the least one. -/
def leastNormal : Nat := 0x10000000000000

/-! ## Rounding -/

/-- Zero of either sign. -/
def zero (negative : Bool) : Binary64 := .finite negative 0 (-1074)

/-- The quotient rounded to the nearest whole number, a half going to the even neighbour. -/
def divideEven (num den : Nat) : Nat :=
  let q := num / den
  let r := num % den
  if 2 * r < den then q else if den < 2 * r then q + 1 else q + q % 2

/-- `num / (den · 2 ^ e)` as a numerator and a denominator. -/
def scaled (num den : Nat) (e : Int) : Nat × Nat :=
  if 0 ≤ e then (num, den * twoTo e.toNat) else (num * twoTo (-e).toNat, den)

/-- The number nearest to `± num / den`. -/
def ofRatio (negative : Bool) (num den : Nat) : Binary64 :=
  if num = 0 then zero negative
  else
    let low : Int := max ((num.log2 : Int) - den.log2 - 53) (-1074)
    let (n, d) := scaled num den low
    let e : Int := if mantissaEnd ≤ n / d then low + 1 else low
    let (n, d) := scaled num den e
    let m := divideEven n d
    let (m, e) := if m = mantissaEnd then (leastNormal, e + 1) else (m, e)
    if 971 < e then .infinity negative else .finite negative m e

/-- The number nearest to `± digits · 10 ^ e`. Decimals far out of range are settled by their
length alone. -/
def ofDecimal (negative : Bool) (digits : Nat) (e : Int) : Binary64 :=
  if digits = 0 then zero negative
  else
    let magnitude : Int := (digits.log2 : Int) * 3 / 10 + e
    if 400 < magnitude then .infinity negative
    else if magnitude < -800 then zero negative
    else if 0 ≤ e then ofRatio negative (digits * tenTo e.toNat) 1
    else ofRatio negative digits (tenTo (-e).toNat)

/-- The number nearest to an integer, an infinity if none is near. -/
def ofInt (n : Int) : Binary64 := ofRatio (n < 0) n.natAbs 1

/-! ## Arithmetic -/

/-- The number with the other sign. -/
def neg : Binary64 → Binary64
  | .nan => .nan
  | .infinity s => .infinity !s
  | .finite s m e => .finite (!s) m e

/-- The numerator of a finite number over a power of two that its exponent allows. -/
def numerator (m : Nat) (e shift : Int) : Nat := m * twoTo (e + shift).toNat

/-- The sum of two numbers. -/
def add : Binary64 → Binary64 → Binary64
  | .nan, _ => .nan
  | _, .nan => .nan
  | .infinity s, .infinity t => if s = t then .infinity s else .nan
  | .infinity s, _ => .infinity s
  | _, .infinity t => .infinity t
  | .finite s m e, .finite t n f =>
    let signed (negative : Bool) (k : Nat) : Int := if negative then -(k : Int) else k
    let total := signed s (numerator m e 1074) + signed t (numerator n f 1074)
    if total = 0 then zero (s && t) else ofRatio (total < 0) total.natAbs (twoTo 1074)

/-- The product of two numbers. -/
def mul : Binary64 → Binary64 → Binary64
  | .nan, _ => .nan
  | _, .nan => .nan
  | .infinity s, .infinity t => .infinity (s != t)
  | .infinity s, .finite t n _ => if n = 0 then .nan else .infinity (s != t)
  | .finite s m _, .infinity t => if m = 0 then .nan else .infinity (s != t)
  | .finite s m e, .finite t n f =>
    ofRatio (s != t) (numerator m e 1074 * numerator n f 1074) (twoTo 2148)

/-! ## Tests -/

/-- The number is greater than zero. -/
def isPositive : Binary64 → Bool
  | .nan => false
  | .infinity s => !s
  | .finite s m _ => !s && m != 0

/-- The number is neither infinite nor not a number. -/
def isFinite : Binary64 → Bool
  | .finite _ _ _ => true
  | _ => false

/-- The integer that a finite number is, if it has no fraction. -/
def toInt? : Binary64 → Option Int
  | .finite s m e =>
    let whole : Option Nat :=
      if 0 ≤ e then some (m * twoTo e.toNat)
      else if m % twoTo (-e).toNat = 0 then some (m / twoTo (-e).toNat) else none
    whole.map fun n => if s then -(n : Int) else n
  | _ => none

end Binary64

end EditorDocs
