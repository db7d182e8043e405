import EditorDocs.Text.Utf8
/-!
# Base 64

Bytes as text: every letter is six bits, and four letters are three bytes. The reader passes over
characters that are no letters of the alphabet, stops at an equals sign that ends a group of four,
and refuses a text whose last group is not complete.
-/

namespace EditorDocs.Base64

/-- The six bits that a letter stands for. -/
def letterValue? (c : CodePoint) : Option Nat :=
  let n := c.val
  if 0x41 ≤ n ∧ n ≤ 0x5A then some (n - 0x41)
  else if 0x61 ≤ n ∧ n ≤ 0x7A then some (n - 0x61 + 26)
  else if 0x30 ≤ n ∧ n ≤ 0x39 then some (n - 0x30 + 52)
  else if n = 0x2B then some 62 else if n = 0x2F then some 63 else none

/-- The bytes that the letters of a group spell, as far as they are complete. -/
def groupBytes : List Nat → Bytes
  | [a, b] => [UInt8.ofNat (a * 4 + b / 16)]
  | [a, b, c] => [UInt8.ofNat (a * 4 + b / 16), UInt8.ofNat (b % 16 * 16 + c / 4)]
  | [a, b, c, d] =>
    [UInt8.ofNat (a * 4 + b / 16), UInt8.ofNat (b % 16 * 16 + c / 4), UInt8.ofNat (c % 4 * 64 + d)]
  | _ => []

/-- The bytes of a text, after those in `done`, which stand last first. Of the current group the
letters in `group` and `pads` equals signs have been read. -/
def decodeAfter (done : Bytes) (group : List Nat) (pads : Nat) : Text → Option Bytes
  | [] => if group.isEmpty then some done.reverse else none
  | c :: t =>
    if c = ('=' : CodePoint) then
      if 2 ≤ group.length ∧ 4 ≤ group.length + pads + 1 then
        some (done.reverse ++ groupBytes group)
      else decodeAfter done group (if 2 ≤ group.length then pads + 1 else pads) t
    else match letterValue? c with
      | none => decodeAfter done group pads t
      | some v =>
        if group.length = 3 then decodeAfter ((groupBytes (group ++ [v])).reverse ++ done) [] 0 t
        else decodeAfter done (group ++ [v]) 0 t

/-- The bytes that a text spells. -/
def decode? (t : Text) : Option Bytes := decodeAfter [] [] 0 t

/-- The letter that stands for six bits. -/
def letter (n : Nat) : CodePoint :=
  CodePoint.ofNat
    (if n < 26 then n + 0x41
    else if n < 52 then n - 26 + 0x61
    else if n < 62 then n - 52 + 0x30
    else if n = 62 then 0x2B else 0x2F)

/-- The letters of a number of twenty-four bits, of which so many are written. -/
def letters (n count : Nat) : Text :=
  ([n / 0x40000, n / 0x1000 % 0x40, n / 0x40 % 0x40, n % 0x40].take count).map letter ++
    List.replicate (4 - count) ('=' : CodePoint)

/-- The text that spells bytes. -/
def encode : Bytes → Text
  | [] => []
  | [a] => letters (a.toNat * 0x10000) 2
  | [a, b] => letters (a.toNat * 0x10000 + b.toNat * 0x100) 3
  | a :: b :: c :: rest =>
    letters (a.toNat * 0x10000 + b.toNat * 0x100 + c.toNat) 4 ++ encode rest

end EditorDocs.Base64
