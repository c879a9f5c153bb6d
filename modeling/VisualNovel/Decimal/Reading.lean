import VisualNovel.Decimal.Binary

/-
  Reading numbers. An integer is an optional sign and digits, and has to fit its range. A
  floating-point number is an optional sign followed by `inf`, `infinity` or `nan` in any
  case, or by digits with an optional point and an optional decimal exponent; it is rounded
  once, from the exact decimal.
-/

namespace VisualNovel.Decimal

/-- The value of a list of decimal digits, after those with the value `acc`. -/
def digitsValue (s : List Char) (acc : Nat) : Nat :=
  s.foldl (fun n c => 10 * n + (c.toNat - '0'.toNat)) acc

/-- A natural number: digits only, at least one. -/
def readDigits? (s : List Char) : Option Nat :=
  if !s.isEmpty && s.all Char.isDigit then some (digitsValue s 0) else none

/-- A sign, if there is one, and the rest. -/
def splitSign : List Char → Bool × List Char
  | '-' :: rest => (true, rest)
  | '+' :: rest => (false, rest)
  | s => (false, s)

/-- A range of integers; a range without negative numbers admits no minus sign. -/
structure IntRange where
  low : Int
  high : Int
  deriving Repr, DecidableEq

namespace IntRange

/-- Signed words of 32 bits. -/
def int32 : IntRange := ⟨-2147483648, 2147483647⟩

/-- Signed words of 64 bits. -/
def int64 : IntRange := ⟨-9223372036854775808, 9223372036854775807⟩

/-- Unsigned words of 32 bits. -/
def uint32 : IntRange := ⟨0, 4294967295⟩

/-- Unsigned words of 64 bits. -/
def uint64 : IntRange := ⟨0, 18446744073709551615⟩

/-- Whether a number lies in the range. -/
def holds (r : IntRange) (i : Int) : Bool := r.low ≤ i && i ≤ r.high

/-- Reads an integer of the range. -/
def read? (r : IntRange) (s : List Char) : Option Int :=
  let (negative, digits) := splitSign s
  if negative && decide (0 ≤ r.low) then none
  else
    (readDigits? digits).bind fun n =>
      let i : Int := if negative then -(n : Int) else n
      if r.holds i then some i else none

end IntRange

/-- A decimal exponent: the letter, an optional sign and at least one digit; nothing at all
    stands for zero. -/
def readExponent? : List Char → Option Int
  | [] => some 0
  | c :: rest =>
    if c = 'e' || c = 'E' then
      let (negative, digits) := splitSign rest
      (readDigits? digits).map fun n => if negative then -(n : Int) else n
    else none

/-- The pattern nearest to `digits · 10^exponent`. Decimals far outside the range of the
    format are settled by their size. -/
def BinaryFormat.nearestDecimal (f : BinaryFormat) (digits : Nat) (exponent : Int) : Nat :=
  if digits = 0 then 0
  else
    let size : Int := ((Nat.toDigits 10 digits).length : Int) + exponent
    if 400 < size then f.infinityBits
    else if size < -400 then 0
    else if 0 ≤ exponent then f.nearest (digits * Nat.pow 10 exponent.toNat) 1
    else f.nearest digits (Nat.pow 10 (-exponent).toNat)

/-- Reads an unsigned number: digits, a point, digits and an exponent. -/
def BinaryFormat.readUnsigned? (f : BinaryFormat) (s : List Char) : Option Nat :=
  let whole := s.takeWhile Char.isDigit
  let rest := s.dropWhile Char.isDigit
  let (places, tail) :=
    match rest with
    | '.' :: r => (r.takeWhile Char.isDigit, r.dropWhile Char.isDigit)
    | r => ([], r)
  if whole.isEmpty && places.isEmpty then none
  else
    (readExponent? tail).map fun x =>
      f.nearestDecimal (digitsValue places (digitsValue whole 0)) (x - places.length)

/-- Reads a bit pattern. -/
def BinaryFormat.read? (f : BinaryFormat) (s : List Char) : Option Nat :=
  let (negative, rest) := splitSign s
  let lower := rest.map Char.toLower
  let signed := fun bits => if negative then f.signBit + bits else bits
  if lower = ['n', 'a', 'n'] then some f.nanBits
  else if lower = ['i', 'n', 'f'] || lower = ['i', 'n', 'f', 'i', 'n', 'i', 't', 'y'] then
    some (signed f.infinityBits)
  else (f.readUnsigned? rest).map signed

/-- Reads a number of double precision. -/
def readFloat? (s : List Char) : Option Float :=
  (BinaryFormat.double.read? s).map fun bits => Float.ofBits (UInt64.ofNat bits)

/-- Reads a number of single precision. -/
def readSingle? (s : List Char) : Option Float32 :=
  (BinaryFormat.single.read? s).map fun bits => Float32.ofBits (UInt32.ofNat bits)

end VisualNovel.Decimal
