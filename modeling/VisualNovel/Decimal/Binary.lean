/-
  Binary floating-point formats. A format says how a bit pattern is read as a sign, an
  integer significand and a power of two, and which pattern is nearest to a quotient of
  natural numbers: of two patterns at the same distance the even one. All arithmetic is exact.
-/

namespace VisualNovel.Decimal

/-- A binary interchange format: significands of `precision` bits, the leading one implied,
    and exponent fields of `exponentBits` bits. -/
structure BinaryFormat where
  precision : Nat
  exponentBits : Nat
  deriving Repr, DecidableEq

/-- What a bit pattern stands for. A finite value is `m · 2^e`. -/
inductive Magnitude where
  | finite (m : Nat) (e : Int)
  | infinite
  | nan
  deriving Repr, DecidableEq

namespace BinaryFormat

/-- Single precision. -/
def single : BinaryFormat := ⟨24, 8⟩

/-- Double precision. -/
def double : BinaryFormat := ⟨53, 11⟩

/-- The weight of the last place of the smallest numbers is two to this power. -/
def minExponent (f : BinaryFormat) : Int :=
  1 - ((Nat.pow 2 (f.exponentBits - 1) - 1 : Nat) : Int) - ((f.precision - 1 : Nat) : Int)

/-- The number of values of the exponent field, less one; that field value is kept for
    infinity and the values that are no numbers. -/
def topField (f : BinaryFormat) : Nat := Nat.pow 2 f.exponentBits - 1

/-- The pattern of positive infinity. -/
def infinityBits (f : BinaryFormat) : Nat := f.topField * Nat.pow 2 (f.precision - 1)

/-- A pattern that is no number. -/
def nanBits (f : BinaryFormat) : Nat := f.infinityBits + Nat.pow 2 (f.precision - 2)

/-- The pattern of the sign alone. -/
def signBit (f : BinaryFormat) : Nat := Nat.pow 2 (f.precision - 1 + f.exponentBits)

/-- Whether the sign of a pattern is set. -/
def isNegative (f : BinaryFormat) (bits : Nat) : Bool := bits / f.signBit % 2 == 1

/-- What a pattern stands for, its sign aside. -/
def decode (f : BinaryFormat) (bits : Nat) : Magnitude :=
  let fraction := bits % Nat.pow 2 (f.precision - 1)
  let field := bits / Nat.pow 2 (f.precision - 1) % Nat.pow 2 f.exponentBits
  if field = f.topField then
    if fraction = 0 then .infinite else .nan
  else if field = 0 then .finite fraction f.minExponent
  else .finite (fraction + Nat.pow 2 (f.precision - 1)) (f.minExponent + (field : Int) - 1)

/-- The quotient to the nearest integer, a half to the even one. -/
def roundQuotient (num den : Nat) : Nat :=
  let q := num / den
  let twice := 2 * (num % den)
  if twice < den then q
  else if den < twice then q + 1
  else if q % 2 = 0 then q else q + 1

/-- `num / den` in units of `2^e`, to the nearest integer. -/
def roundAt (num den : Nat) (e : Int) : Nat :=
  if 0 ≤ e then roundQuotient num (den * Nat.pow 2 e.toNat)
  else roundQuotient (num * Nat.pow 2 (-e).toNat) den

/-- The integer part of the binary logarithm of `num / den`, or one less. -/
def logEstimate (num den : Nat) : Int := (num.log2 : Int) - (den.log2 : Int) - 1

/-- Whether `2^k ≤ num / den`. -/
def powLe (num den : Nat) (k : Int) : Bool :=
  if 0 ≤ k then den * Nat.pow 2 k.toNat ≤ num else den ≤ num * Nat.pow 2 (-k).toNat

/-- The pattern of the number nearest to `num / den`, for `den` not zero. The significand and
    the exponent field lie next to each other, so a significand that rounds up to the next
    power of two carries into the field by itself, at the top into infinity. -/
def nearest (f : BinaryFormat) (num den : Nat) : Nat :=
  if num = 0 then 0
  else
    let estimate := logEstimate num den
    let log := if powLe num den (estimate + 1) then estimate + 1 else estimate
    let e := max f.minExponent (log - ((f.precision - 1 : Nat) : Int))
    let bits := (e - f.minExponent).toNat * Nat.pow 2 (f.precision - 1) + roundAt num den e
    min bits f.infinityBits

end BinaryFormat

end VisualNovel.Decimal
