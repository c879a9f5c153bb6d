import VisualNovel.Decimal.Binary

/-
  The remainder of a division of floating-point numbers: what is left of the dividend after
  taking away the divisor as often as it fits, with the sign of the dividend. It is exact.
-/

namespace VisualNovel.Decimal

/-- The pattern of the remainder of two patterns. -/
def BinaryFormat.remainder (f : BinaryFormat) (a b : Nat) : Nat :=
  match f.decode a, f.decode b with
  | .nan, _ | _, .nan | .infinite, _ => f.nanBits
  | .finite _ _, .infinite => a
  | .finite m e, .finite n g =>
    if n = 0 then f.nanBits
    else
      let unit := min e g
      let rest := m * Nat.pow 2 (e - unit).toNat % (n * Nat.pow 2 (g - unit).toNat)
      let size := if 0 ≤ unit then f.nearest (rest * Nat.pow 2 unit.toNat) 1
        else f.nearest rest (Nat.pow 2 (-unit).toNat)
      if f.isNegative a then f.signBit + size else size

/-- The remainder of two numbers of double precision. -/
def floatRemainder (a b : Float) : Float :=
  Float.ofBits (UInt64.ofNat (BinaryFormat.double.remainder a.toBits.toNat b.toBits.toNat))

end VisualNovel.Decimal
