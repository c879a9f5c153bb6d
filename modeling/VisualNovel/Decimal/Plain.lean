import VisualNovel.Decimal.Shortest

/-
  Floating-point numbers as plain text. A number is written with the digits of its shortest
  decimal in positional notation, never with an exponent, without a point when it is whole;
  zero keeps its sign, infinity is `inf` and a value that is no number is `NaN`, unsigned.
-/

namespace VisualNovel.Decimal

/-- A decimal in positional notation. -/
def Numeral.positional (d : Numeral) : List Char :=
  let digits := Nat.toDigits 10 d.digits
  if 0 ≤ d.exponent then
    if d.digits = 0 then ['0'] else digits ++ List.replicate d.exponent.toNat '0'
  else
    let places := (-d.exponent).toNat
    let whole := digits.length - places
    if whole = 0 then '0' :: '.' :: (List.replicate (places - digits.length) '0' ++ digits)
    else digits.take whole ++ '.' :: digits.drop whole

/-- The text of a bit pattern. -/
def BinaryFormat.plainText (f : BinaryFormat) (bits : Nat) : String :=
  let sign := if f.isNegative bits then ['-'] else []
  match f.decode bits with
  | .nan => "NaN"
  | .infinite => String.ofList (sign ++ ['i', 'n', 'f'])
  | .finite m e => String.ofList (sign ++ (shortest f m e).positional)

/-- The text of a number of double precision. -/
def floatText (x : Float) : String := BinaryFormat.double.plainText x.toBits.toNat

/-- The text of a number of single precision. -/
def singleText (x : Float32) : String := BinaryFormat.single.plainText x.toBits.toNat

/-- The text of an integer. -/
def intText (i : Int) : String :=
  String.ofList (if i < 0 then '-' :: Nat.toDigits 10 i.natAbs else Nat.toDigits 10 i.natAbs)

/-- The text of a natural number. -/
def natText (n : Nat) : String := String.ofList (Nat.toDigits 10 n)

end VisualNovel.Decimal
