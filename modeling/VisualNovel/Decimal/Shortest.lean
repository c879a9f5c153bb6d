import VisualNovel.Decimal.Binary

/-
  The shortest decimal of a binary floating-point number: the fewest digits that still read
  back as the same number, and of those the decimal nearest to it, the greater one if two are
  equally near. The reals that round to a number form an interval around it; its ends belong to
  it when the significand is even. A decimal with `count` digits that lies in the interval
  exists only if one of the two neighbours of the number on that grid does, so these two are
  tried for one digit, two digits, and so on.
-/

namespace VisualNovel.Decimal

/-- The decimal `digits · 10^exponent`. -/
structure Numeral where
  digits : Nat
  exponent : Int
  deriving Repr, DecidableEq

/-- The number of decimal digits of a natural number, one for zero. -/
def digitCount (n : Nat) : Nat := (Nat.toDigits 10 n).length

/-- The `k` with `10^(k-1) ≤ num / den < 10^k`, for positive `num` and `den`. -/
def decimalScale (num den : Nat) : Int :=
  if den ≤ num then (digitCount (num / den) : Int)
  else
    let d := digitCount (den / num)
    if den = num * Nat.pow 10 (d - 1) then 2 - (d : Int) else 1 - (d : Int)

/-- A number `v / den` with the ends `low / den` and `high / den` of the interval of reals
    that round to it. -/
structure Rounding where
  low : Nat
  value : Nat
  high : Nat
  den : Nat
  closed : Bool
  deriving Repr, DecidableEq

/-- The interval of `m · 2^e`. Below a power of two the numbers lie twice as close, so there
    the lower end is nearer. -/
def Rounding.of (f : BinaryFormat) (m : Nat) (e : Int) : Rounding :=
  let below := if m = Nat.pow 2 (f.precision - 1) && decide (f.minExponent < e) then 1 else 2
  let up := Nat.pow 2 (e - 2).toNat
  ⟨(4 * m - below) * up, 4 * m * up, (4 * m + 2) * up, Nat.pow 2 (2 - e).toNat, m % 2 == 0⟩

/-- Whether `n · unit` lies in the interval, where the unit is `unitNum / unitDen`. -/
def Rounding.holds (r : Rounding) (n unitNum unitDen : Nat) : Bool :=
  let point := n * unitNum * r.den
  let low := r.low * unitDen
  let high := r.high * unitDen
  if r.closed then low ≤ point && point ≤ high else low < point && point < high

/-- The neighbours of the number on the grid of decimals `n · 10^x`: the nearer one that lies
    in the interval, at equal distance the greater one. -/
def Rounding.onGrid? (r : Rounding) (x : Int) : Option Numeral :=
  let unitNum := Nat.pow 10 x.toNat
  let unitDen := Nat.pow 10 (-x).toNat
  let lower := r.value * unitDen / (r.den * unitNum)
  let rest := 2 * (r.value * unitDen % (r.den * unitNum))
  let below := r.holds lower unitNum unitDen
  let above := r.holds (lower + 1) unitNum unitDen
  if below && (decide (rest < r.den * unitNum) || !above) then some ⟨lower, x⟩
  else if above then some ⟨lower + 1, x⟩
  else none

/-- Tries the grids with `count` digits and more, for `tries` further counts. -/
def Rounding.search (r : Rounding) (scale : Int) : Nat → Nat → Numeral
  | 0, count => ⟨r.value * Nat.pow 10 ((count : Int) - scale).toNat / r.den, scale - count⟩
  | tries + 1, count => (r.onGrid? (scale - count)).getD (r.search scale tries (count + 1))

/-- A power of ten written with one digit. -/
def Numeral.contract (d : Numeral) : Numeral :=
  let k := digitCount d.digits - 1
  if d.digits = Nat.pow 10 k then ⟨1, d.exponent + k⟩ else d

/-- The shortest decimal of `m · 2^e`, zero for `m = 0`. -/
def shortest (f : BinaryFormat) (m : Nat) (e : Int) : Numeral :=
  if m = 0 then ⟨0, 0⟩
  else
    let r := Rounding.of f m e
    (r.search (decimalScale r.value r.den) f.precision 1).contract

end VisualNovel.Decimal
