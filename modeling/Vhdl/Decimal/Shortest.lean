/-! # Shortest decimals

A positive number `significand * 2 ^ exponent` is written with the fewest decimal digits that lie
in the interval of numbers closer to it than to its neighbours. All arithmetic is exact.
-/

namespace Vhdl

/-- The number `digits * 10 ^ exponent`. -/
structure Decimal where
  digits : Nat
  exponent : Int
  deriving DecidableEq, Repr

namespace Decimal

def numDigits (n : Nat) : Nat :=
  (Nat.toDigits 10 n).length

/-- Move trailing zeros of the digits into the exponent, at most `fuel` of them. -/
def trim : Nat → Decimal → Decimal
  | 0, d => d
  | fuel + 1, d =>
    if d.digits ≠ 0 ∧ d.digits % 10 = 0 then trim fuel ⟨d.digits / 10, d.exponent + 1⟩ else d

end Decimal

/-- A positive number and its rounding interval, in quarters of the unit `2 ^ exponent`. -/
structure Rounding where
  low : Nat
  mid : Nat
  high : Nat
  closed : Bool
  exponent : Int

namespace Rounding

/-- The interval around a significand. It ends at half the gap to each neighbour, the lower gap
being half as wide where the significand is the least of its exponent, and it holds its ends where
the significand is even. -/
def around (significand : Nat) (exponent : Int) (leastOfExponent : Bool) : Rounding where
  low := 4 * significand - (if leastOfExponent then 1 else 2)
  mid := 4 * significand
  high := 4 * significand + 2
  closed := significand % 2 = 0
  exponent

/-- Numerator and denominator of `2 ^ (exponent - 2) / 10 ^ k`. -/
def unit (r : Rounding) (k : Int) : Nat × Nat :=
  let two := r.exponent - 2
  (Nat.pow 2 two.toNat * Nat.pow 10 (-k).toNat, Nat.pow 2 (-two).toNat * Nat.pow 10 k.toNat)

/-- The decimal exponent of the leading digit. -/
def leading (r : Rounding) : Int :=
  let (num, den) := r.unit 0
  let whole := r.mid * num / den
  if whole = 0 then -(Decimal.numDigits ((den - 1) / (r.mid * num)) : Int)
  else (Decimal.numDigits whole : Int) - 1

/-- Does `digits * 10 ^ k` lie in the interval? -/
def holds (r : Rounding) (k : Int) (digits : Nat) : Bool :=
  let (num, den) := r.unit k
  let value := digits * den
  if r.closed then r.low * num ≤ value && value ≤ r.high * num
  else r.low * num < value && value < r.high * num

/-- The nearer of the two neighbours with `count` digits that lie in the interval, the upper one
if both are equally near. -/
def withDigits? (r : Rounding) (count : Nat) : Option Decimal :=
  let k := r.leading - (count : Int) + 1
  let (num, den) := r.unit k
  let below := r.mid * num / den
  let rest := r.mid * num % den
  match r.holds k below, r.holds k (below + 1) with
  | true, true => some ⟨if 2 * rest < den then below else below + 1, k⟩
  | true, false => some ⟨below, k⟩
  | false, true => some ⟨below + 1, k⟩
  | false, false => none

/-- The first digit count from `count` on with a decimal in the interval, trying `fuel` counts. -/
def search (r : Rounding) (count : Nat) : Nat → Decimal
  | 0 => ⟨0, 0⟩
  | fuel + 1 => (r.withDigits? count).getD (search r (count + 1) fuel)

/-- Seventeen digits always suffice for a significand of 53 bits. -/
def shortest (r : Rounding) : Decimal :=
  (r.search 1 17).trim 17

end Rounding

end Vhdl
