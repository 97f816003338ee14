import Vhdl.Decimal.Shortest

/-! # Binary floating-point numbers

A double is kept as its 64 bits. Zeros of both signs are equal and a NaN differs from itself.
-/

namespace Vhdl

structure Binary64 where
  bits : UInt64
  deriving DecidableEq, Repr

namespace Binary64

/-- The weight of the least exponent bit, and of the significand bit that is not stored. -/
def hiddenBit : Nat := 0x10000000000000

def isNegative (x : Binary64) : Bool :=
  x.bits.toNat / hiddenBit / 2048 = 1

def biasedExponent (x : Binary64) : Nat :=
  x.bits.toNat / hiddenBit % 2048

def fraction (x : Binary64) : Nat :=
  x.bits.toNat % hiddenBit

def isNaN (x : Binary64) : Bool :=
  x.biasedExponent = 2047 && x.fraction ≠ 0

def isInfinite (x : Binary64) : Bool :=
  x.biasedExponent = 2047 && x.fraction = 0

def isZero (x : Binary64) : Bool :=
  x.biasedExponent = 0 && x.fraction = 0

instance : BEq Binary64 where
  beq x y := !x.isNaN && !y.isNaN && (x.bits == y.bits || (x.isZero && y.isZero))

/-- The magnitude of a finite number with the interval that rounds to it. -/
def rounding (x : Binary64) : Rounding :=
  if x.biasedExponent = 0 then .around x.fraction (-1074) false
  else .around (hiddenBit + x.fraction) (x.biasedExponent - 1075)
    (x.fraction = 0 && x.biasedExponent ≠ 1)

/-- Half a unit above the greatest finite number. From there on numbers round to infinity. -/
def overflowBound : Nat :=
  Nat.pow 2 1024 - Nat.pow 2 970

/-- Does a decimal round to infinity? The number of its digits before the point decides, unless it
is that of the bound. -/
def overflows (d : Decimal) : Bool :=
  let whole := (Decimal.numDigits d.digits : Int) + d.exponent
  d.digits ≠ 0 && (309 < whole || (whole = 309 &&
    overflowBound * Nat.pow 10 (-d.exponent).toNat ≤ d.digits * Nat.pow 10 d.exponent.toNat))

/-- Digits with a point after the first `whole` of them, zeros filling both sides. -/
def positional (digits : String) (whole : Int) : String :=
  let count := digits.length
  if whole ≤ 0 then "0." ++ String.ofList (List.replicate (-whole).toNat '0') ++ digits
  else if (count : Int) ≤ whole then
    digits ++ String.ofList (List.replicate (whole.toNat - count) '0') ++ ".0"
  else
    String.ofList (digits.toList.take whole.toNat) ++ "." ++
      String.ofList (digits.toList.drop whole.toNat)

/-- One digit, the others behind a point, and the exponent. -/
def scientific (digits : String) (exponent : Int) : String :=
  let tail := digits.toList.drop 1
  String.ofList (digits.toList.take 1) ++
    (if tail.isEmpty then "" else "." ++ String.ofList tail) ++
    "e" ++ (if exponent < 0 then "-" else "") ++ Nat.repr exponent.natAbs

/-- The shortest digits that read back to the number. They are written out where the leading digit
stands between the fourth place behind the point and the sixteenth before it, and with an exponent
otherwise. -/
def magnitude (x : Binary64) : String :=
  if x.isZero then "0.0"
  else
    let shortest := x.rounding.shortest
    let digits := Nat.repr shortest.digits
    let exponent := shortest.exponent + (digits.length : Int) - 1
    if -4 ≤ exponent ∧ exponent < 16 then positional digits (exponent + 1)
    else scientific digits exponent

def render (x : Binary64) : String :=
  if x.isNaN then "NaN"
  else (if x.isNegative then "-" else "") ++ (if x.isInfinite then "inf" else x.magnitude)

end Binary64

end Vhdl
