import Chip8.Decimal.Rounding
/-!
# Binary floating point

The numbers of the 64 bit binary format. Each finite one is a whole number of units of 2^-1074: a
mantissa below 2^53, doubled as often as its scale says. The scale is the least possible, so a
number has one representation.
-/

namespace Chip8

inductive Binary64 : Type
  | finite : (negative : Bool) → (mantissa scale : Nat) → Binary64
  | infinite : (negative : Bool) → Binary64
  | nan : Binary64
  deriving DecidableEq, Repr

namespace Binary64

def one : Nat := Nat.pow 2 1074

def mantissaLimit : Nat := Nat.pow 2 53

def maxScale : Nat := 2045

def scaleOf (units : Nat) : Nat := units.log2 - 52

/-- The number nearest to `n / d`, of two the one with the even mantissa. -/
def ofRatio (negative : Bool) (n d : Nat) : Binary64 :=
  let scale := scaleOf (n * one / d)
  let mantissa := roundDiv (n * one) (d * Nat.pow 2 scale)
  let (mantissa, scale) :=
    if mantissa < mantissaLimit then (mantissa, scale) else (mantissaLimit / 2, scale + 1)
  if scale ≤ maxScale then .finite negative mantissa scale else .infinite negative

/-- The number nearest to a decimal numeral: `digits` tenths, hundredths or whole tens, as `tens`
says. Numerals whose leading digit stands far outside the range are not worked out. -/
def ofDecimal (negative : Bool) (digits : Nat) (tens : Int) : Binary64 :=
  let places : Int := (Nat.toDigits 10 digits).length
  if digits = 0 ∨ tens + places < -400 then .finite negative 0 0
  else if 400 < tens + places then .infinite negative
  else ofRatio negative (digits * Nat.pow 10 tens.toNat) (Nat.pow 10 (-tens).toNat)

end Binary64

end Chip8
