import Chip8.Decimal.Binary64

namespace Chip8.Binary64

structure Decimal where
  digits : Nat
  tens : Int
  deriving DecidableEq, Repr

namespace Decimal

def text (d : Decimal) : String :=
  let row := Nat.toDigits 10 d.digits
  if 0 ≤ d.tens then String.ofList (row ++ List.replicate d.tens.toNat '0')
  else
    let places := (-d.tens).toNat
    let row := List.replicate (places + 1 - row.length) '0' ++ row
    String.ofList (row.take (row.length - places) ++ '.' :: row.drop (row.length - places))

end Decimal

/-- What reads back as a number, as an interval around it, with or without its ends. -/
structure Interval where
  low : Nat
  value : Nat
  high : Nat
  closed : Bool

namespace Interval

def holds (i : Interval) (p : Nat) : Bool :=
  i.low < p && p < i.high || i.closed && (p == i.low || p == i.high)

def nearest? (i : Interval) (grid : Nat) : Option Nat :=
  let below := i.value / grid
  match i.holds (below * grid), i.holds ((below + 1) * grid) with
  | false, false => none
  | true, false => some below
  | false, true => some (below + 1)
  | true, true => some (if 2 * (i.value % grid) < grid then below else below + 1)

end Interval

/-- The finest decimal grid that is ever needed: no number is closer to another than the least one
is to zero. -/
def finest : Nat := 324

/-- Around a positive finite number. All four are counted in quarter units, divided further so
that every grid is a whole number of them. Below a power of two the numbers lie twice as close. -/
def interval (mantissa scale : Nat) : Interval :=
  let quarter := Nat.pow 2 scale * Nat.pow 10 finest
  let value := 4 * mantissa * quarter
  let close := 2 * mantissa = mantissaLimit ∧ 0 < scale
  { low := value - (if close then quarter else 2 * quarter)
    value
    high := value + 2 * quarter
    closed := mantissa % 2 = 0 }

def shortest (mantissa scale : Nat) : Decimal :=
  let i := interval mantissa scale
  let hit := (List.range 640).reverse.findSome? fun (n : Nat) =>
    (i.nearest? (4 * one * Nat.pow 10 n)).map fun digits => Decimal.mk digits (n - finest)
  hit.getD ⟨0, 0⟩

def text : Binary64 → String
  | .nan => "NaN"
  | .infinite negative => if negative then "-inf" else "inf"
  | .finite negative mantissa scale =>
    let size := if mantissa = 0 then "0" else (shortest mantissa scale).text
    if negative then "-" ++ size else size

end Chip8.Binary64
