import Chip8.Decimal.Binary64

namespace Chip8.Numeral

def digit? (c : Char) : Option Nat :=
  if '0' ≤ c ∧ c ≤ '9' then some (c.toNat - '0'.toNat) else none

def digits? (cs : List Char) : Option Nat :=
  cs.foldlM (fun n c => (digit? c).map (10 * n + ·)) 0

def signed : List Char → Bool × List Char
  | '-' :: cs => (true, cs)
  | '+' :: cs => (false, cs)
  | cs => (false, cs)

def nat? (s : String) : Option Nat :=
  let cs := match s.toList with
    | '+' :: cs => cs
    | cs => cs
  if cs.isEmpty then none else digits? cs

def tens? (cs : List Char) : Option Int :=
  let (negative, cs) := signed cs
  if cs.isEmpty then none
  else (digits? cs).map fun n => if negative then -n else n

def decimal? (negative : Bool) (cs : List Char) : Option Binary64 := do
  let isMark := fun c => c == 'e' || c == 'E'
  let row := cs.takeWhile (!isMark ·)
  let tens ← match cs.dropWhile (!isMark ·) with
    | [] => some 0
    | _ :: power => tens? power
  let whole := row.takeWhile (· ≠ '.')
  let fraction := (row.dropWhile (· ≠ '.')).drop 1
  if whole.isEmpty ∧ fraction.isEmpty then none
  else
    let digits ← digits? (whole ++ fraction)
    return .ofDecimal negative digits (tens - fraction.length)

def binary64? (s : String) : Option Binary64 :=
  let (negative, cs) := signed s.toList
  let word := cs.map Char.toLower
  if word = "inf".toList ∨ word = "infinity".toList then some (.infinite negative)
  else if word = "nan".toList then some .nan
  else decimal? negative cs

end Chip8.Numeral
