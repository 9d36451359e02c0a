namespace Chip8.Hex

def digits (width n : Nat) : List Char :=
  let ds := Nat.toDigits 16 n
  List.replicate (width - ds.length) '0' ++ ds

def lower (width n : Nat) : String := String.ofList (digits width n)

def upper (width n : Nat) : String := String.ofList ((digits width n).map Char.toUpper)

/-- Lower-case digits after `0x`; the width counts the digits alone. -/
def marked (width n : Nat) : String := "0x" ++ lower width n

end Chip8.Hex
