import Chip8.Command

namespace Chip8.Terminal

inductive Key : Type
  | char : (c : Char) → Key
  | function : (n : Nat) → Key
  | enter : Key
  | escape : Key
  | named : (name : String) → Key
  deriving DecidableEq, Repr

def Key.command? : Key → Option Command
  | .char 'p' => some .togglePause
  | .char 'n' => some .step
  | .enter => some .reset
  | .escape => some .quit
  | _ => none

inductive Layout : Type
  | positional : Layout
  | hexadecimal : Layout
  deriving DecidableEq, Repr

namespace Layout

def positions : List Char :=
  ['x', '1', '2', '3', 'q', 'w', 'e', 'a', 's', 'd', 'z', 'c', '4', 'r', 'f', 'v']

def digits : List Char :=
  ['0', '1', '2', '3', '4', '5', '6', '7', '8', '9', 'a', 'b', 'c', 'd', 'e', 'f']

def chars : Layout → List Char
  | .positional => positions
  | .hexadecimal => digits

/-- The key of the keypad that a key stands for. The case of a letter does not matter. -/
def key? (l : Layout) : Key → Option UInt8
  | .char c => (l.chars.idxOf? c.toLower).map UInt8.ofNat
  | _ => none

end Layout

end Chip8.Terminal
