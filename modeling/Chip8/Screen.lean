namespace Chip8

structure Screen where
  cells : Vector Bool 2048
  deriving DecidableEq

namespace Screen

def width : Nat := 64

def height : Nat := 32

def blank : Screen := ⟨Vector.replicate 2048 false⟩

instance : Inhabited Screen := ⟨blank⟩

/-- Whether the cell is on. Off the screen every cell is off. -/
def get (s : Screen) (x y : Nat) : Bool :=
  if h : x < 64 ∧ y < 32 then s.cells[64 * y + x] else false

def flip? (s : Screen) (x y : Nat) : Option Screen :=
  if h : x < 64 ∧ y < 32 then
    some ⟨s.cells.set (64 * y + x) (!s.cells[64 * y + x])⟩
  else none

def row (s : Screen) (y : Nat) : List Bool := (List.range width).map (s.get · y)

def rows (s : Screen) : List (List Bool) := (List.range height).map s.row

def lit (s : Screen) : Nat := s.cells.count true

def lines (on off : Char) (s : Screen) : List String :=
  s.rows.map fun cells => String.ofList (cells.map fun c => if c then on else off)

def toText (s : Screen) : String := String.join ((s.lines '#' ' ').map (· ++ "\n"))

def toBlock (s : Screen) : String :=
  "Framebuffer \x7b\n" ++ String.join ((s.lines '#' '.').map ("    " ++ · ++ "\n")) ++ "\x7d"

end Screen

end Chip8
