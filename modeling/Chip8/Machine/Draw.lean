import Chip8.Machine.Basic

namespace Chip8

structure Canvas where
  screen : Screen
  collided : Bool := false
  deriving DecidableEq

namespace Canvas

/-- Where the cell at column `x` and row `y` comes to lie, if it is not cut off. -/
def place? (wrap : Bool) (x y : Nat) : Option (Nat × Nat) :=
  if wrap then some (x % Screen.width, y % Screen.height)
  else if x < Screen.width ∧ y < Screen.height then some (x, y)
  else none

def flip (c : Canvas) (wrap : Bool) (x y : Nat) : Except Crash Canvas :=
  match place? wrap x y with
  | none => .ok c
  | some (px, py) =>
    let collided := c.collided || c.screen.get px py
    match c.screen.flip? px py with
    | some screen => .ok { screen, collided }
    | none => .error (.noCell px py)

def drawRow (c : Canvas) (wrap : Bool) (x y : Nat) (byte : UInt8) : Except Crash Canvas :=
  (List.range 8).foldlM (fun c col =>
    if byte.toNat.testBit (7 - col) then c.flip wrap (x + col) y else .ok c) c

/-- Draws a sprite of `rows` rows from `address`. The first row outside of memory ends it. -/
def drawSprite (c : Canvas) (memory : Memory) (wrap : Bool) (x y address : Nat) :
    (rows : Nat) → Except Crash (Canvas × Option Fault)
  | 0 => .ok (c, none)
  | rows + 1 =>
    match memory.read address with
    | .error fault => .ok (c, some fault)
    | .ok byte => do
      let c ← c.drawRow wrap x y byte
      c.drawSprite memory wrap x (y + 1) (address + 1) rows

end Canvas

namespace Machine

def draw (m : Machine) (x y n : UInt8) : Except Crash (Machine × Option Fault) := do
  let column := (← m.getV x).toNat % Screen.width
  let row := (← m.getV y).toNat % Screen.height
  let (canvas, fault) ← Canvas.drawSprite ⟨m.screen, false⟩ m.memory m.dialect.spritesWrap
    column row m.index.toNat n.toNat
  return ({ m with screen := canvas.screen, redraw := true }.setFlag canvas.collided, fault)

end Machine

end Chip8
