import Chip8.Keypad
import Chip8.Terminal.Key
import Chip8.Terminal.KeyHolds

namespace Chip8.Terminal

def holdTimeout : Nat := 250000000

structure Listener where
  layout : Layout
  keypad : Keypad := .released
  holds : KeyHolds := { timeout := holdTimeout }
  done : Bool := false
  deriving DecidableEq

namespace Listener

structure Turn where
  key : Option Key
  pressed : Nat
  now : Nat

def press (l : Listener) (key : Key) (now : Nat) : Listener :=
  match l.layout.key? key with
  | some k => { l with keypad := l.keypad.write (.press k), holds := l.holds.push k now }
  | none => l

def releaseExpired (l : Listener) (now : Nat) : Listener :=
  let (keys, holds) := l.holds.popExpired now
  { l with keypad := keys.foldl (fun keypad k => keypad.write (.release k)) l.keypad, holds }

def turn (l : Listener) (t : Turn) : Listener × Option Command :=
  if l.done then (l, none)
  else match t.key with
    | none => (l.releaseExpired t.now, none)
    | some key =>
      match key.command? with
      | some .quit => ({ l with done := true }, some .quit)
      | some command => (l.releaseExpired t.now, some command)
      | none => ((l.press key t.pressed).releaseExpired t.now, none)

def run (l : Listener) : List Turn → Listener × List Command
  | [] => (l, [])
  | t :: ts =>
    let (l, command) := l.turn t
    let (l, commands) := l.run ts
    (l, command.toList ++ commands)

end Listener

end Chip8.Terminal
