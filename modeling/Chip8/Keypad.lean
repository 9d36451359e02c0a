namespace Chip8

structure Keypad where
  held : Vector Bool 16
  deriving DecidableEq

namespace Keypad

def released : Keypad := ⟨Vector.replicate 16 false⟩

instance : Inhabited Keypad := ⟨released⟩

def isHeld (k : Keypad) (key : UInt8) : Bool := k.held[key.toNat]?.getD false

def first? (k : Keypad) : Option UInt8 :=
  ((List.range 16).map UInt8.ofNat).find? k.isHeld

inductive Write : Type
  | set : (key : UInt8) → (held : Bool) → Write
  | releaseAll : Write
  deriving DecidableEq, Repr

namespace Write

def press (key : UInt8) : Write := .set key true

def release (key : UInt8) : Write := .set key false

end Write

def write (k : Keypad) : Write → Keypad
  | .set key held => ⟨k.held.setIfInBounds key.toNat held⟩
  | .releaseAll => released

end Keypad

end Chip8
