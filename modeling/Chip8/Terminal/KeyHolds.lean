namespace Chip8.Terminal

/-- When each of sixteen keys was last pressed, as long as it is taken as held. Times are clock
readings in nanoseconds. -/
structure KeyHolds where
  timeout : Nat
  pressedAt : Vector (Option Nat) 16 := Vector.replicate 16 none
  deriving DecidableEq

namespace KeyHolds

def push (h : KeyHolds) (key : UInt8) (now : Nat) : KeyHolds :=
  { h with pressedAt := h.pressedAt.setIfInBounds key.toNat (some now) }

def isExpired (h : KeyHolds) (now : Nat) : Option Nat → Bool
  | some pressed => h.timeout ≤ now - pressed
  | none => false

def expired (h : KeyHolds) (now : Nat) : List UInt8 :=
  ((List.range 16).filter fun k => h.isExpired now (h.pressedAt[k]?.getD none)).map UInt8.ofNat

def popExpired (h : KeyHolds) (now : Nat) : List UInt8 × KeyHolds :=
  (h.expired now,
    { h with pressedAt := h.pressedAt.map fun p => if h.isExpired now p then none else p })

end KeyHolds

end Chip8.Terminal
