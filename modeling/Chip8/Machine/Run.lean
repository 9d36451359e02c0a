import Chip8.Machine.Step

namespace Chip8

structure Dice where
  byte : Nat → UInt8
  used : Nat := 0

namespace Dice

def top (d : Dice) : UInt8 := d.byte d.used

def next (d : Dice) : Dice := { d with used := d.used + 1 }

instance : Inhabited Dice := ⟨{ byte := fun _ => 0 }⟩

def mix (z : UInt64) : UInt64 :=
  let z := (z ^^^ (z >>> 30)) * 0xBF58476D1CE4E5B9
  let z := (z ^^^ (z >>> 27)) * 0x94D049BB133111EB
  z ^^^ (z >>> 31)

def seeded (seed : UInt64) : Dice :=
  { byte := fun n => (mix (seed + UInt64.ofNat n * 0x9E3779B97F4A7C15)).toUInt8 }

end Dice

structure Run where
  machine : Machine
  dice : Dice := default
  notes : Array Note := #[]

namespace Run

def accept (r : Run) (o : Outcome) : Run :=
  { r with machine := o.machine, notes := r.notes ++ o.notes }

def load (r : Run) (program : Array UInt8) : Run × Option Fault :=
  let done := r.machine.load program
  (r.accept done, done.fault)

def reset (r : Run) : Run := { r with machine := r.machine.reset, notes := r.notes.push .resetting }

def tick (r : Run) : Run := { r with machine := r.machine.tick }

def takeRedraw (r : Run) : Bool × Run :=
  let (redraw, machine) := r.machine.takeRedraw
  (redraw, { r with machine })

def step (keys : Keypad) (r : Run) : Run × Option Fault :=
  let done := r.machine.step ⟨keys, r.dice.top⟩
  ({ r.accept done with dice := r.dice.next }, done.fault)

def batch (keys : Keypad) : Nat → Run → Run
  | 0, r => r
  | n + 1, r => batch keys n (r.step keys).1

def execute (keys : Keypad) (r : Run) (i : Instruction) : Except Crash (Run × Option Fault) := do
  let done ← r.machine.perform ⟨keys, r.dice.top⟩ i
  return ({ r.accept done with dice := r.dice.next }, done.fault)

def executeAll (keys : Keypad) (r : Run) : List Instruction → Except Crash (Run × Option Fault)
  | [] => .ok (r, none)
  | i :: is => do
    let (r, fault) ← r.execute keys i
    let (r, later) ← r.executeAll keys is
    return (r, fault <|> later)

end Run

end Chip8
