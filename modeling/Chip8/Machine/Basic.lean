import Chip8.Dialect
import Chip8.Note
import Chip8.Screen
/-!
# The machine

Memory, sixteen registers, the index register I, the program counter, the call stack, two timers
and the screen. The machine looks at no clock: something else decides when it steps and when its
timers tick. Keys are handed to it when it steps.
-/

namespace Chip8

structure Machine where
  memory : Memory := .initial
  registers : Vector UInt8 16 := Vector.replicate 16 0
  index : UInt16 := 0
  pc : UInt16 := 0x200
  stack : List UInt16 := []
  delay : UInt8 := 0
  sound : UInt8 := 0
  screen : Screen := .blank
  redraw : Bool := true
  lastFault : Option Fault := none
  dialect : Dialect := {}
  deriving DecidableEq

instance : Inhabited Machine := ⟨{}⟩

structure Outcome where
  machine : Machine
  fault : Option Fault
  notes : List Note
  deriving DecidableEq

namespace Machine

def initial (dialect : Dialect) : Machine := { dialect }

def reset (m : Machine) : Machine := initial m.dialect

def report (m : Machine) (notes : List Note) : Option Fault → Outcome
  | none => ⟨m, none, notes⟩
  | some f => ⟨{ m with lastFault := some f }, some f, notes ++ [.fault f]⟩

/-- Copies a program to 0x200. One that does not fit is refused as a whole. -/
def load (m : Machine) (program : Array UInt8) : Outcome :=
  match m.memory.copy Memory.programStart program with
  | .ok memory => { m with memory }.report [.loaded program.size] none
  | .error misfit =>
    m.report [.misfit misfit]
      (some (.programTooLarge program.size (Memory.size - Memory.programStart)))

def tick (m : Machine) : Machine :=
  { m with
    delay := if m.delay = 0 then 0 else m.delay - 1
    sound := if m.sound = 0 then 0 else m.sound - 1 }

def buzzing (m : Machine) : Bool := m.sound > 0

def takeRedraw (m : Machine) : Bool × Machine := (m.redraw, { m with redraw := false })

def register (m : Machine) (x : UInt8) : UInt8 := m.registers[x.toNat % 16]

end Machine

/-- Why something cannot be carried out at all. No program and no word of one leads to this. -/
inductive Crash : Type
  | noRegister : (x : UInt8) → Crash
  | noAddress : (base : UInt16) → (offset : UInt8) → Crash
  | noGlyph : (digit : Nat) → Crash
  | noCell : (x y : Nat) → Crash
  | noRoom : (address : Nat) → Crash
  | noSlice : (start stop : Nat) → Crash
  deriving DecidableEq, Repr

namespace Machine

def getV (m : Machine) (x : UInt8) : Except Crash UInt8 :=
  match m.registers[x.toNat]? with
  | some value => .ok value
  | none => .error (.noRegister x)

def setV (m : Machine) (x value : UInt8) : Except Crash Machine :=
  if h : x.toNat < 16 then .ok { m with registers := m.registers.set x.toNat value h }
  else .error (.noRegister x)

def setFlag (m : Machine) (flag : Bool) : Machine :=
  { m with registers := m.registers.set 15 (if flag then 1 else 0) }

end Machine

end Chip8
