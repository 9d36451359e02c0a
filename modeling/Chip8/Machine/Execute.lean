import Chip8.Instruction.Code
import Chip8.Keypad
import Chip8.Machine.Arithmetic
import Chip8.Machine.Draw
import Chip8.Machine.Transfer

namespace Chip8

inductive Flow : Type
  | next : Flow
  | skip : Flow
  | again : Flow
  | goto : (target : UInt16) → Flow
  deriving DecidableEq, Repr

def Flow.follow (pc : UInt16) : Flow → UInt16
  | .next => pc + 2
  | .skip => pc + 4
  | .again => pc
  | .goto target => target

/-- What an instruction did, before the program counter moves. -/
structure Effect where
  machine : Machine
  flow : Flow := .next
  fault : Option Fault := none
  notes : List Note := []

structure Inputs where
  keys : Keypad := .released
  random : UInt8 := 0

namespace Machine

def test (m : Machine) (keys : Keypad) : Condition → Except Crash Bool
  | .equalsConst x nn => do return (← m.getV x) = nn
  | .differsConst x nn => do return (← m.getV x) ≠ nn
  | .equalsRegister x y => do return (← m.getV x) = (← m.getV y)
  | .differsRegister x y => do return (← m.getV x) ≠ (← m.getV y)
  | .keyHeld x => do return keys.isHeld (← m.getV x)
  | .keyReleased x => do return !keys.isHeld (← m.getV x)

def offsetTarget (m : Machine) (x : UInt8) (nnn : UInt16) : Except Crash UInt16 := do
  let offset ← m.getV (if m.dialect.jumpAddsV0 then 0 else x)
  if nnn.toNat + offset.toNat < 65536 then
    return nnn + offset.toUInt16
  else .error (.noAddress nnn offset)

def execute (m : Machine) (inputs : Inputs) : Instruction → Except Crash Effect
  | .clearScreen => return { machine := { m with screen := .blank, redraw := true } }
  | .ret =>
    match m.stack with
    | target :: stack =>
      return { machine := { m with stack }, flow := .goto target, notes := [.returning target] }
    | [] => return { machine := m, fault := some (.stackUnderflow m.pc) }
  | .jump nnn => return { machine := m, flow := .goto nnn }
  | .call nnn =>
    let back := m.pc + 2
    return {
      machine := { m with stack := back :: m.stack }
      flow := .goto nnn
      notes := [.calling nnn back] }
  | .skip condition => do
    if ← m.test inputs.keys condition then
      return { machine := m, flow := .skip, notes := [.skipping (m.pc + 2)] }
    else return { machine := m }
  | .setConst x nn => return { machine := ← m.setV x nn }
  | .addConst x nn => do
    let v ← m.getV x
    return { machine := ← m.setV x (v + nn) }
  | .arith op x y => return { machine := ← m.arith op x y }
  | .setIndex nnn => return { machine := { m with index := nnn } }
  | .jumpOffset x nnn => return { machine := m, flow := .goto (← m.offsetTarget x nnn) }
  | .random x nn => return { machine := ← m.setV x (inputs.random &&& nn) }
  | .draw x y n => do
    let (machine, fault) ← m.draw x y n
    return { machine, fault }
  | .readDelay x => return { machine := ← m.setV x m.delay }
  | .waitKey x =>
    match inputs.keys.first? with
    | some key => return { machine := ← m.setV x key, notes := [.gotKey key] }
    | none => return { machine := m, flow := .again }
  | .setDelay x => do
    let delay ← m.getV x
    return { machine := { m with delay }, notes := [.delaySet delay] }
  | .setSound x => do
    let sound ← m.getV x
    return { machine := { m with sound }, notes := [.soundSet sound] }
  | .addIndex x => return { machine := ← m.addIndex x }
  | .pointGlyph x => return { machine := ← m.pointGlyph x }
  | .storeDecimal x => do
    match m.memory.copy m.index.toNat (decimalDigits (← m.getV x)) with
    | .ok memory => return { machine := { m with memory } }
    | .error misfit =>
      return { machine := m, fault := some misfit.fault, notes := [.misfit misfit] }
  | .storeRegisters x => do
    let (machine, fault) ← m.storeRegisters x
    return { machine, fault }
  | .loadRegisters x => do
    let (machine, fault) ← m.loadRegisters x
    return { machine, fault }

end Machine

def Effect.settle (e : Effect) : Outcome :=
  { e.machine with pc := e.flow.follow e.machine.pc }.report e.notes e.fault

namespace Machine

def perform (m : Machine) (inputs : Inputs) (i : Instruction) : Except Crash Outcome := do
  return (← m.execute inputs i).settle

def pass (m : Machine) (fault : Fault) : Outcome :=
  { m with pc := m.pc + 2 }.report [] (some fault)

def fetch (m : Machine) : Except Fault (Word × Instruction) :=
  match m.memory.readWord m.pc.toNat with
  | .error _ => .error (.counterOutOfBounds m.pc)
  | .ok opcode =>
    match Instruction.decode opcode with
    | none => .error (.unknownOpcode opcode m.pc)
    | some i => .ok (opcode, i)

def cycle (m : Machine) (inputs : Inputs) : Except Crash Outcome :=
  match m.fetch with
  | .error fault => .ok (m.pass fault)
  | .ok (opcode, i) => do
    let done ← m.perform inputs i
    return { done with notes := .executing m.pc opcode i :: done.notes }

end Machine

end Chip8
