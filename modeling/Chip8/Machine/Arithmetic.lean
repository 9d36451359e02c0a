import Chip8.Machine.Basic

namespace Chip8

namespace Arith

def isShift : Arith → Bool
  | .shiftRight => true
  | .shiftLeft => true
  | _ => false

/-- The register that supplies the second operand, the one that a shift moves. -/
def source (op : Arith) (dialect : Dialect) (x y : UInt8) : UInt8 :=
  if op.isShift && !dialect.shiftReadsY then x else y

theorem source_lt {op : Arith} {dialect : Dialect} {x y : UInt8} (hx : x < 16) (hy : y < 16) :
    op.source dialect x y < 16 := by
  rw [source]
  split <;> assumption

def result : Arith → UInt8 → UInt8 → UInt8
  | .copy, _, s => s
  | .or, v, s => v ||| s
  | .and, v, s => v &&& s
  | .xor, v, s => v ^^^ s
  | .add, v, s => v + s
  | .sub, v, s => v - s
  | .shiftRight, _, s => s >>> 1
  | .subFrom, v, s => s - v
  | .shiftLeft, _, s => s <<< 1

def flag? : Arith → UInt8 → UInt8 → Option Bool
  | .copy, _, _ => none
  | .or, _, _ => none
  | .and, _, _ => none
  | .xor, _, _ => none
  | .add, v, s => some (v.toNat + s.toNat > 255)
  | .sub, v, s => some (v ≥ s)
  | .shiftRight, _, s => some (s.toNat.testBit 0)
  | .subFrom, v, s => some (s ≥ v)
  | .shiftLeft, _, s => some (s.toNat.testBit 7)

end Arith

namespace Machine

def arith (m : Machine) (op : Arith) (x y : UInt8) : Except Crash Machine := do
  let s ← m.getV (op.source m.dialect x y)
  let v ← m.getV x
  let done ← m.setV x (op.result v s)
  return match op.flag? v s with
    | some flag => done.setFlag flag
    | none => done

/-- Adds VX to I. A sum beyond memory comes back from address 0, and VF says so. -/
def addIndex (m : Machine) (x : UInt8) : Except Crash Machine := do
  let sum := m.index.toNat + (← m.getV x).toNat
  if sum < Memory.size then
    return { m with index := UInt16.ofNat sum }
  else
    return { m with index := UInt16.ofNat (sum % Memory.size) }.setFlag true

def pointGlyph (m : Machine) (x : UInt8) : Except Crash Machine := do
  let digit := (← m.getV x).toNat % 16
  if digit * Memory.glyphSize < 65536 then
    return { m with index := UInt16.ofNat (digit * Memory.glyphSize) }
  else .error (.noGlyph digit)

end Machine

end Chip8
