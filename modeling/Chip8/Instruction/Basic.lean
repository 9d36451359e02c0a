/-!
# Instructions

The instruction set, with operands as they are written: registers and constants are bytes and
addresses are sixteen-bit words. A word of a program only ever holds operands `InRange`; an
instruction made by hand may name a register that the machine does not have.
-/

namespace Chip8

inductive Arith : Type
  | copy : Arith -- 8XY0
  | or : Arith -- 8XY1
  | and : Arith -- 8XY2
  | xor : Arith -- 8XY3
  | add : Arith -- 8XY4
  | sub : Arith -- 8XY5
  | shiftRight : Arith -- 8XY6
  | subFrom : Arith -- 8XY7
  | shiftLeft : Arith -- 8XYE
  deriving DecidableEq, Repr

inductive Condition : Type
  | equalsConst : (x nn : UInt8) → Condition -- 3XNN
  | differsConst : (x nn : UInt8) → Condition -- 4XNN
  | equalsRegister : (x y : UInt8) → Condition -- 5XY0
  | differsRegister : (x y : UInt8) → Condition -- 9XY0
  | keyHeld : (x : UInt8) → Condition -- EX9E
  | keyReleased : (x : UInt8) → Condition -- EXA1
  deriving DecidableEq, Repr

inductive Instruction : Type
  | clearScreen : Instruction -- 00E0
  | ret : Instruction -- 00EE
  | jump : (nnn : UInt16) → Instruction -- 1NNN
  | call : (nnn : UInt16) → Instruction -- 2NNN
  | skip : Condition → Instruction
  | setConst : (x nn : UInt8) → Instruction -- 6XNN
  | addConst : (x nn : UInt8) → Instruction -- 7XNN
  | arith : Arith → (x y : UInt8) → Instruction -- 8XY_
  | setIndex : (nnn : UInt16) → Instruction -- ANNN
  | jumpOffset : (x : UInt8) → (nnn : UInt16) → Instruction -- BNNN, X is the first digit of NNN
  | random : (x nn : UInt8) → Instruction -- CXNN
  | draw : (x y n : UInt8) → Instruction -- DXYN
  | readDelay : (x : UInt8) → Instruction -- FX07
  | waitKey : (x : UInt8) → Instruction -- FX0A
  | setDelay : (x : UInt8) → Instruction -- FX15
  | setSound : (x : UInt8) → Instruction -- FX18
  | addIndex : (x : UInt8) → Instruction -- FX1E
  | pointGlyph : (x : UInt8) → Instruction -- FX29
  | storeDecimal : (x : UInt8) → Instruction -- FX33
  | storeRegisters : (x : UInt8) → Instruction -- FX55
  | loadRegisters : (x : UInt8) → Instruction -- FX65
  deriving DecidableEq, Repr

def Condition.InRange : Condition → Prop
  | .equalsConst x _ => x < 16
  | .differsConst x _ => x < 16
  | .equalsRegister x y => x < 16 ∧ y < 16
  | .differsRegister x y => x < 16 ∧ y < 16
  | .keyHeld x => x < 16
  | .keyReleased x => x < 16

def Instruction.InRange : Instruction → Prop
  | .clearScreen => True
  | .ret => True
  | .jump nnn => nnn < 0x1000
  | .call nnn => nnn < 0x1000
  | .skip c => c.InRange
  | .setConst x _ => x < 16
  | .addConst x _ => x < 16
  | .arith _ x y => x < 16 ∧ y < 16
  | .setIndex nnn => nnn < 0x1000
  | .jumpOffset x nnn => x < 16 ∧ nnn < 0x1000 ∧ x.toNat = nnn.toNat / 256
  | .random x _ => x < 16
  | .draw x y n => x < 16 ∧ y < 16 ∧ n < 16
  | .readDelay x => x < 16
  | .waitKey x => x < 16
  | .setDelay x => x < 16
  | .setSound x => x < 16
  | .addIndex x => x < 16
  | .pointGlyph x => x < 16
  | .storeDecimal x => x < 16
  | .storeRegisters x => x < 16
  | .loadRegisters x => x < 16

namespace Instruction

/-- Registers named are among the sixteen, and addresses have twelve bits. A sprite may have more rows
than a digit can say, and BNNN may name any register, so an instruction made by hand need not be
`InRange`. -/
def Executable : Instruction → Prop
  | .clearScreen => True
  | .ret => True
  | .jump nnn => nnn < 0x1000
  | .call nnn => nnn < 0x1000
  | .skip c => c.InRange
  | .setConst x _ => x < 16
  | .addConst x _ => x < 16
  | .arith _ x y => x < 16 ∧ y < 16
  | .setIndex nnn => nnn < 0x1000
  | .jumpOffset x nnn => x < 16 ∧ nnn < 0x1000
  | .random x _ => x < 16
  | .draw x y _ => x < 16 ∧ y < 16
  | .readDelay x => x < 16
  | .waitKey x => x < 16
  | .setDelay x => x < 16
  | .setSound x => x < 16
  | .addIndex x => x < 16
  | .pointGlyph x => x < 16
  | .storeDecimal x => x < 16
  | .storeRegisters x => x < 16
  | .loadRegisters x => x < 16

theorem InRange.executable {i : Instruction} (h : i.InRange) : i.Executable := by
  cases i with
  | jumpOffset x nnn => exact ⟨h.1, h.2.1⟩
  | draw x y n => exact ⟨h.1, h.2.1⟩
  | _ => exact h

end Instruction

end Chip8
