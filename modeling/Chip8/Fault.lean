import Chip8.Hex

namespace Chip8

inductive Fault : Type
  | unknownOpcode : (opcode pc : UInt16) → Fault
  | stackUnderflow : (pc : UInt16) → Fault
  | memoryOutOfBounds : (address : Nat) → Fault
  | counterOutOfBounds : (pc : UInt16) → Fault
  | programTooLarge : (size max : Nat) → Fault
  deriving DecidableEq, Repr

def Fault.message : Fault → String
  | .unknownOpcode opcode pc =>
    "unknown opcode " ++ Hex.marked 4 opcode.toNat ++ " at " ++ Hex.marked 3 pc.toNat
  | .stackUnderflow pc => "return with an empty call stack at " ++ Hex.marked 3 pc.toNat
  | .memoryOutOfBounds address => "memory access out of bounds at " ++ Hex.marked 4 address
  | .counterOutOfBounds pc => "program counter " ++ Hex.marked 4 pc.toNat ++ " is outside of memory"
  | .programTooLarge size max =>
    "program is too large (" ++ toString size ++ " bytes), at most " ++ toString max ++ " bytes fit"

end Chip8
