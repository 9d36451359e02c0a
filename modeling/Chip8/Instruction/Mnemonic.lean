import Chip8.Hex
import Chip8.Instruction.Basic

namespace Chip8

def registerName (x : UInt8) : String := "V" ++ Hex.upper 1 x.toNat

def Arith.mnemonic : Arith → String
  | .copy => "LD"
  | .or => "OR"
  | .and => "AND"
  | .xor => "XOR"
  | .add => "ADD"
  | .sub => "SUB"
  | .shiftRight => "SHR"
  | .subFrom => "SUBN"
  | .shiftLeft => "SHL"

namespace Instruction

def assembly (operation : String) (operands : List String) : String :=
  operation ++ " " ++ ", ".intercalate operands

def address (nnn : UInt16) : String := Hex.marked 3 nnn.toNat

def const (nn : UInt8) : String := Hex.marked 2 nn.toNat

def mnemonic : Instruction → String
  | .clearScreen => "CLS"
  | .ret => "RET"
  | .jump nnn => assembly "JP" [address nnn]
  | .call nnn => assembly "CALL" [address nnn]
  | .skip (.equalsConst x nn) => assembly "SE" [registerName x, const nn]
  | .skip (.differsConst x nn) => assembly "SNE" [registerName x, const nn]
  | .skip (.equalsRegister x y) => assembly "SE" [registerName x, registerName y]
  | .skip (.differsRegister x y) => assembly "SNE" [registerName x, registerName y]
  | .skip (.keyHeld x) => assembly "SKP" [registerName x]
  | .skip (.keyReleased x) => assembly "SKNP" [registerName x]
  | .setConst x nn => assembly "LD" [registerName x, const nn]
  | .addConst x nn => assembly "ADD" [registerName x, const nn]
  | .arith op x y => assembly op.mnemonic [registerName x, registerName y]
  | .setIndex nnn => assembly "LD" ["I", address nnn]
  | .jumpOffset x nnn => assembly "JP" [registerName x, address nnn]
  | .random x nn => assembly "RND" [registerName x, const nn]
  | .draw x y n => assembly "DRW" [registerName x, registerName y, toString n.toNat]
  | .readDelay x => assembly "LD" [registerName x, "DT"]
  | .waitKey x => assembly "LD" [registerName x, "K"]
  | .setDelay x => assembly "LD" ["DT", registerName x]
  | .setSound x => assembly "LD" ["ST", registerName x]
  | .addIndex x => assembly "ADD" ["I", registerName x]
  | .pointGlyph x => assembly "LD" ["F", registerName x]
  | .storeDecimal x => assembly "LD" ["B", registerName x]
  | .storeRegisters x => assembly "LD" ["[I]", registerName x]
  | .loadRegisters x => assembly "LD" [registerName x, "[I]"]

end Instruction

end Chip8
