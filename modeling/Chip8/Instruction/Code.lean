import Chip8.Instruction.Basic
import Chip8.Word

namespace Chip8

def Arith.digit : Arith → UInt8
  | .copy => 0x0
  | .or => 0x1
  | .and => 0x2
  | .xor => 0x3
  | .add => 0x4
  | .sub => 0x5
  | .shiftRight => 0x6
  | .subFrom => 0x7
  | .shiftLeft => 0xE

def Arith.ofDigit? (n : UInt8) : Option Arith :=
  match n with
  | 0x0 => some .copy
  | 0x1 => some .or
  | 0x2 => some .and
  | 0x3 => some .xor
  | 0x4 => some .add
  | 0x5 => some .sub
  | 0x6 => some .shiftRight
  | 0x7 => some .subFrom
  | 0xE => some .shiftLeft
  | _ => none

namespace Instruction

def decode (w : Word) : Option Instruction :=
  match w.k with
  | 0x0 =>
    match w.nnn with
    | 0x0E0 => some .clearScreen
    | 0x0EE => some .ret
    | _ => none
  | 0x1 => some (.jump w.nnn)
  | 0x2 => some (.call w.nnn)
  | 0x3 => some (.skip (.equalsConst w.x w.nn))
  | 0x4 => some (.skip (.differsConst w.x w.nn))
  | 0x5 => if w.n = 0 then some (.skip (.equalsRegister w.x w.y)) else none
  | 0x6 => some (.setConst w.x w.nn)
  | 0x7 => some (.addConst w.x w.nn)
  | 0x8 => (Arith.ofDigit? w.n).map (.arith · w.x w.y)
  | 0x9 => if w.n = 0 then some (.skip (.differsRegister w.x w.y)) else none
  | 0xA => some (.setIndex w.nnn)
  | 0xB => some (.jumpOffset w.x w.nnn)
  | 0xC => some (.random w.x w.nn)
  | 0xD => some (.draw w.x w.y w.n)
  | 0xE =>
    match w.nn with
    | 0x9E => some (.skip (.keyHeld w.x))
    | 0xA1 => some (.skip (.keyReleased w.x))
    | _ => none
  | 0xF =>
    match w.nn with
    | 0x07 => some (.readDelay w.x)
    | 0x0A => some (.waitKey w.x)
    | 0x15 => some (.setDelay w.x)
    | 0x18 => some (.setSound w.x)
    | 0x1E => some (.addIndex w.x)
    | 0x29 => some (.pointGlyph w.x)
    | 0x33 => some (.storeDecimal w.x)
    | 0x55 => some (.storeRegisters w.x)
    | 0x65 => some (.loadRegisters w.x)
    | _ => none
  | _ => none

def wordAddress (k : UInt8) (nnn : UInt16) : Word :=
  UInt16.ofNat (4096 * k.toNat + nnn.toNat)

def wordConst (k x nn : UInt8) : Word :=
  UInt16.ofNat (4096 * k.toNat + 256 * x.toNat + nn.toNat)

def wordDigits (k x y n : UInt8) : Word :=
  UInt16.ofNat (4096 * k.toNat + 256 * x.toNat + 16 * y.toNat + n.toNat)

def encode : Instruction → Word
  | .clearScreen => 0x00E0
  | .ret => 0x00EE
  | .jump nnn => wordAddress 0x1 nnn
  | .call nnn => wordAddress 0x2 nnn
  | .skip (.equalsConst x nn) => wordConst 0x3 x nn
  | .skip (.differsConst x nn) => wordConst 0x4 x nn
  | .skip (.equalsRegister x y) => wordDigits 0x5 x y 0
  | .setConst x nn => wordConst 0x6 x nn
  | .addConst x nn => wordConst 0x7 x nn
  | .arith op x y => wordDigits 0x8 x y op.digit
  | .skip (.differsRegister x y) => wordDigits 0x9 x y 0
  | .setIndex nnn => wordAddress 0xA nnn
  | .jumpOffset _ nnn => wordAddress 0xB nnn
  | .random x nn => wordConst 0xC x nn
  | .draw x y n => wordDigits 0xD x y n
  | .skip (.keyHeld x) => wordConst 0xE x 0x9E
  | .skip (.keyReleased x) => wordConst 0xE x 0xA1
  | .readDelay x => wordConst 0xF x 0x07
  | .waitKey x => wordConst 0xF x 0x0A
  | .setDelay x => wordConst 0xF x 0x15
  | .setSound x => wordConst 0xF x 0x18
  | .addIndex x => wordConst 0xF x 0x1E
  | .pointGlyph x => wordConst 0xF x 0x29
  | .storeDecimal x => wordConst 0xF x 0x33
  | .storeRegisters x => wordConst 0xF x 0x55
  | .loadRegisters x => wordConst 0xF x 0x65

theorem inRange_of_decode {w : Word} {i : Instruction} (h : decode w = some i) : i.InRange := by
  have hb : w.x.toNat = w.nnn.toNat / 256 := by
    rw [Word.toNat_x, Word.toNat_nnn]; omega
  unfold decode at h
  split at h
  case h_9 =>
    -- the digit of 8XY_ names an operation, or none
    obtain ⟨op, -, rfl⟩ := Option.map_eq_some_iff.1 h
    exact ⟨w.x_lt, w.y_lt⟩
  all_goals try split at h
  all_goals cases h
  all_goals simp [InRange, Condition.InRange, w.x_lt, w.y_lt, w.n_lt, w.nnn_lt, hb]

end Instruction

end Chip8
