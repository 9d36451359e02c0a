import Chip8.Machine.Basic

namespace Chip8

namespace Machine

/-- Finds the address of the byte that VK is moved to or from. In some dialects I steps along. -/
def aim (m : Machine) (k : Nat) : Nat × Machine :=
  if m.dialect.transferMovesIndex then
    let index := m.index + 1
    (index.toNat, { m with index })
  else (m.index.toNat + k, m)

def storeRegister (m : Machine) (k : UInt8) : Except Crash (Machine × Option Fault) := do
  let (address, m) := m.aim k.toNat
  let value ← m.getV k
  match m.memory.write address value with
  | .ok memory => return ({ m with memory }, none)
  | .error fault => return (m, some fault)

def loadRegister (m : Machine) (k : UInt8) : Except Crash (Machine × Option Fault) := do
  let (address, m) := m.aim k.toNat
  match m.memory.read address with
  | .ok value => return (← m.setV k value, none)
  | .error fault => return (m, some fault)

/-- Carries out `move` for each register of a list, and keeps the first fault. -/
def transfer (move : Machine → UInt8 → Except Crash (Machine × Option Fault)) (m : Machine)
    (fault : Option Fault) : List UInt8 → Except Crash (Machine × Option Fault)
  | [] => .ok (m, fault)
  | k :: ks => do
    let (m, found) ← move m k
    transfer move m (fault <|> found) ks

def upTo (x : UInt8) : List UInt8 := (List.range (x.toNat + 1)).map UInt8.ofNat

def storeRegisters (m : Machine) (x : UInt8) : Except Crash (Machine × Option Fault) :=
  m.transfer storeRegister none (upTo x)

def loadRegisters (m : Machine) (x : UInt8) : Except Crash (Machine × Option Fault) :=
  m.transfer loadRegister none (upTo x)

end Machine

def decimalDigits (value : UInt8) : Array UInt8 :=
  if value < 10 then #[value]
  else if value < 100 then #[value / 10, value % 10]
  else #[value / 100, value / 10 % 10, value % 10]

end Chip8
