import Chip8.Fault
import Chip8.Word
/-!
# Memory

The address space has 4096 bytes. A font of sixteen glyphs, five bytes each, lies at address 0, and
programs start at 0x200. Every access is checked, and an access outside leaves memory as it was.
-/

namespace Chip8

structure Memory where
  cells : Vector UInt8 4096
  deriving DecidableEq

namespace Memory

def size : Nat := 4096

def programStart : Nat := 0x200

def glyphSize : Nat := 5

def font : Array UInt8 := #[
  0xF0, 0x90, 0x90, 0x90, 0xF0,
  0x20, 0x60, 0x20, 0x20, 0x70,
  0xF0, 0x10, 0xF0, 0x80, 0xF0,
  0xF0, 0x10, 0xF0, 0x10, 0xF0,
  0x90, 0x90, 0xF0, 0x10, 0x10,
  0xF0, 0x80, 0xF0, 0x10, 0xF0,
  0xF0, 0x80, 0xF0, 0x90, 0xF0,
  0xF0, 0x10, 0x20, 0x40, 0x40,
  0xF0, 0x90, 0xF0, 0x90, 0xF0,
  0xF0, 0x90, 0xF0, 0x10, 0xF0,
  0xF0, 0x90, 0xF0, 0x90, 0x90,
  0xE0, 0x90, 0xE0, 0x90, 0xE0,
  0xF0, 0x80, 0x80, 0x80, 0xF0,
  0xE0, 0x90, 0x90, 0x90, 0xE0,
  0xF0, 0x80, 0xF0, 0x80, 0xF0,
  0xF0, 0x80, 0xF0, 0x80, 0x80]

def initial : Memory := ⟨Vector.ofFn fun i => font.getD i 0⟩

instance : Inhabited Memory := ⟨initial⟩

def read (m : Memory) (address : Nat) : Except Fault UInt8 :=
  match m.cells[address]? with
  | some byte => .ok byte
  | none => .error (.memoryOutOfBounds address)

def readWord (m : Memory) (address : Nat) : Except Fault Word := do
  let high ← m.read address
  let low ← m.read (address + 1)
  return Word.ofBytes high low

def write (m : Memory) (address : Nat) (byte : UInt8) : Except Fault Memory :=
  if h : address < 4096 then .ok ⟨m.cells.set address byte h⟩
  else .error (.memoryOutOfBounds address)

structure Misfit where
  length : Nat
  address : Nat
  deriving DecidableEq, Repr

namespace Misfit

/-- The first address outside of memory that the block would have covered. -/
def fault (b : Misfit) : Fault := .memoryOutOfBounds (max b.address Memory.size)

def room (b : Misfit) : Nat := Memory.size - b.address

end Misfit

/-- Copies a block to `address`. Either all of it fits and is written, or nothing is. -/
def copy (m : Memory) (address : Nat) (block : Array UInt8) : Except Misfit Memory :=
  if h : address + block.size ≤ 4096 then
    .ok ⟨⟨m.cells.toArray.extract 0 address ++ block
        ++ m.cells.toArray.extract (address + block.size) 4096, by simp; omega⟩⟩
  else .error ⟨block.size, address⟩

end Memory

end Chip8
