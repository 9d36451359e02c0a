import Chip8.Proofs.Machine.Blocks
import Chip8.Proofs.Machine.Collisions
import Chip8.Proofs.Machine.Numerals

namespace Chip8

namespace Memory

structure Block where
  start : Nat
  length : Nat
  deriving DecidableEq, Repr

structure Block.Leaves (b : Block) (address : Nat) : Prop where
  start : b.start ≤ address
  ends : address < b.start + b.length
  outside : 4096 ≤ address
  first : ∀ earlier, b.start ≤ earlier → earlier < address → earlier < 4096

theorem Block.leaves_max {b : Block} (some : b.length ≠ 0) (large : 4096 < b.start + b.length) :
    b.Leaves (max b.start 4096) := by
  refine ⟨Nat.le_max_left .., Nat.max_lt.2 ⟨by omega, large⟩, Nat.le_max_right .., ?_⟩
  intro earlier start before
  omega

end Memory

namespace Machine

/-- The addresses that an instruction covers, if it moves anything from or to memory. A decimal numeral
has one for each digit, and a sprite one for each row, whether it is cut off or not. -/
def block? (m : Machine) : Instruction → Option Memory.Block
  | .storeDecimal x => some ⟨m.index.toNat, (Nat.toDigits 10 (m.register x).toNat).length⟩
  | .storeRegisters x => some ⟨m.base, x.toNat + 1⟩
  | .loadRegisters x => some ⟨m.base, x.toNat + 1⟩
  | .draw _ _ n => some ⟨m.index.toNat, n.toNat⟩
  | _ => none

def Ahead (m : Machine) : Instruction → Prop
  | .storeRegisters x => m.index.toNat + x.toNat + 1 ≤ 0xFFFF
  | .loadRegisters x => m.index.toNat + x.toNat + 1 ≤ 0xFFFF
  | _ => True

structure Draws (m m' : Machine) (x y n : UInt8) : Prop where
  cells : ∀ a b, m'.screen.get a b = (m.screen.get a b ^^ decide (m.Covers x y n a b))
  flag : m'.register 15 = if m.screen.Loses m'.screen then 1 else 0
  registers : ∀ k < 15, m'.register k = m.register k
  memory : m'.memory = m.memory
  index : m'.index = m.index
  pc : m'.pc = m.pc + 2
  stack : m'.stack = m.stack
  delay : m'.delay = m.delay
  sound : m'.sound = m.sound

/-- What is done of an instruction that overruns memory: nothing of a numeral, and of everything else
the part that is inside. -/
def DonePartly (m m' : Machine) : Instruction → Prop
  | .storeDecimal _ => m' = { m with pc := m.pc + 2, lastFault := m'.lastFault }
  | .storeRegisters x => m.Stores m' m.base x ∧ m.Passes m' x
  | .loadRegisters x => m.Loads m' m.base x ∧ m.Passes m' x
  | .draw x y n => m.Draws m' x y n
  | _ => False

variable {m : Machine} {i : Instruction} {b : Memory.Block} {x y n : UInt8} (inputs : Inputs)

theorem visits_eq_block (covers : m.block? i = some b) (ahead : m.Ahead i) :
    m.visits i = List.range' b.start b.length := by
  cases i with
  | storeDecimal x =>
    cases covers
    rw [visits, size_decimalDigits]
  | storeRegisters x | loadRegisters x =>
    cases covers
    have ahead : m.index.toNat + x.toNat + 1 ≤ 0xFFFF := ahead
    exact map_slot_eq_range' fun k hk => slot_eq_base (by omega)
  | draw x y n =>
    cases covers
    rfl
  | _ => cases covers

theorem mishap_eq_outside (covers : m.block? i = some b) : m.mishap i = Memory.outside (m.visits i) := by
  cases i with
  | ret => cases covers
  | _ => rfl

theorem perform_draw_draws (hx : x < 16) (hy : y < 16) (hn : n < 16) :
    ∃ o, m.perform inputs (.draw x y n) = .ok o ∧ m.Draws o.machine x y n := by
  have rows : n.toNat < 16 := hn
  have small : n.toNat ≤ 32 := by omega
  obtain ⟨o, lastFault, performed, after⟩ := perform_draw (m := m) (n := n) inputs hx hy
  refine ⟨o, performed, ?_⟩
  rw [after]
  refine ⟨get_drawn small, ?_, fun k low => register_setFlag_of_lt low, rfl, rfl, rfl, rfl, rfl, rfl⟩
  rw [register_setFlag]
  exact if_congr (collided_drawn_iff_loses small) rfl rfl

theorem perform_donePartly (range : i.InRange) (covers : m.block? i = some b) (ahead : m.Ahead i)
    (large : 4096 < b.start + b.length) :
    ∃ o, m.perform inputs i = .ok o ∧ m.DonePartly o.machine i := by
  cases i with
  | storeDecimal x =>
    cases covers
    rw [← size_decimalDigits] at large
    exact ⟨_, perform_storeDecimal_of_misfit inputs range (Memory.copy_of_lt large), rfl⟩
  | storeRegisters x => exact perform_stores inputs range ahead
  | loadRegisters x => exact perform_loads inputs range ahead
  | draw x y n => exact perform_draw_draws inputs range.1 range.2.1 range.2.2
  | _ => cases covers

/-- Whatever moves bytes or bits from or to memory faults if and only if an address of its block is outside,
and the first one that is is the fault. Then nothing of a decimal numeral has been written, and everything
else has been done as far as its block is inside. -/
theorem blocks_overrun_alike (m : Machine) (inputs : Inputs) {i : Instruction} {b : Memory.Block}
    (range : i.InRange) (covers : m.block? i = some b) (ahead : m.Ahead i) :
    ∃ o, m.perform inputs i = .ok o ∧
      (o.fault = none ↔ b.length = 0 ∨ b.start + b.length ≤ 4096) ∧
      (∀ f, o.fault = some f → f = .memoryOutOfBounds (max b.start 4096) ∧
        b.Leaves (max b.start 4096) ∧ m.DonePartly o.machine i) := by
  obtain ⟨o, performed, reports⟩ := perform_reports (m := m) inputs range.executable
  have fault : o.fault = if b.length = 0 ∨ b.start + b.length ≤ 4096 then none
      else some (.memoryOutOfBounds (max b.start 4096)) := by
    rw [reports.fault, mishap_eq_outside covers, visits_eq_block covers ahead, Memory.outside_range']
  refine ⟨o, performed, ?_, fun f failed => ?_⟩
  · rw [fault]
    split
    · next fits => exact ⟨fun _ => fits, fun _ => rfl⟩
    · next overrun => exact ⟨nofun, fun fits => absurd fits overrun⟩
  · rw [fault] at failed
    split at failed
    · cases failed
    · next overrun =>
      cases failed
      obtain ⟨some, large⟩ := not_or.1 overrun
      have large := Nat.lt_of_not_le large
      obtain ⟨o', performed', partly⟩ := perform_donePartly inputs range covers ahead large
      cases performed.symm.trans performed'
      exact ⟨rfl, Memory.Block.leaves_max some large, partly⟩

def overhanging : Machine :=
  { initial {} with
    memory := Memory.initial.put 0x0FFF 0x80
    registers := #v[7, 123, 0, 0, 0, 0, 0, 0, 0, 0, 0, 0, 0, 0, 0, 0]
    index := 0x0FFE }

theorem overhanging_covers : overhanging.Covers 0 0 3 7 8 := by
  have byte : (Memory.initial.put 0x0FFF 0x80).cells[0x0FFF]? = some 0x80 :=
    Memory.getElem?_put_self _ _ (by decide)
  have bit : (Memory.initial.put 0x0FFF 0x80).bit 0x0FFF 0 = true := by
    rw [Memory.bit, Memory.read_of_getElem? byte]
    decide
  have lies : Canvas.Lies true (7 % 64 + 0) (7 % 32 + 1) 7 8 := by decide
  exact ⟨1, by decide, 0, by decide, Nat.le_refl 0x0FFF, bit, lies⟩

theorem blocks_overrun_alike_overhanging :
    (∃ o, overhanging.perform {} (.storeDecimal 1) = .ok o ∧
      o.fault = some (.memoryOutOfBounds 0x1000) ∧ o.machine.memory = overhanging.memory) ∧
    (∃ o, overhanging.perform {} (.draw 0 0 3) = .ok o ∧
      o.fault = some (.memoryOutOfBounds 0x1000) ∧ o.machine.screen.get 7 8 = true) := by
  constructor
  · obtain ⟨o, performed, fits, partly⟩ := blocks_overrun_alike overhanging {} (i := .storeDecimal 1)
      (b := ⟨0x0FFE, 3⟩) (show (1 : UInt8) < 16 by decide) rfl trivial
    obtain ⟨f, fault⟩ := Option.ne_none_iff_exists'.1 fun none => absurd (fits.1 none) (by decide)
    obtain ⟨address, -, nothing⟩ := partly f fault
    have after : o.machine = { overhanging with
      pc := overhanging.pc + 2, lastFault := o.machine.lastFault } := nothing
    exact ⟨o, performed, by rw [fault, address]; rfl, by rw [after]⟩
  · obtain ⟨o, performed, fits, partly⟩ := blocks_overrun_alike overhanging {} (i := .draw 0 0 3)
      (b := ⟨0x0FFE, 3⟩) ⟨by decide, by decide, by decide⟩ rfl trivial
    obtain ⟨f, fault⟩ := Option.ne_none_iff_exists'.1 fun none => absurd (fits.1 none) (by decide)
    obtain ⟨address, -, draws⟩ := partly f fault
    refine ⟨o, performed, by rw [fault, address]; rfl, ?_⟩
    rw [draws.cells, decide_eq_true overhanging_covers]
    exact congrArg (· ^^ true) (Screen.get_blank 7 8)

end Machine

end Chip8
