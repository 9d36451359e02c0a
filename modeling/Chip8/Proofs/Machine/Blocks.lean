import Chip8.Proofs.Machine.Transfers

namespace Chip8

namespace Machine

def base (m : Machine) : Nat :=
  if m.dialect.transferMovesIndex then m.index.toNat + 1 else m.index.toNat

/-- The registers up to VX have been moved to the part of a block that is in memory, and nothing else
has been written. -/
structure Stores (m m' : Machine) (start : Nat) (x : UInt8) : Prop where
  moved : ∀ k : Fin 16, k ≤ x.toNat → start + k ≤ 0x0FFF →
    m'.memory.read (start + k) = .ok m.registers[k]
  kept : ∀ address, (∀ k ≤ x.toNat, address ≠ start + k) →
    m'.memory.read address = m.memory.read address
  registers : m'.registers = m.registers

structure Loads (m m' : Machine) (start : Nat) (x : UInt8) : Prop where
  moved : ∀ k : Fin 16, k ≤ x.toNat → start + k ≤ 0x0FFF →
    m.memory.read (start + k) = .ok m'.registers[k]
  kept : ∀ k : Fin 16, (k ≤ x.toNat → 0x0FFF < start + k) → m'.registers[k] = m.registers[k]
  memory : m'.memory = m.memory

structure Passes (m m' : Machine) (x : UInt8) : Prop where
  index : m'.index.toNat =
    if m.dialect.transferMovesIndex then m.index.toNat + x.toNat + 1 else m.index.toNat
  pc : m'.pc = m.pc + 2
  stack : m'.stack = m.stack
  screen : m'.screen = m.screen
  delay : m'.delay = m.delay
  sound : m'.sound = m.sound

variable {m m' : Machine} {k count : Nat} {x : UInt8}

theorem slot_eq_base (ahead : m.index.toNat + k + 1 ≤ 0xFFFF) : m.slot k = m.base + k := by
  cases moves : m.dialect.transferMovesIndex with
  | true =>
    rw [slot_of_moves moves, base, if_pos moves]
    omega
  | false =>
    rw [slot_of_stays moves, base, moves]
    rfl

theorem toNat_indexAfter (ahead : m.index.toNat + count ≤ 0xFFFF) : (m.indexAfter count).toNat =
    if m.dialect.transferMovesIndex then m.index.toNat + count else m.index.toNat := by
  cases moves : m.dialect.transferMovesIndex with
  | true =>
    rw [toNat_indexAfter_of_moves moves, if_pos rfl]
    omega
  | false =>
    rw [indexAfter_of_stays moves]
    rfl

theorem register_ofNat (h : k < 16) : m.register (UInt8.ofNat k) = m.registers[k] := by
  have hk := toNat_ofNat_register h
  simp [register, hk, Nat.mod_eq_of_lt h]

theorem read_stored_slot (hk : k < count) (hc : count ≤ 16) (inside : m.slot k < 4096) :
    (m.stored count).read (m.slot k) = .ok m.registers[k] := by
  rw [← register_ofNat (by omega)]
  exact Memory.read_of_getElem? (getElem?_stored_slot hk hc inside)

theorem read_stored_of_ne {address : Nat} (h : ∀ k < count, address ≠ m.slot k) :
    (m.stored count).read address = m.memory.read address :=
  Memory.read_congr (getElem?_stored_of_ne h)

theorem getElem_loaded (hk : k < 16) : (m.loaded count)[k] =
    if h : k < count ∧ m.slot k < 4096 then m.memory.cells[m.slot k] else m.registers[k] := by
  induction count with
  | zero => simp [loaded]
  | succ count ih =>
    have earlier (h : k ≠ count) : k < count + 1 ↔ k < count := by omega
    by_cases inside : m.slot count < 4096
    · simp only [loaded, Memory.read_of_lt _ inside, Vector.getElem_setIfInBounds]
      by_cases last : k = count
      · subst last
        simp [inside]
      · simp only [if_neg (Ne.symm last), ih, earlier last]
    · simp only [loaded, Memory.read_of_le _ (Nat.le_of_not_lt inside), ih]
      by_cases last : k = count
      · subst last
        simp [inside]
      · simp only [earlier last]

theorem read_slot_loaded (hk : k < 16) (hc : k < count) (inside : m.slot k < 4096) :
    m.memory.read (m.slot k) = .ok (m.loaded count)[k] := by
  rw [getElem_loaded hk, dif_pos ⟨hc, inside⟩, Memory.read_of_lt _ inside]

theorem getElem_loaded_of_le (hk : k < 16) (h : k < count → 4096 ≤ m.slot k) :
    (m.loaded count)[k] = m.registers[k] := by
  rw [getElem_loaded hk, dif_neg fun inside => Nat.not_le.2 inside.2 (h inside.1)]

theorem stores_stored (hx : x < 16) (ahead : m.index.toNat + x.toNat + 1 ≤ 0xFFFF)
    (memory : m'.memory = m.stored (x.toNat + 1)) (registers : m'.registers = m.registers) :
    m.Stores m' m.base x := by
  have hx : x.toNat < 16 := hx
  have slots : ∀ k ≤ x.toNat, m.slot k = m.base + k := fun k hk => slot_eq_base (by omega)
  refine ⟨fun k hk inside => ?_, fun address apart => ?_, registers⟩
  · rw [memory, ← slots k hk]
    exact read_stored_slot (by omega) (by omega) (by rw [slots k hk]; omega)
  · rw [memory]
    apply read_stored_of_ne
    intro k hk
    rw [slots k (by omega)]
    exact apart k (by omega)

theorem loads_loaded (ahead : m.index.toNat + x.toNat + 1 ≤ 0xFFFF)
    (registers : m'.registers = m.loaded (x.toNat + 1)) (memory : m'.memory = m.memory) :
    m.Loads m' m.base x := by
  have slots : ∀ k ≤ x.toNat, m.slot k = m.base + k := fun k hk => slot_eq_base (by omega)
  refine ⟨fun k hk inside => ?_, fun k outside => ?_, memory⟩
  · simp only [registers, ← slots k hk]
    exact read_slot_loaded k.isLt (by omega) (by rw [slots k hk]; omega)
  · simp only [registers]
    apply getElem_loaded_of_le k.isLt
    intro hk
    rw [slots k (by omega)]
    exact outside (by omega)

section Ahead

variable (inputs : Inputs) (hx : x < 16) (ahead : m.index.toNat + x.toNat + 1 ≤ 0xFFFF)
include hx ahead

theorem perform_stores : ∃ o, m.perform inputs (.storeRegisters x) = .ok o ∧
    m.Stores o.machine m.base x ∧ m.Passes o.machine x := by
  obtain ⟨o, lastFault, performed, stored⟩ := perform_storeRegisters (m := m) inputs hx
  refine ⟨o, performed, ?_⟩
  rw [stored]
  exact ⟨stores_stored hx ahead rfl rfl, toNat_indexAfter ahead, rfl, rfl, rfl, rfl, rfl⟩

theorem perform_loads : ∃ o, m.perform inputs (.loadRegisters x) = .ok o ∧
    m.Loads o.machine m.base x ∧ m.Passes o.machine x := by
  obtain ⟨o, lastFault, performed, loaded⟩ := perform_loadRegisters (m := m) inputs hx
  refine ⟨o, performed, ?_⟩
  rw [loaded]
  exact ⟨loads_loaded ahead rfl rfl, toNat_indexAfter ahead, rfl, rfl, rfl, rfl, rfl⟩

end Ahead

/-- FX55 and FX65 move the part of their block that is in memory, byte by byte, from or to the registers
up to VX. Nothing else is written, and I ends as if all of the block were in memory. -/
theorem transfers_move_blocks (m : Machine) (inputs : Inputs) {x : UInt8} (hx : x < 16)
    (ahead : m.index.toNat + x.toNat + 1 ≤ 0xFFFF) :
    (∃ o, m.perform inputs (.storeRegisters x) = .ok o ∧
      m.Stores o.machine m.base x ∧ m.Passes o.machine x) ∧
    (∃ o, m.perform inputs (.loadRegisters x) = .ok o ∧
      m.Loads o.machine m.base x ∧ m.Passes o.machine x) :=
  ⟨perform_stores inputs hx ahead, perform_loads inputs hx ahead⟩

def brimming : Machine :=
  { initial { transferMovesIndex := true } with
    registers := Vector.replicate 16 7, index := 0x0FFE }

theorem transfers_move_blocks_brimming :
    (∃ o, brimming.perform {} (.storeRegisters 1) = .ok o ∧
      o.machine.memory.read 0x0FFF = .ok 7 ∧ o.machine.memory.read 0 = brimming.memory.read 0 ∧
      o.machine.index.toNat = 0x1000 ∧ o.machine.pc = 0x202) ∧
    (∃ o, brimming.perform {} (.loadRegisters 1) = .ok o ∧
      brimming.memory.read 0x0FFF = .ok o.machine.registers[0] ∧ o.machine.registers[1] = 7 ∧
      o.machine.index.toNat = 0x1000 ∧ o.machine.pc = 0x202) := by
  obtain ⟨⟨o, performed, stores, passes⟩, ⟨o', performed', loads, passes'⟩⟩ :=
    transfers_move_blocks brimming {} (x := 1) (by decide) (by decide)
  refine ⟨⟨o, performed, stores.moved 0 (by decide) (by decide), ?_, passes.index, passes.pc⟩,
    ⟨o', performed', loads.moved 0 (by decide) (by decide), ?_, passes'.index, passes'.pc⟩⟩
  · exact stores.kept 0 fun k _ => by
      change 0 ≠ 0x0FFF + k
      omega
  · exact loads.kept 1 fun _ => by decide

end Machine

end Chip8
