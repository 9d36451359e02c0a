import Chip8.Proofs.Machine.Blocks

namespace Chip8

namespace Memory

theorem put_getElem (m : Memory) {address : Nat} (h : address < 4096) :
    m.put address m.cells[address] = m := by
  rw [put, dif_pos h, Vector.set_getElem_self]

end Memory

namespace Machine

variable {m m' : Machine} {count : Nat} {x : UInt8}

theorem slot_congr (index : m'.index = m.index) (dialect : m'.dialect = m.dialect) (k : Nat) :
    m'.slot k = m.slot k := by
  simp only [slot, indexAfter, index, dialect]

theorem stored_eq_memory (h : ∀ k < count, ∀ inside : m.slot k < 4096,
    m.register (UInt8.ofNat k) = m.memory.cells[m.slot k]) : m.stored count = m.memory := by
  induction count with
  | zero => rfl
  | succ count ih =>
    rw [stored, ih fun k hk => h k (by omega)]
    by_cases inside : m.slot count < 4096
    · rw [h count (by omega) inside, Memory.put_getElem]
    · exact Memory.put_of_le _ _ (Nat.le_of_not_lt inside)

theorem get_loaded_stored (memory : m'.memory = m.stored count)
    (slots : ∀ k, m'.slot k = m.slot k) (hc : count ≤ 16) (k : Fin 16) :
    (m'.loaded count).get k =
      if k < count ∧ m.slot k < 4096 then m.registers.get k else m'.registers.get k := by
  by_cases visited : k < count ∧ m.slot k < 4096
  · obtain ⟨hk, inside⟩ := visited
    have there : m'.memory.read (m'.slot k) = .ok m.registers[k] := by
      rw [memory, slots]
      exact read_stored_slot hk hc inside
    have back : m'.memory.read (m'.slot k) = .ok (m'.loaded count)[k] :=
      read_slot_loaded k.isLt hk (by rwa [slots])
    rw [if_pos ⟨hk, inside⟩]
    exact Except.ok.inj (back.symm.trans there)
  · rw [if_neg visited]
    apply getElem_loaded_of_le k.isLt
    intro hk
    rw [slots]
    exact Nat.le_of_not_lt fun inside => visited ⟨hk, inside⟩

theorem stored_loaded (registers : m'.registers = m.loaded count) (memory : m'.memory = m.memory)
    (slots : ∀ k, m'.slot k = m.slot k) (hc : count ≤ 16) : m'.stored count = m.memory := by
  rw [← memory]
  apply stored_eq_memory
  intro k hk inside
  have hk' : k < 16 := by omega
  rw [slots] at inside
  have here : (m.loaded count)[k] = m.memory.cells[m.slot k] := by
    rw [getElem_loaded hk', dif_pos ⟨hk, inside⟩]
  rw [register_ofNat hk']
  simp only [registers, memory, slots, here]

section Returning

variable (m m') (inputs : Inputs) (hx : x < 16) (index : m'.index = m.index)
  (dialect : m'.dialect = m.dialect)
include hx index dialect

theorem perform_loadRegisters_stored (memory : m'.memory = m.stored (x.toNat + 1)) :
    ∃ o, m'.perform inputs (.loadRegisters x) = .ok o ∧ ∀ k : Fin 16, o.machine.registers.get k =
      if k ≤ x.toNat ∧ m.slot k ≤ 0x0FFF then m.registers.get k else m'.registers.get k := by
  obtain ⟨o, fault, performed, loaded⟩ := perform_loadRegisters (m := m') inputs hx
  have registers : o.machine.registers = m'.loaded (x.toNat + 1) := by rw [loaded]; rfl
  refine ⟨o, performed, fun k => ?_⟩
  rw [registers, get_loaded_stored memory (slot_congr index dialect) (Nat.succ_le_of_lt hx) k]
  have visited : (k < x.toNat + 1 ∧ m.slot k < 4096) = (k ≤ x.toNat ∧ m.slot k ≤ 0x0FFF) :=
    propext (and_congr Nat.lt_succ_iff Nat.lt_succ_iff)
  exact ite_congr visited (fun _ => rfl) (fun _ => rfl)

theorem perform_storeRegisters_loaded (registers : m'.registers = m.loaded (x.toNat + 1))
    (memory : m'.memory = m.memory) :
    ∃ o, m'.perform inputs (.storeRegisters x) = .ok o ∧ o.machine.memory = m.memory := by
  obtain ⟨o, fault, performed, stored⟩ := perform_storeRegisters (m := m') inputs hx
  refine ⟨o, performed, ?_⟩
  rw [stored]
  exact stored_loaded registers memory (slot_congr index dialect) (Nat.succ_le_of_lt hx)

end Returning

/-- A load undoes a store and a store undoes a load, if I is put back in between. FX65 gives the registers
up to VX what FX55 has stored for them, as far as their slots are in memory, whatever they hold meanwhile,
and leaves the others. FX55 finds in memory what FX65 has loaded from it. -/
theorem transfers_undo_each_other (m : Machine) (inputs inputs' : Inputs) {x : UInt8} (hx : x < 16)
    (w : Vector UInt8 16) :
    (∃ o p, m.perform inputs (.storeRegisters x) = .ok o ∧
      { o.machine with registers := w, index := m.index }.perform inputs' (.loadRegisters x) = .ok p ∧
      ∀ k : Fin 16, p.machine.registers.get k =
        if k ≤ x.toNat ∧ m.slot k ≤ 0x0FFF then m.registers.get k else w.get k) ∧
    (∃ o p, m.perform inputs (.loadRegisters x) = .ok o ∧
      { o.machine with index := m.index }.perform inputs' (.storeRegisters x) = .ok p ∧
      p.machine.memory = m.memory) := by
  constructor
  · obtain ⟨o, fault, performed, stored⟩ := perform_storeRegisters (m := m) inputs hx
    have dialect : o.machine.dialect = m.dialect := by rw [stored]; rfl
    have memory : o.machine.memory = m.stored (x.toNat + 1) := by rw [stored]; rfl
    obtain ⟨p, performed', registers⟩ := m.perform_loadRegisters_stored
      { o.machine with registers := w, index := m.index } inputs' hx rfl dialect memory
    exact ⟨o, p, performed, performed', registers⟩
  · obtain ⟨o, fault, performed, loaded⟩ := perform_loadRegisters (m := m) inputs hx
    have dialect : o.machine.dialect = m.dialect := by rw [loaded]; rfl
    have registers : o.machine.registers = m.loaded (x.toNat + 1) := by rw [loaded]; rfl
    have memory : o.machine.memory = m.memory := by rw [loaded]; rfl
    obtain ⟨p, performed', memory'⟩ := m.perform_storeRegisters_loaded
      { o.machine with index := m.index } inputs' hx rfl dialect registers memory
    exact ⟨o, p, performed, performed', memory'⟩

def rounding : Machine :=
  { initial { transferMovesIndex := true } with
    registers := Vector.replicate 16 7, index := 0xFFFE }

theorem transfers_undo_each_other_rounding :
    (∃ o p, rounding.perform {} (.storeRegisters 1) = .ok o ∧
      { o.machine with registers := Vector.replicate 16 9, index := 0xFFFE }.perform {}
        (.loadRegisters 1) = .ok p ∧
      p.machine.registers.get 0 = 9 ∧ p.machine.registers.get 1 = 7 ∧ p.machine.registers.get 2 = 9) ∧
    (∃ o p, rounding.perform {} (.loadRegisters 1) = .ok o ∧
      { o.machine with index := 0xFFFE }.perform {} (.storeRegisters 1) = .ok p ∧
      p.machine.memory = .initial) := by
  obtain ⟨⟨o, p, performed, performed', registers⟩, back⟩ := transfers_undo_each_other rounding {} {}
    (x := 1) (by decide) (Vector.replicate 16 9)
  exact ⟨⟨o, p, performed, performed', registers 0, registers 1, registers 2⟩, back⟩

end Machine

end Chip8
