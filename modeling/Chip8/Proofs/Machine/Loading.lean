import Chip8.Machine.Basic

namespace Chip8

namespace Memory

variable {m m' : Memory} {address i : Nat} {block : Array UInt8}

theorem read_of_getElem? {byte : UInt8} (h : m.cells[i]? = some byte) : m.read i = .ok byte := by
  simp only [read, h]

theorem exists_copy (h : address + block.size ≤ 4096) : ∃ m', m.copy address block = .ok m' :=
  ⟨_, dif_pos h⟩

theorem copy_of_lt (h : 4096 < address + block.size) :
    m.copy address block = .error ⟨block.size, address⟩ :=
  dif_neg (Nat.not_le.2 h)

theorem getElem?_copy (h : m.copy address block = .ok m') (i : Nat) :
    m'.cells[i]? = if address ≤ i ∧ i < address + block.size then block[i - address]?
      else m.cells[i]? := by
  unfold copy at h
  split at h
  · next fits =>
    cases h
    have left : min address 4096 = address := by omega
    by_cases before : i < address
    · have outside : ¬ (address ≤ i ∧ i < address + block.size) := by omega
      simp [Array.getElem?_append, left, before, outside]
    · by_cases inside : i < address + block.size
      · simp [Array.getElem?_append, left, before, inside, show i - address < block.size by omega,
          show address ≤ i by omega]
      · -- the rest of memory begins at its old place again
        have rest : address + block.size + (i - address - block.size) = i := by omega
        simp [Array.getElem?_append, Array.getElem?_extract, left, before, inside,
          show ¬ i - address < block.size by omega, rest]
        omega
  · cases h

theorem getElem?_initial (h : i < 4096) : initial.cells[i]? = some (font.getD i 0) := by
  rw [Vector.getElem?_eq_getElem h, initial, Vector.getElem_ofFn]

def fresh (program : Array UInt8) (address : Nat) : UInt8 :=
  if address < programStart then font.getD address 0
  else program.getD (address - programStart) 0

theorem read_copy_initial {program : Array UInt8}
    (h : initial.copy programStart program = .ok m) (hi : i < 4096) :
    m.read i = .ok (fresh program i) := by
  apply read_of_getElem?
  rw [getElem?_copy h, fresh]
  by_cases below : i < programStart
  · rw [if_neg (by omega), if_pos below, getElem?_initial hi]
  · rw [if_neg below]
    by_cases inside : i < programStart + program.size
    · have bound : i - programStart < program.size := by omega
      rw [if_pos (by omega), Array.getElem?_eq_getElem bound, Array.getD, dif_pos bound]
      rfl
    · have font_ends : font.size ≤ i := Nat.le_trans (by decide) (Nat.le_of_not_lt below)
      rw [if_neg (by omega), getElem?_initial hi, Array.getD, Array.getD,
        dif_neg (Nat.not_lt.2 font_ends), dif_neg (by omega)]

end Memory

namespace Machine

variable {m : Machine} {program : Array UInt8}

theorem load_of_le (h : program.size ≤ 3584) :
    ∃ memory, m.memory.copy Memory.programStart program = .ok memory ∧
      m.load program = ⟨{ m with memory }, none, [.loaded program.size]⟩ := by
  have fits : Memory.programStart + program.size ≤ 4096 := Nat.add_le_add_left h _
  obtain ⟨memory, copied⟩ := Memory.exists_copy (m := m.memory) fits
  refine ⟨memory, copied, ?_⟩
  rw [load, copied]
  rfl

theorem load_of_lt (h : 3584 < program.size) :
    m.load program = m.report [.misfit ⟨program.size, Memory.programStart⟩]
      (some (.programTooLarge program.size 3584)) := by
  have misfit : 4096 < Memory.programStart + program.size := Nat.add_lt_add_left h _
  rw [load, Memory.copy_of_lt misfit]
  rfl

theorem fault_load_eq_none_iff : (m.load program).fault = none ↔ program.size ≤ 3584 := by
  rcases Nat.lt_or_ge 3584 program.size with large | small
  · rw [load_of_lt large]
    exact ⟨nofun, fun small => absurd small (Nat.not_le.2 large)⟩
  · obtain ⟨memory, -, loaded⟩ := load_of_le (m := m) small
    rw [loaded]
    exact ⟨fun _ => small, fun _ => rfl⟩

end Machine

end Chip8
