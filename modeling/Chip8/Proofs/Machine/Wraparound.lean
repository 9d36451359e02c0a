import Chip8.Proofs.Machine.Loading
import Chip8.Proofs.Machine.Transfers

namespace Chip8

namespace Machine

inductive Reached (dialect : Dialect) (program : Array UInt8) : Machine → Prop
  | load : Reached dialect program ((initial dialect).load program).machine
  | step : Reached dialect program m → (inputs : Inputs) →
      Reached dialect program (m.step inputs).machine
  | tick : Reached dialect program m → Reached dialect program m.tick

variable {m : Machine} (inputs : Inputs)

theorem stored_of_outside {count : Nat} (h : ∀ k < count, 4096 ≤ m.slot k) :
    m.stored count = m.memory := by
  induction count with
  | zero => rfl
  | succ count ih =>
    rw [stored, Memory.put_of_le _ _ (h count (by omega))]
    exact ih fun k hk => h k (by omega)

def roller : Array UInt8 := #[0xAF, 0xFF, 0xFF, 0x55, 0x12, 0x02]

/-- The program has stored all registers as many times, always behind the end of memory. -/
structure Rolling (rounds : Nat) (m : Machine) : Prop where
  memory : ∀ address < 4096, m.memory.read address = .ok (Memory.fresh roller address)
  registers : m.registers = Vector.replicate 16 0
  index : m.index.toNat = 0xFFF + 16 * rounds
  pc : m.pc = 0x202
  moves : m.dialect.transferMovesIndex = true

namespace Rolling

variable {rounds : Nat}

theorem fetch_store (h : m.Rolling rounds) : m.fetch = .ok (0xFF55, .storeRegisters 15) := by
  have high : m.memory.read m.pc.toNat = .ok 0xFF := by
    rw [h.pc]
    exact h.memory 0x202 (by decide)
  have low : m.memory.read (m.pc.toNat + 1) = .ok 0x55 := by
    rw [h.pc]
    exact h.memory 0x203 (by decide)
  exact fetch_of_read high low rfl

theorem outside_slot (h : m.Rolling rounds) (before : rounds < 3840) {k : Nat} (hk : k < 16) :
    4096 ≤ m.slot k := by
  rw [slot_of_moves h.moves, h.index]
  omega

theorem next (h : m.Rolling rounds) (before : rounds < 3840) :
    ((m.step inputs).machine.step inputs).machine.Rolling (rounds + 1) := by
  obtain ⟨fault, stored⟩ := step_storeRegisters inputs h.fetch_store
  have memory : (m.step inputs).machine.memory = m.memory := by
    rw [stored]
    exact stored_of_outside fun k hk => h.outside_slot before hk
  have index : (m.step inputs).machine.index.toNat = 0xFFF + 16 * (rounds + 1) := by
    have moved : (m.indexAfter 16).toNat = (m.index.toNat + 16) % 65536 :=
      toNat_indexAfter_of_moves h.moves 16
    rw [stored]
    change (m.indexAfter 16).toNat = _
    rw [moved, h.index]
    omega
  have pc : (m.step inputs).machine.pc = 0x204 := by
    rw [stored]
    change m.pc + 2 = 0x204
    rw [h.pc]
    rfl
  have high : (m.step inputs).machine.memory.read (m.step inputs).machine.pc.toNat = .ok 0x12 := by
    rw [memory, pc]
    exact h.memory 0x204 (by decide)
  have low :
      (m.step inputs).machine.memory.read ((m.step inputs).machine.pc.toNat + 1) = .ok 0x02 := by
    rw [memory, pc]
    exact h.memory 0x205 (by decide)
  have registers : (m.step inputs).machine.registers = m.registers := by rw [stored]; rfl
  have dialect : (m.step inputs).machine.dialect = m.dialect := by rw [stored]; rfl
  have fetched : (m.step inputs).machine.fetch = .ok (0x1202, .jump 0x202) :=
    fetch_of_read high low rfl
  obtain ⟨fault', jumped⟩ := step_jump inputs fetched
  rw [jumped]
  exact {
    memory := by simpa only [memory] using h.memory
    registers := registers.trans h.registers
    index
    pc := rfl
    moves := by simpa only [dialect] using h.moves }

end Rolling

theorem rolling_load {dialect : Dialect} (moves : dialect.transferMovesIndex = true) :
    (((initial dialect).load roller).machine.step inputs).machine.Rolling 0 := by
  have fits : roller.size ≤ 3584 := by decide
  obtain ⟨memory, copied, loaded⟩ := load_of_le (m := initial dialect) fits
  have holds : ∀ address < 4096, memory.read address = .ok (Memory.fresh roller address) :=
    fun address h => Memory.read_copy_initial copied h
  rw [loaded]
  generalize hm : (⟨{ initial dialect with memory }, none, [.loaded roller.size]⟩ : Outcome).machine = m
  have high : m.memory.read m.pc.toNat = .ok 0xAF := by
    rw [← hm]
    exact holds 0x200 (by decide)
  have low : m.memory.read (m.pc.toNat + 1) = .ok 0xFF := by
    rw [← hm]
    exact holds 0x201 (by decide)
  have fetched : m.fetch = .ok (0xAFFF, .setIndex 0xFFF) := fetch_of_read high low rfl
  obtain ⟨fault, set⟩ := step_setIndex inputs fetched
  rw [set, ← hm]
  exact ⟨holds, rfl, rfl, rfl, moves⟩

theorem exists_rolling {dialect : Dialect} (moves : dialect.transferMovesIndex = true)
    {rounds : Nat} (h : rounds ≤ 3840) : ∃ m, Reached dialect roller m ∧ m.Rolling rounds := by
  induction rounds with
  | zero => exact ⟨_, .step .load {}, rolling_load {} moves⟩
  | succ rounds ih =>
    obtain ⟨m, reached, rolling⟩ := ih (by omega)
    exact ⟨_, .step (.step reached {}) {}, rolling.next {} (by omega)⟩

def Wraps (m : Machine) (count : Nat) : Prop :=
  m.dialect.transferMovesIndex = true ∧ 65536 ≤ m.index.toNat + count

variable {w : Word} {x : UInt8} {k : Nat}

theorem indexAfter_lt_iff {count : Nat} (h : count ≤ 16) :
    m.indexAfter count < m.index ↔ m.Wraps count := by
  have hi := m.index.toNat_lt
  rw [UInt16.lt_iff_toNat_lt]
  cases moves : m.dialect.transferMovesIndex with
  | true =>
    rw [toNat_indexAfter_of_moves moves]
    simp only [Wraps, moves, true_and]
    omega
  | false => simp [indexAfter_of_stays moves, Wraps, moves]

theorem le_slot (h : ¬ m.Wraps (k + 1)) : m.index.toNat ≤ m.slot k := by
  cases moves : m.dialect.transferMovesIndex with
  | true =>
    simp only [Wraps, moves, true_and] at h
    rw [slot_of_moves moves]
    omega
  | false =>
    rw [slot_of_stays moves]
    omega

theorem Wraps.mono {j : Nat} (h : m.Wraps j) (hk : j ≤ k) : m.Wraps k :=
  ⟨h.1, Nat.le_trans h.2 (Nat.add_le_add_left hk _)⟩

/-- FX55 and FX65 make I smaller only where it steps along and comes back from zero. Otherwise no
byte below the address in I changes. -/
theorem transfer_falls_back_iff (fetched : m.fetch = .ok (w, .storeRegisters x) ∨
      m.fetch = .ok (w, .loadRegisters x)) (inputs : Inputs) :
    ((m.step inputs).machine.index < m.index ↔
      m.dialect.transferMovesIndex = true ∧ 65536 ≤ m.index.toNat + (x.toNat + 1)) ∧
    (¬ (m.step inputs).machine.index < m.index → ∀ address < m.index.toNat,
      (m.step inputs).machine.memory.read address = m.memory.read address) := by
  rcases fetched with fetched | fetched
  · have hx : x.toNat < 16 := inRange_of_fetch fetched
    obtain ⟨lastFault, stepped⟩ := step_storeRegisters inputs fetched
    rw [stepped]
    have fallsBack : m.indexAfter (x.toNat + 1) < m.index ↔ m.Wraps (x.toNat + 1) :=
      indexAfter_lt_iff (by omega)
    refine ⟨fallsBack, fun stays address below => Memory.read_congr ?_⟩
    apply getElem?_stored_of_ne
    intro k hk same
    have above : m.index.toNat ≤ m.slot k :=
      le_slot fun wraps => stays (fallsBack.2 (wraps.mono (by omega)))
    omega
  · have hx : x.toNat < 16 := inRange_of_fetch fetched
    obtain ⟨lastFault, stepped⟩ := step_loadRegisters inputs fetched
    rw [stepped]
    exact ⟨indexAfter_lt_iff (by omega), fun _ _ _ => rfl⟩

theorem transfer_falls_back_iff_rolling :
    ∃ m, Reached { transferMovesIndex := true } roller m ∧
      m.fetch = .ok (0xFF55, .storeRegisters 15) ∧ m.index = 0x0FFF ∧
      ¬ (m.step {}).machine.index < m.index ∧
      ∀ address < 0x0FFF, (m.step {}).machine.memory.read address = m.memory.read address := by
  obtain ⟨m, reached, rolling⟩ : ∃ m, Reached { transferMovesIndex := true } roller m ∧
      m.Rolling 0 := exists_rolling rfl (Nat.zero_le _)
  have index : m.index = 0x0FFF := UInt16.toNat_inj.1 rolling.index
  obtain ⟨fallsBack, kept⟩ := transfer_falls_back_iff (.inl rolling.fetch_store) {}
  rw [index] at fallsBack kept
  have stays := mt fallsBack.1 fun wraps => absurd wraps.2 (by decide)
  refine ⟨m, reached, rolling.fetch_store, index, ?_, kept stays⟩
  rwa [index]

theorem transfer_overwrites_font :
    ∃ m, Reached { transferMovesIndex := true } roller m ∧
      m.fetch = .ok (0xFF55, .storeRegisters 15) ∧ m.index = 0xFFFF ∧
      m.memory.read 0 = .ok 0xF0 ∧ (m.step {}).machine.index = 0x000F ∧
      (m.step {}).machine.memory.read 0 = .ok 0x00 := by
  obtain ⟨m, reached, rolling⟩ : ∃ m, Reached { transferMovesIndex := true } roller m ∧
      m.Rolling 3840 := exists_rolling rfl (Nat.le_refl 3840)
  obtain ⟨fault, stored⟩ := step_storeRegisters {} rolling.fetch_store
  have index : m.index = 0xFFFF := UInt16.toNat_inj.1 rolling.index
  have first : m.slot 0 = 0 := by
    rw [slot_of_moves rolling.moves, index]
    rfl
  refine ⟨m, reached, rolling.fetch_store, index, rolling.memory 0 (by decide), ?_, ?_⟩
  · rw [stored]
    change m.indexAfter 16 = 0x000F
    rw [indexAfter_of_moves rolling.moves, index]
    rfl
  · rw [stored]
    change (m.stored 16).read 0 = .ok 0x00
    have byte : (m.stored 16).cells[m.slot 0]? = some (m.register (UInt8.ofNat 0)) :=
      getElem?_stored_slot (by decide) (by decide) (by omega)
    rw [first, register, rolling.registers] at byte
    exact Memory.read_of_getElem? byte

end Machine

end Chip8
