import Chip8.Proofs.Machine.Frames
import Chip8.Proofs.Machine.Mishaps
import Chip8.Proofs.Machine.Wraparound

namespace Chip8

def Fault.AtEnd : Fault → Prop
  | .memoryOutOfBounds address => address = 0x1000
  | _ => True

theorem Memory.outside_range'_of_lt {start : Nat} (inside : start < 4096) (length : Nat) :
    outside (List.range' start length) =
      if start + length ≤ 4096 then none else some (.memoryOutOfBounds 0x1000) := by
  rw [outside_range', Nat.max_eq_right (Nat.le_of_lt inside)]
  exact if_congr (by omega) rfl rfl

namespace Machine

variable {m m' : Machine} {inputs : Inputs} {i : Instruction} {e : Effect}

theorem index_addIndex {x : UInt8} (h : m.addIndex x = .ok m') : m'.index.toNat < 4096 := by
  simp only [addIndex, bind_eq_ok] at h
  obtain ⟨v, -, h⟩ := h
  split at h
  · next small =>
    have small : m.index.toNat + v.toNat < 4096 := small
    cases h
    rw [UInt16.toNat_ofNat']
    omega
  · cases h
    change (UInt16.ofNat ((m.index.toNat + v.toNat) % 4096)).toNat < 4096
    rw [UInt16.toNat_ofNat']
    omega

theorem index_execute (stays : m.dialect.transferMovesIndex = false) (range : i.InRange)
    (inside : m.index.toNat < 4096) (h : m.execute inputs i = .ok e) :
    e.machine.index.toNat < 4096 := by
  cases i with
  | setIndex nnn =>
    cases h
    exact range
  | addIndex x =>
    obtain ⟨done, added, h⟩ := bind_eq_ok.1 h
    cases h
    exact index_addIndex added
  | pointGlyph x =>
    obtain ⟨done, pointed, h⟩ := bind_eq_ok.1 h
    obtain ⟨digit, small, rfl⟩ := pointGlyph_frame pointed
    cases h
    change (UInt16.ofNat (digit * 5)).toNat < 4096
    rw [UInt16.toNat_ofNat']
    exact Nat.lt_of_le_of_lt (Nat.mod_le _ _) (by omega)
  | storeRegisters x | loadRegisters x =>
    rw [(execute_spares range.executable h).index (Bool.eq_false_iff.1 stays)]
    exact inside
  | _ =>
    rw [(execute_spares range.executable h).index id]
    exact inside

theorem map_slot_of_stays (stays : m.dialect.transferMovesIndex = false) (count : Nat) :
    (List.range count).map m.slot = List.range' m.index.toNat count :=
  map_slot_eq_range' fun k _ => slot_of_stays stays k

theorem visits_eq_range' (stays : m.dialect.transferMovesIndex = false) (i : Instruction) :
    ∃ length, m.visits i = List.range' m.index.toNat length := by
  cases i with
  | draw x y n => exact ⟨n.toNat, rfl⟩
  | storeDecimal x => exact ⟨_, rfl⟩
  | storeRegisters x | loadRegisters x => exact ⟨x.toNat + 1, map_slot_of_stays stays _⟩
  | _ => exact ⟨0, rfl⟩

theorem mishap_of_ne_ret (h : i ≠ .ret) : m.mishap i = Memory.outside (m.visits i) := by
  cases i with
  | ret => exact absurd rfl h
  | _ => rfl

theorem mishap_atEnd (stays : m.dialect.transferMovesIndex = false)
    (inside : m.index.toNat < 4096) {f : Fault} (h : m.mishap i = some f) : f.AtEnd := by
  by_cases returns : i = .ret
  · rw [returns, mishap] at h
    split at h
    · cases h
      trivial
    · cases h
  · obtain ⟨length, visited⟩ := visits_eq_range' stays i
    rw [mishap_of_ne_ret returns, visited, Memory.outside_range'_of_lt inside] at h
    split at h
    · cases h
    · cases h
      rfl

theorem mishap_eq_overrun_iff (stays : m.dialect.transferMovesIndex = false)
    (inside : m.index.toNat < 4096) : m.mishap i = some (.memoryOutOfBounds 0x1000) ↔
      ∃ address ∈ m.visits i, 0x1000 ≤ address := by
  by_cases returns : i = .ret
  · subst returns
    simp only [mishap, visits]
    split <;> simp
  · obtain ⟨length, visited⟩ := visits_eq_range' stays i
    rw [mishap_of_ne_ret returns, visited, Memory.outside_range'_of_lt inside]
    constructor
    · intro h
      split at h
      · cases h
      · exact ⟨0x1000, List.mem_range'_1.2 (by omega), Nat.le_refl _⟩
    · rintro ⟨address, visits, outside⟩
      have within := List.mem_range'_1.1 visits
      exact if_neg (by omega)

theorem fetch_atEnd {f : Fault} (h : m.fetch = .error f) : f.AtEnd := by
  unfold fetch at h
  split at h
  · cases h
    trivial
  · split at h
    · cases h
      trivial
    · cases h

theorem failure_atEnd (stays : m.dialect.transferMovesIndex = false)
    (inside : m.index.toNat < 4096) {f : Fault} (h : m.failure = some f) : f.AtEnd := by
  unfold failure at h
  split at h
  · next failed =>
    cases h
    exact fetch_atEnd failed
  · exact mishap_atEnd stays inside h

/-- I is inside of memory and stays there, and so far memory has only been overrun at its end. -/
structure Confined (m : Machine) : Prop where
  stays : m.dialect.transferMovesIndex = false
  index : m.index.toNat < 4096
  lastFault : ∀ f ∈ m.lastFault, f.AtEnd

namespace Confined

theorem load {dialect : Dialect} (stays : dialect.transferMovesIndex = false)
    (program : Array UInt8) : ((initial dialect).load program).machine.Confined := by
  rcases Nat.lt_or_ge 3584 program.size with large | small
  · rw [load_of_lt large]
    refine ⟨stays, Nat.zero_lt_succ 4095, ?_⟩
    rintro f ⟨⟩
    trivial
  · obtain ⟨memory, -, loaded⟩ := load_of_le (m := initial dialect) small
    rw [loaded]
    exact ⟨stays, Nat.zero_lt_succ 4095, by rintro f ⟨⟩⟩

theorem tick (h : m.Confined) : m.tick.Confined := ⟨h.stays, h.index, h.lastFault⟩

theorem fault_step (h : m.Confined) (inputs : Inputs) : ∀ f ∈ (m.step inputs).fault, f.AtEnd := by
  intro f found
  rw [(step_reports m inputs).fault] at found
  exact failure_atEnd h.stays h.index found

theorem index_step (h : m.Confined) (inputs : Inputs) :
    (m.step inputs).machine.index.toNat < 4096 := by
  obtain ⟨fault, -, stepped⟩ | ⟨w, i, e, lastFault, -, range, executed, stepped⟩ :=
    m.machine_step inputs
  · rw [stepped]
    exact h.index
  · rw [stepped]
    exact index_execute h.stays range h.index executed

theorem step (h : m.Confined) (inputs : Inputs) : (m.step inputs).machine.Confined where
  stays := by rw [dialect_step, h.stays]
  index := h.index_step inputs
  lastFault := by
    intro f kept
    rw [(step_reports m inputs).lastFault] at kept
    rcases Option.or_eq_some_iff.1 kept with failed | ⟨-, kept⟩
    · exact failure_atEnd h.stays h.index failed
    · exact h.lastFault f kept

end Confined

theorem Reached.confined {dialect : Dialect} {program : Array UInt8}
    (stays : dialect.transferMovesIndex = false) (reached : Reached dialect program m) :
    m.Confined := by
  induction reached with
  | load => exact .load stays program
  | step reached inputs ih => exact ih.step inputs
  | tick reached ih => exact ih.tick

/-- In a dialect where transfers leave I in place, whatever program is loaded, I is always an address
of memory. A step overruns memory if and only if the instruction visits an address outside, and all
faults about addresses, those returned and the one kept, are about the first address behind the end. -/
theorem memory_is_overrun_at_its_end {dialect : Dialect} {program : Array UInt8}
    (stays : dialect.transferMovesIndex = false) (reached : Reached dialect program m) :
    m.index ≤ 0x0FFF ∧
    (∀ f ∈ ((initial dialect).load program).fault, f.AtEnd) ∧
    (∀ f ∈ m.lastFault, f.AtEnd) ∧
    (∀ inputs, ∀ f ∈ (m.step inputs).fault, f.AtEnd) ∧
    (∀ inputs w i, m.fetch = .ok (w, i) →
      ((m.step inputs).fault = some (.memoryOutOfBounds 0x1000) ↔
        ∃ address ∈ m.visits i, 0x1000 ≤ address)) := by
  have confined := reached.confined stays
  refine ⟨?_, ?_, confined.lastFault, confined.fault_step, ?_⟩
  · exact UInt16.le_iff_toNat_le.2 (Nat.le_of_lt_succ confined.index)
  · intro f refused
    rw [(load_reports _ program).fault, refusal] at refused
    split at refused
    · cases refused
    · cases refused
      trivial
  · intro inputs w i fetched
    rw [(step_reports m inputs).fault, failure, fetched]
    exact mishap_eq_overrun_iff confined.stays confined.index

def overrunning : Array UInt8 := #[0xAF, 0xFF, 0xF1, 0x55]

theorem memory_is_overrun_at_its_end_storing :
    ∃ m, Reached {} overrunning m ∧ m.index = 0x0FFF ∧ m.fetch = .ok (0xF155, .storeRegisters 1) ∧
      (m.step {}).fault = some (.memoryOutOfBounds 0x1000) ∧
      (m.step {}).machine.index ≤ 0x0FFF ∧ ∀ f ∈ (m.step {}).machine.lastFault, f.AtEnd := by
  have holds : ((initial {}).load overrunning).machine.memory.Holds overrunning :=
    holds_load (by decide) {}
  have fetched : ((initial {}).load overrunning).machine.fetch = .ok (0xAFFF, .setIndex 0xFFF) :=
    fetch_of_holds holds rfl (by decide)
  obtain ⟨lastFault, stepped⟩ := step_setIndex {} fetched
  obtain ⟨m, stepped'⟩ : ∃ m, m = (((initial {}).load overrunning).machine.step {}).machine := ⟨_, rfl⟩
  have reached : Reached {} overrunning m := stepped' ▸ .step .load {}
  have memory : m.memory.Holds overrunning := by
    rw [stepped', stepped]
    exact holds
  have pc : m.pc = 0x202 := by
    rw [stepped', stepped]
    rfl
  have index : m.index = 0x0FFF := by rw [stepped', stepped]
  have fetched' : m.fetch = .ok (0xF155, .storeRegisters 1) := fetch_of_holds memory pc (by decide)
  have visited : 0x1000 ∈ m.visits (.storeRegisters 1) := by
    change 0x1000 ∈ (List.range 2).map m.slot
    rw [map_slot_of_stays (reached.confined rfl).stays, index]
    decide
  obtain ⟨-, -, -, -, overrun⟩ := memory_is_overrun_at_its_end rfl reached
  obtain ⟨index', -, kept, -⟩ := memory_is_overrun_at_its_end rfl (reached.step {})
  exact ⟨m, reached, index, fetched', (overrun {} _ _ fetched').2 ⟨_, visited, Nat.le_refl _⟩,
    index', kept⟩

end Machine

end Chip8
