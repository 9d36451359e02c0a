import Chip8.Proofs.Machine.Pulses
import Mathlib.Data.List.Induction

namespace Chip8

namespace Memory

variable (m : Memory) {address : Nat}

theorem exists_readWord (inside : address < 0x0FFF) : ∃ w, m.readWord address = .ok w := by
  rw [readWord, read_of_lt m (by omega), read_of_lt m (by omega)]
  exact ⟨_, rfl⟩

theorem readWord_of_le (outside : 0x0FFF ≤ address) :
    m.readWord address = .error (.memoryOutOfBounds (max address 4096)) := by
  by_cases half : address < 4096
  · have last : address = 0x0FFF := by omega
    subst last
    rw [readWord, read_of_lt m half, read_of_le m (Nat.le_refl 4096)]
    rfl
  · have beyond := Nat.le_of_not_lt half
    rw [readWord, read_of_le m beyond, Nat.max_eq_left beyond]
    rfl

end Memory

namespace Machine

variable {m : Machine}

theorem fetch_of_le (stray : 0x0FFF ≤ m.pc.toNat) : m.fetch = .error (.counterOutOfBounds m.pc) := by
  rw [fetch, m.memory.readWord_of_le stray]

theorem fetch_of_lt (inside : m.pc.toNat < 0x0FFF) (pc : UInt16) :
    m.fetch ≠ .error (.counterOutOfBounds pc) := by
  obtain ⟨w, read⟩ := m.memory.exists_readWord inside
  intro stray
  rw [fetch, read] at stray
  dsimp only at stray
  split at stray <;> cases stray

theorem step_of_le (stray : 0x0FFF ≤ m.pc.toNat) (inputs : Inputs) :
    m.step inputs = m.pass (.counterOutOfBounds m.pc) := step_of_fetch_error inputs (fetch_of_le stray)

theorem toNat_pc_add (pc : UInt16) (count : Nat) :
    (pc + UInt16.ofNat (2 * count)).toNat = (pc.toNat + 2 * count) % 65536 := by
  rw [UInt16.toNat_add, UInt16.toNat_ofNat']
  omega

/-- Nothing but the counter moves, until it has come round. -/
theorem pulses_stray (stray : 0x0FFF ≤ m.pc.toNat) (done : List Inputs)
    (short : m.pc.toNat + 2 * done.length ≤ 65537) : ∃ lastFault, m.pulses (done.map .step) =
      { m with pc := m.pc + UInt16.ofNat (2 * done.length), lastFault } := by
  -- the step at the end starts outside of memory, so the induction takes the steps from there
  induction done using List.reverseRecOn with
  | nil => exact ⟨m.lastFault, by simp [pulses]⟩
  | append_singleton done inputs ih =>
    rw [List.length_append, List.length_singleton] at short
    obtain ⟨lastFault, before⟩ := ih (by omega)
    have away : 0x0FFF ≤ (m.pulses (done.map .step)).pc.toNat := by
      rw [before, toNat_pc_add, Nat.mod_eq_of_lt (by omega)]
      omega
    have next : m.pc + UInt16.ofNat (2 * (done.length + 1)) =
        m.pc + UInt16.ofNat (2 * done.length) + 2 := by
      rw [Nat.mul_add, UInt16.ofNat_add, ← UInt16.add_assoc]
      rfl
    refine ⟨some (.counterOutOfBounds (m.pulses (done.map .step)).pc), ?_⟩
    rw [List.map_append, List.map_singleton, pulses_concat, pulse, step_of_le away, before,
      List.length_append, List.length_singleton, next]
    rfl

/-- A program counter that has left memory comes round to its beginning. There are as many steps until then
as half of the way has addresses, rounded up. Each of them reports where the counter is, moves it on by
two and changes nothing else. Afterwards it is at one of the first two addresses, in the font, and there is
a word to fetch. -/
theorem stray_counter_comes_round (m : Machine) (stray : 0x0FFF ≤ m.pc) :
    let away := (65536 - m.pc.toNat + 1) / 2
    (∀ (done : List Inputs) (inputs : Inputs), done.length < away →
      let now := m.pulses (done.map .step)
      let fault := .counterOutOfBounds now.pc
      now.pc.toNat = m.pc.toNat + 2 * done.length ∧
      now.step inputs =
        ⟨{ now with pc := now.pc + 2, lastFault := some fault }, some fault, [.fault fault]⟩) ∧
    (∀ done : List Inputs, done.length = away →
      let now := m.pulses (done.map .step)
      now = { m with pc := now.pc, lastFault := now.lastFault } ∧
      now.pc.toNat = m.pc.toNat % 2 ∧ now.pc.toNat + 1 < Memory.font.size ∧
      (∃ w, now.memory.readWord now.pc.toNat = .ok w) ∧
      ∀ pc, now.fetch ≠ .error (.counterOutOfBounds pc)) := by
  intro away
  have stray : 0x0FFF ≤ m.pc.toNat := UInt16.le_iff_toNat_le.1 stray
  have bound := m.pc.toNat_lt
  have half : away = (65536 - m.pc.toNat + 1) / 2 := rfl
  refine ⟨fun done inputs short => ?_, fun done whole => ?_⟩
  · intro now fault
    obtain ⟨lastFault, after⟩ := pulses_stray stray done (by omega)
    have counter : now.pc.toNat = m.pc.toNat + 2 * done.length := by
      rw [show now = _ from after, toNat_pc_add, Nat.mod_eq_of_lt (by omega)]
    exact ⟨counter, step_of_le (by omega) inputs⟩
  · intro now
    obtain ⟨lastFault, after⟩ := pulses_stray stray done (by omega)
    have counter : now.pc.toNat = m.pc.toNat % 2 := by
      rw [show now = _ from after, toNat_pc_add]
      omega
    have low : now.pc.toNat < 2 := counter ▸ Nat.mod_lt _ (by decide)
    have inside : now.pc.toNat < 0x0FFF := by omega
    refine ⟨?_, counter, ?_, now.memory.exists_readWord inside, fetch_of_lt inside⟩
    · rw [show now = _ from after]
    · exact Nat.lt_of_lt_of_le (Nat.succ_lt_succ low) (by decide)

def edging : Machine := { initial {} with pc := 0x0FFF }

theorem stray_counter_comes_round_edging :
    0x0FFF ≤ edging.pc ∧ (edging.step {}).fault = some (.counterOutOfBounds 0x0FFF) ∧
    ∀ done : List Inputs, done.length = 30721 →
      (edging.pulses (done.map .step)).pc.toNat = 1 ∧
      (edging.pulses (done.map .step)).memory = edging.memory ∧
      ∃ w, edging.memory.readWord 1 = .ok w := by
  obtain ⟨away, back⟩ := stray_counter_comes_round edging (by decide)
  refine ⟨by decide, ?_, fun done whole => ?_⟩
  · obtain ⟨-, stepped⟩ := away [] {} (by decide)
    rw [show edging = edging.pulses ([].map .step) from rfl, stepped]
    rfl
  · obtain ⟨same, counter, -, ⟨w, read⟩, -⟩ := back done whole
    have memory : (edging.pulses (done.map .step)).memory = edging.memory := by rw [same]
    rw [counter, memory] at read
    exact ⟨counter, memory, w, read⟩

end Machine

end Chip8
