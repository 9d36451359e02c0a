import Chip8.Machine.Step
import Chip8.Proofs.Machine.Loading

namespace Chip8

def Memory.Holds (m : Memory) (program : Array UInt8) : Prop :=
  ∀ address < 4096, m.read address = .ok (fresh program address)

namespace Machine

variable {m : Machine} {w : Word} {i : Instruction} {fault : Fault} (inputs : Inputs)

theorem fetch_of_read {high low : UInt8} {i : Instruction}
    (hh : m.memory.read m.pc.toNat = .ok high) (hl : m.memory.read (m.pc.toNat + 1) = .ok low)
    (decoded : Instruction.decode (Word.ofBytes high low) = some i) :
    m.fetch = .ok (Word.ofBytes high low, i) := by
  have word : m.memory.readWord m.pc.toNat = .ok (Word.ofBytes high low) := by
    rw [Memory.readWord, hh, hl]
    rfl
  rw [fetch, word]
  dsimp only
  rw [decoded]

theorem holds_load {program : Array UInt8} (fits : program.size ≤ 3584) (dialect : Dialect) :
    ((initial dialect).load program).machine.memory.Holds program := by
  obtain ⟨memory, copied, loaded⟩ := load_of_le (m := initial dialect) fits
  rw [loaded]
  exact fun address h => Memory.read_copy_initial copied h

theorem fetch_of_holds {program : Array UInt8} {p : UInt16} (holds : m.memory.Holds program)
    (pc : m.pc = p) (inside : p.toNat + 1 < 4096) :
    let opcode := Word.ofBytes (Memory.fresh program p.toNat) (Memory.fresh program (p.toNat + 1))
    m.fetch = match Instruction.decode opcode with
      | none => .error (.unknownOpcode opcode p)
      | some i => .ok (opcode, i) := by
  intro opcode
  have word : m.memory.readWord p.toNat = .ok opcode := by
    rw [Memory.readWord, holds _ (by omega), holds _ inside]
    rfl
  cases decoded : Instruction.decode opcode <;> simp only [fetch, pc, word, decoded]

theorem step_of_fetch_error (failed : m.fetch = .error fault) : m.step inputs = m.pass fault := by
  have h := m.cycle_eq inputs
  rw [cycle, failed] at h
  exact (Except.ok.inj h).symm

theorem step_of_perform {o : Outcome} (fetched : m.fetch = .ok (w, i))
    (performed : m.perform inputs i = .ok o) :
    m.step inputs = { o with notes := .executing m.pc w i :: o.notes } := by
  have h := m.cycle_eq inputs
  rw [cycle, fetched] at h
  dsimp only at h
  rw [performed] at h
  exact (Except.ok.inj h).symm

theorem perform_of_execute {e : Effect} (executed : m.execute inputs i = .ok e) :
    m.perform inputs i = .ok e.settle := by
  rw [perform, executed]
  rfl

theorem settle_machine (e : Effect) : ∃ lastFault,
    e.settle.machine = { e.machine with pc := e.flow.follow e.machine.pc, lastFault } := by
  obtain ⟨machine, flow, fault, notes⟩ := e
  cases fault with
  | none => exact ⟨machine.lastFault, rfl⟩
  | some f => exact ⟨some f, rfl⟩

theorem step_of_execute {e : Effect} (fetched : m.fetch = .ok (w, i))
    (executed : m.execute inputs i = .ok e) : (m.step inputs).machine = e.settle.machine := by
  rw [step_of_perform inputs fetched (perform_of_execute inputs executed)]

/-- What a step can do to the machine: it passes over what is no instruction, or executes one. -/
theorem machine_step (m : Machine) (inputs : Inputs) :
    (∃ fault, m.fetch = .error fault ∧
      (m.step inputs).machine = { m with pc := m.pc + 2, lastFault := some fault }) ∨
    ∃ w i e lastFault, m.fetch = .ok (w, i) ∧ i.InRange ∧ m.execute inputs i = .ok e ∧
      (m.step inputs).machine = { e.machine with pc := e.flow.follow e.machine.pc, lastFault } := by
  cases fetched : m.fetch with
  | error fault =>
    left
    rw [step_of_fetch_error inputs fetched]
    exact ⟨fault, rfl, rfl⟩
  | ok found =>
    obtain ⟨w, i⟩ := found
    have range := inRange_of_fetch fetched
    obtain ⟨e, executed⟩ := m.succeeds_execute inputs range.executable
    obtain ⟨lastFault, settled⟩ := settle_machine e
    exact .inr ⟨w, i, e, lastFault, rfl, range, executed,
      (step_of_execute inputs fetched executed).trans settled⟩

theorem step_setIndex {w : Word} {nnn : UInt16} (fetched : m.fetch = .ok (w, .setIndex nnn)) :
    ∃ lastFault, (m.step inputs).machine = { m with index := nnn, pc := m.pc + 2, lastFault } := by
  rw [step_of_execute inputs fetched rfl]
  exact settle_machine _

theorem step_jump {w : Word} {nnn : UInt16} (fetched : m.fetch = .ok (w, .jump nnn)) :
    ∃ lastFault, (m.step inputs).machine = { m with pc := nnn, lastFault } := by
  rw [step_of_execute inputs fetched rfl]
  exact settle_machine _

end Machine

end Chip8
