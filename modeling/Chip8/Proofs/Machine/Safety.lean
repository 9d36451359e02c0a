import Chip8.Machine.Run
/-!
# No crashes

The execution of an instruction can crash: there may be no such register, address, glyph or cell. To
copy a block can crash where there is no such slice of memory. Words of a program only hold instructions
that do not crash, whatever state the machine is in, and a block is copied only after it has been found
to fit. So whatever is done to a machine, in whatever order, there is no crash.
-/

namespace Chip8

inductive Act : Type
  | step : Act
  | batch : (count : Nat) → Act
  | tick : Act
  | write : Keypad.Write → Act
  | load : (program : Array UInt8) → Act
  | reset : Act

structure Bench where
  run : Run
  keys : Keypad

namespace Memory

theorem lt_of_read {m : Memory} {address : Nat} {byte : UInt8}
    (h : m.read address = .ok byte) : address < size := by
  rw [read] at h
  split at h
  · next found => exact (Vector.getElem?_eq_some_iff.1 found).1
  · cases h

def room? (address : Nat) : Except Crash Nat :=
  if address ≤ 4096 then .ok (4096 - address) else .error (.noRoom address)

def fill? (m : Memory) (address : Nat) (block : Array UInt8) : Except Crash Memory :=
  if h : address + block.size < USize.size ∧ address + block.size ≤ 4096 then
    .ok ⟨⟨m.cells.toArray.extract 0 address ++ block
        ++ m.cells.toArray.extract (address + block.size) 4096, by simp; omega⟩⟩
  else .error (.noSlice address (address + block.size))

def copy? (m : Memory) (address : Nat) (block : Array UInt8) :
    Except Crash (Except Misfit Memory) := do
  if 4096 < address then return .error ⟨block.size, address⟩
  if (← room? address) < block.size then return .error ⟨block.size, address⟩
  return .ok (← m.fill? address block)

theorem copy?_eq (m : Memory) (address : Nat) (block : Array UInt8) :
    m.copy? address block = .ok (m.copy address block) := by
  have wide : 4096 < USize.size := Nat.lt_of_lt_of_le (by decide) USize.le_size
  by_cases beyond : 4096 < address
  · rw [copy?, if_pos beyond, copy, dif_neg (by omega)]
    rfl
  · rw [copy?, if_neg beyond, room?, if_pos (Nat.le_of_not_lt beyond)]
    by_cases large : 4096 - address < block.size
    · rw [copy, dif_neg (by omega)]
      exact if_pos large
    · have fits : address + block.size ≤ 4096 := by omega
      have filled : m.fill? address block = _ := dif_pos ⟨by omega, fits⟩
      rw [copy, dif_pos fits]
      refine (if_neg large).trans ?_
      rw [filled]
      rfl

end Memory

namespace Machine

def load? (m : Machine) (program : Array UInt8) : Except Crash Outcome := do
  match ← m.memory.copy? Memory.programStart program with
  | .ok memory => return { m with memory }.report [.loaded program.size] none
  | .error misfit =>
    return m.report [.misfit misfit]
      (some (.programTooLarge program.size (Memory.size - Memory.programStart)))

/-- The execution of an instruction in which copying a block may crash as well. -/
def execute? (m : Machine) (inputs : Inputs) : Instruction → Except Crash Effect
  | .storeDecimal x => do
    match ← m.memory.copy? m.index.toNat (decimalDigits (← m.getV x)) with
    | .ok memory => return { machine := { m with memory } }
    | .error misfit =>
      return { machine := m, fault := some misfit.fault, notes := [.misfit misfit] }
  | i => m.execute inputs i

def cycle? (m : Machine) (inputs : Inputs) : Except Crash Outcome :=
  match m.fetch with
  | .error fault => .ok (m.pass fault)
  | .ok (opcode, i) => do
    let done := (← m.execute? inputs i).settle
    return { done with notes := .executing m.pc opcode i :: done.notes }

theorem load?_eq (m : Machine) (program : Array UInt8) : m.load? program = .ok (m.load program) := by
  rw [load?, Memory.copy?_eq, load]
  cases m.memory.copy Memory.programStart program <;> rfl

theorem execute?_eq (m : Machine) (inputs : Inputs) (i : Instruction) :
    m.execute? inputs i = m.execute inputs i := by
  cases i with
  | storeDecimal x =>
    simp only [execute?, execute, Memory.copy?_eq]
    cases m.getV x with
    | error crash => rfl
    | ok v => cases m.memory.copy m.index.toNat (decimalDigits v) <;> rfl
  | _ => rfl

theorem cycle?_eq (m : Machine) (inputs : Inputs) : m.cycle? inputs = .ok (m.step inputs) := by
  rw [← cycle_eq, cycle?, cycle]
  cases m.fetch with
  | error fault => rfl
  | ok found =>
    dsimp only
    rw [execute?_eq, perform]
    cases m.execute inputs found.2 <;> rfl

end Machine

namespace Run

def load? (program : Array UInt8) (r : Run) : Except Crash Run := do
  return r.accept (← r.machine.load? program)

def step? (keys : Keypad) (r : Run) : Except Crash Run := do
  let done ← r.machine.cycle? ⟨keys, r.dice.top⟩
  return { r.accept done with dice := r.dice.next }

def batch? (keys : Keypad) : Nat → Run → Except Crash Run
  | 0, r => .ok r
  | n + 1, r => do batch? keys n (← r.step? keys)

theorem load?_eq (program : Array UInt8) (r : Run) : r.load? program = .ok (r.load program).1 := by
  rw [load?, Machine.load?_eq]
  rfl

theorem step?_eq (keys : Keypad) (r : Run) : r.step? keys = .ok (r.step keys).1 := by
  rw [step?, Machine.cycle?_eq]
  rfl

theorem batch?_eq (keys : Keypad) (count : Nat) (r : Run) :
    batch? keys count r = .ok (batch keys count r) := by
  induction count generalizing r with
  | zero => rfl
  | succ n ih =>
    rw [batch?, step?_eq, batch, ← ih]
    rfl

end Run

namespace Bench

def act? (b : Bench) : Act → Except Crash Bench
  | .step => do return { b with run := ← b.run.step? b.keys }
  | .batch count => do return { b with run := ← Run.batch? b.keys count b.run }
  | .tick => return { b with run := b.run.tick }
  | .write w => return { b with keys := b.keys.write w }
  | .load program => do return { b with run := ← b.run.load? program }
  | .reset => return { b with run := b.run.reset }

def act (b : Bench) : Act → Bench
  | .step => { b with run := (b.run.step b.keys).1 }
  | .batch count => { b with run := Run.batch b.keys count b.run }
  | .tick => { b with run := b.run.tick }
  | .write w => { b with keys := b.keys.write w }
  | .load program => { b with run := (b.run.load program).1 }
  | .reset => { b with run := b.run.reset }

def acts? (b : Bench) : List Act → Except Crash Bench
  | [] => .ok b
  | a :: acts => do (← b.act? a).acts? acts

def acts (b : Bench) : List Act → Bench
  | [] => b
  | a :: acts => (b.act a).acts acts

theorem act?_eq (b : Bench) (a : Act) : b.act? a = .ok (b.act a) := by
  cases a with
  | step =>
    rw [act?, Run.step?_eq]
    rfl
  | batch count =>
    rw [act?, Run.batch?_eq]
    rfl
  | tick => rfl
  | write w => rfl
  | load program =>
    rw [act?, Run.load?_eq]
    rfl
  | reset => rfl

theorem acts?_eq (b : Bench) (acts : List Act) : b.acts? acts = .ok (b.acts acts) := by
  induction acts generalizing b with
  | nil => rfl
  | cons a acts ih =>
    rw [acts?, act?_eq]
    exact ih (b.act a)

/-- Whatever has been done to a machine in whatever state, there has been no crash, and the next
cycle relies on nothing that could fail: the operands of a word are in range, no jump target
overflows, only cells of the screen are turned over, and the address of the second byte of a word is
small, the more so if there is a first byte. -/
theorem never_crashes (b : Bench) (acts : List Act) :
    let m := (b.acts acts).run.machine
    b.acts? acts = .ok (b.acts acts) ∧
    (∀ w i, Instruction.decode w = some i → i.InRange) ∧
    (∀ w x nnn (offset : UInt8), Instruction.decode w = some (.jumpOffset x nnn) →
      nnn.toNat + offset.toNat < 65536) ∧
    (∀ wrap x y px py, Canvas.place? wrap x y = some (px, py) →
      px < Screen.width ∧ py < Screen.height) ∧
    m.pc.toNat + 1 ≤ 65536 ∧
    (∀ byte, m.memory.read m.pc.toNat = .ok byte → m.pc.toNat + 1 ≤ Memory.size) := by
  intro m
  refine ⟨b.acts?_eq acts, fun w i => Instruction.inRange_of_decode, ?_,
    fun wrap x y px py => Canvas.lt_of_place?, m.pc.toNat_lt, fun byte => Memory.lt_of_read⟩
  intro w x nnn offset h
  have range : (Instruction.jumpOffset x nnn).InRange := Instruction.inRange_of_decode h
  have hn : nnn.toNat < 4096 := range.2.1
  have ho := offset.toNat_lt
  omega

end Bench

end Chip8
