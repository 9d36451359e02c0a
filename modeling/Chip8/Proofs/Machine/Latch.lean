import Chip8.Proofs.Machine.Counter
/-!
# A latch for the program counter

Instead of saying how the program goes on, an instruction can set the program counter itself and clear a
latch, so that it does not move on once more. The latch stays behind when the instruction is over, but
the next one sets it first. So no latch that is left behind makes a difference, and a machine with a latch
does what one without does.
-/

namespace Chip8

/-- A machine with a latch: whether the program counter moves on at the end of an instruction. -/
structure Latched where
  machine : Machine
  advances : Bool
  deriving DecidableEq

namespace Latched

structure Result where
  after : Latched
  fault : Option Fault := none
  notes : List Note := []

def Result.outcome (r : Result) : Outcome := ⟨r.after.machine, r.fault, r.notes⟩

def goto (l : Latched) (target : UInt16) : Latched := ⟨{ l.machine with pc := target }, false⟩

def skip (l : Latched) : Latched := { l with machine := { l.machine with pc := l.machine.pc + 2 } }

def execute (l : Latched) (inputs : Inputs) : Instruction → Except Crash Result
  | .ret =>
    match l.machine.stack with
    | target :: stack =>
      return {
        after := { l with machine := { l.machine with stack } }.goto target
        notes := [.returning target] }
    | [] => return { after := l, fault := some (.stackUnderflow l.machine.pc) }
  | .jump nnn => return { after := l.goto nnn }
  | .call nnn =>
    let back := l.machine.pc + 2
    return {
      after := { l with machine := { l.machine with stack := back :: l.machine.stack } }.goto nnn
      notes := [.calling nnn back] }
  | .skip condition => do
    if ← l.machine.test inputs.keys condition then
      return { after := l.skip, notes := [.skipping (l.machine.pc + 2)] }
    else return { after := l }
  | .jumpOffset x nnn => return { after := l.goto (← l.machine.offsetTarget x nnn) }
  | .waitKey x =>
    match inputs.keys.first? with
    | some key =>
      return { after := { l with machine := ← l.machine.setV x key }, notes := [.gotKey key] }
    | none => return { after := { l with advances := false } }
  | i => do
    let e ← l.machine.execute inputs i
    return { after := { l with machine := e.machine }, fault := e.fault, notes := e.notes }

def Result.settle (r : Result) : Result :=
  let machine := if r.after.advances then r.after.skip.machine else r.after.machine
  let o := machine.report r.notes r.fault
  ⟨{ r.after with machine := o.machine }, o.fault, o.notes⟩

def perform (l : Latched) (inputs : Inputs) (i : Instruction) : Except Crash Result := do
  return (← { l with advances := true }.execute inputs i).settle

def step (l : Latched) (inputs : Inputs) : Except Crash Result :=
  match l.machine.fetch with
  | .error fault =>
    let o := l.machine.pass fault
    .ok ⟨{ l with machine := o.machine }, o.fault, o.notes⟩
  | .ok (opcode, i) => do
    let done ← l.perform inputs i
    return { done with notes := .executing l.machine.pc opcode i :: done.notes }

def ofEffect (e : Effect) : Result :=
  let after : Latched :=
    match e.flow with
    | .next => ⟨e.machine, true⟩
    | .skip => skip ⟨e.machine, true⟩
    | .again => ⟨e.machine, false⟩
    | .goto target => goto ⟨e.machine, true⟩ target
  ⟨after, e.fault, e.notes⟩

theorem outcome_settle_ofEffect (e : Effect) : (ofEffect e).settle.outcome = e.settle := by
  obtain ⟨machine, flow, fault, notes⟩ := e
  have reported (m : Machine) : (⟨(m.report notes fault).machine, (m.report notes fault).fault,
      (m.report notes fault).notes⟩ : Outcome) = m.report notes fault := rfl
  cases flow with
  | next => exact reported _
  | again => exact reported _
  | goto target => exact reported _
  | skip =>
    -- to leave out a word and then to move on is to move on by two words
    have twice : machine.pc + 2 + 2 = machine.pc + 4 := UInt16.add_assoc ..
    simp only [ofEffect, Result.settle, Result.outcome, skip, Effect.settle, Flow.follow, if_true, twice]

variable {m : Machine} {i : Instruction} (inputs : Inputs) (advances : Bool)

theorem execute_of_not_steers (l : Latched) (h : ¬ i.Steers) : l.execute inputs i = do
    let e ← l.machine.execute inputs i
    return { after := { l with machine := e.machine }, fault := e.fault, notes := e.notes } := by
  cases i with
  | ret | jump nnn | call nnn | skip c | jumpOffset x nnn | waitKey x => exact absurd trivial h
  | _ => rfl

theorem execute_eq (range : i.Executable) :
    execute ⟨m, true⟩ inputs i = (m.execute inputs i).map ofEffect := by
  by_cases steers : i.Steers
  · cases i with
    | ret =>
      simp only [execute, Machine.execute]
      cases m.stack <;> rfl
    | jump nnn | call nnn => rfl
    | skip c =>
      simp only [execute, Machine.execute]
      cases m.test inputs.keys c with
      | error crash => rfl
      | ok holds => cases holds <;> rfl
    | jumpOffset x nnn =>
      simp only [execute, Machine.execute]
      cases m.offsetTarget x nnn <;> rfl
    | waitKey x =>
      simp only [execute, Machine.execute]
      cases inputs.keys.first? with
      | none => rfl
      | some key =>
        dsimp only
        cases m.setV x key <;> rfl
    | _ => exact steers.elim
  · rw [execute_of_not_steers inputs _ steers]
    cases executed : m.execute inputs i with
    | error crash => rfl
    | ok e =>
      have flow := Machine.flow_execute_of_not_steers range steers executed
      simp only [bind, Except.bind, pure, Except.pure, Except.map, ofEffect, flow]

theorem perform_eq (range : i.Executable) :
    (perform ⟨m, advances⟩ inputs i).map Result.outcome = m.perform inputs i := by
  rw [perform, execute_eq inputs range, Machine.perform]
  cases m.execute inputs i with
  | error crash => rfl
  | ok e => exact congrArg Except.ok (outcome_settle_ofEffect e)

theorem step_eq (m : Machine) : (step ⟨m, advances⟩ inputs).map Result.outcome = .ok (m.step inputs) := by
  rw [← Machine.cycle_eq, step, Machine.cycle]
  cases fetched : m.fetch with
  | error fault => rfl
  | ok found =>
    obtain ⟨opcode, i⟩ := found
    have range := (Machine.inRange_of_fetch fetched).executable
    dsimp only
    rw [← perform_eq inputs advances range]
    cases perform ⟨m, advances⟩ inputs i <;> rfl

end Latched

namespace Machine

/-- The program counter after an instruction is the one that the instruction decides on, if it does, and the
next word otherwise, also after every fault and where there is no instruction. A machine with a latch
comes to the same, whichever latch is left behind before. -/
theorem counter_follows_instructions (m : Machine) (inputs : Inputs) :
    (∀ i : Instruction, i.Executable → ∃ o, m.perform inputs i = .ok o ∧
      o.machine.pc = m.successor inputs i ∧
      (o.fault ≠ none → o.machine.pc = m.pc + 2) ∧
      ∀ advances, (Latched.perform ⟨m, advances⟩ inputs i).map Latched.Result.outcome = .ok o) ∧
    ((m.step inputs).machine.pc = match m.fetch with
      | .error _ => m.pc + 2
      | .ok (_, i) => m.successor inputs i) ∧
    ((m.step inputs).fault ≠ none → (m.step inputs).machine.pc = m.pc + 2) ∧
    ∀ advances, (Latched.step ⟨m, advances⟩ inputs).map Latched.Result.outcome = .ok (m.step inputs) := by
  obtain ⟨pc, passed⟩ := m.pc_step inputs
  refine ⟨fun i range => ?_, pc, passed, fun advances => Latched.step_eq inputs advances m⟩
  obtain ⟨o, performed, pc, passed⟩ := pc_perform (m := m) inputs range
  refine ⟨o, performed, pc, passed, fun advances => ?_⟩
  rw [Latched.perform_eq inputs advances range, performed]

def outmost : Machine := { initial {} with pc := 0xFFFE }

theorem counter_follows_instructions_outmost :
    (∃ o, outmost.perform {} (.skip (.equalsConst 0 0)) = .ok o ∧ o.machine.pc = 2 ∧
      (Latched.perform ⟨outmost, false⟩ {} (.skip (.equalsConst 0 0))).map Latched.Result.outcome =
        .ok o) ∧
    (∃ o, outmost.perform {} (.waitKey 0) = .ok o ∧ o.machine.pc = 0xFFFE) ∧
    (outmost.step {}).machine.pc = 0 := by
  obtain ⟨performs, steps, -⟩ := counter_follows_instructions outmost {}
  obtain ⟨o, performed, pc, -, latched⟩ :=
    performs (.skip (.equalsConst 0 0)) (show (0 : UInt8) < 16 by decide)
  obtain ⟨o', performed', pc', -⟩ := performs (.waitKey 0) (show (0 : UInt8) < 16 by decide)
  have comesRound : outmost.successor {} (.skip (.equalsConst 0 0)) = 2 := by decide
  have stays : outmost.successor {} (.waitKey 0) = 0xFFFE := by decide
  exact ⟨⟨o, performed, pc.trans comesRound, latched false⟩, ⟨o', performed', pc'.trans stays⟩, steps⟩

end Machine

end Chip8
