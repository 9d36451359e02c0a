import Chip8.Proofs.Keypad
import Chip8.Proofs.Machine.Frames
import Chip8.Proofs.Machine.Mishaps

namespace Chip8

def Instruction.Steers : Instruction → Prop
  | .ret => True
  | .jump _ => True
  | .call _ => True
  | .skip _ => True
  | .jumpOffset _ _ => True
  | .waitKey _ => True
  | _ => False

namespace Machine

def Holds (m : Machine) (keys : Keypad) : Condition → Prop
  | .equalsConst x nn => m.register x = nn
  | .differsConst x nn => m.register x ≠ nn
  | .equalsRegister x y => m.register x = m.register y
  | .differsRegister x y => m.register x ≠ m.register y
  | .keyHeld x => keys.isHeld (m.register x) = true
  | .keyReleased x => keys.isHeld (m.register x) = false

instance (m : Machine) (keys : Keypad) : (c : Condition) → Decidable (m.Holds keys c)
  | .equalsConst _ _ => inferInstanceAs (Decidable (_ = _))
  | .differsConst _ _ => inferInstanceAs (Decidable (_ ≠ _))
  | .equalsRegister _ _ => inferInstanceAs (Decidable (_ = _))
  | .differsRegister _ _ => inferInstanceAs (Decidable (_ ≠ _))
  | .keyHeld _ => inferInstanceAs (Decidable (_ = _))
  | .keyReleased _ => inferInstanceAs (Decidable (_ = _))

def successor (m : Machine) (inputs : Inputs) : Instruction → UInt16
  | .ret => m.stack.headD (m.pc + 2)
  | .jump nnn => nnn
  | .call nnn => nnn
  | .skip c => if m.Holds inputs.keys c then m.pc + 4 else m.pc + 2
  | .jumpOffset x nnn => nnn + (m.register (if m.dialect.jumpAddsV0 then 0 else x)).toUInt16
  | .waitKey _ => if inputs.keys = .released then m.pc else m.pc + 2
  | _ => m.pc + 2

variable {m : Machine} {inputs : Inputs} {i : Instruction} {e : Effect}

theorem successor_of_not_steers (h : ¬ i.Steers) : m.successor inputs i = m.pc + 2 := by
  cases i with
  | ret | jump nnn | call nnn | skip c | jumpOffset x nnn | waitKey x => exact absurd trivial h
  | _ => rfl

theorem test_eq {c : Condition} (range : c.InRange) :
    m.test inputs.keys c = .ok (decide (m.Holds inputs.keys c)) := by
  cases c with
  | equalsConst x nn | differsConst x nn =>
    rw [test, getV_of_lt range]
    rfl
  | equalsRegister x y | differsRegister x y =>
    rw [test, getV_of_lt range.1, getV_of_lt range.2]
    rfl
  | keyHeld x =>
    rw [test, getV_of_lt range]
    exact congrArg Except.ok Bool.decide_eq_true.symm
  | keyReleased x =>
    rw [test, getV_of_lt range]
    exact congrArg Except.ok Bool.decide_eq_false.symm

theorem offsetTarget_eq {x : UInt8} {nnn : UInt16} (hx : x < 16) (hn : nnn < 0x1000) :
    m.offsetTarget x nnn =
      .ok (nnn + (m.register (if m.dialect.jumpAddsV0 then 0 else x)).toUInt16) := by
  have small : nnn.toNat < 4096 := hn
  have byte := (m.register (if m.dialect.jumpAddsV0 then 0 else x)).toNat_lt
  simp only [offsetTarget, getV_of_lt (offset_lt m.dialect hx), bind, Except.bind]
  rw [if_pos (by omega)]
  rfl

theorem flow_execute_of_not_steers (range : i.Executable) (h : ¬ i.Steers)
    (executed : m.execute inputs i = .ok e) : e.flow = .next := by
  cases i with
  | ret | jump nnn | call nnn | skip c | jumpOffset x nnn | waitKey x => exact absurd trivial h
  | clearScreen | setIndex nnn =>
    cases executed
    rfl
  | setConst x nn | random x nn | readDelay x | arith op x y | draw x y n | setDelay x | setSound x
  | pointGlyph x | addIndex x =>
    obtain ⟨found, -, executed⟩ := bind_eq_ok.1 executed
    cases executed
    rfl
  | addConst x nn =>
    obtain ⟨v, -, executed⟩ := bind_eq_ok.1 executed
    obtain ⟨done, -, executed⟩ := bind_eq_ok.1 executed
    cases executed
    rfl
  | storeDecimal x =>
    obtain ⟨v, -, executed⟩ := bind_eq_ok.1 executed
    split at executed
    · cases executed
      rfl
    · cases executed
      rfl
  | storeRegisters x =>
    simp only [execute, storeRegisters_eq range] at executed
    cases executed
    rfl
  | loadRegisters x =>
    simp only [execute, loadRegisters_eq range] at executed
    cases executed
    rfl

theorem follow_execute (range : i.Executable) (executed : m.execute inputs i = .ok e) :
    e.flow.follow e.machine.pc = m.successor inputs i := by
  -- the program counter is still where it was, so all depends on the flow
  rw [pc_execute range executed]
  by_cases steers : i.Steers
  · cases i with
    | ret =>
      simp only [execute] at executed
      split at executed
      · next target stack called =>
        cases executed
        rw [successor, called]
        rfl
      · next empty =>
        cases executed
        rw [successor, empty]
        rfl
    | jump nnn | call nnn =>
      cases executed
      rfl
    | skip c =>
      simp only [execute, test_eq range, bind, Except.bind, decide_eq_true_eq] at executed
      rw [successor]
      split at executed
      · next holds =>
        cases executed
        rw [if_pos holds]
        rfl
      · next fails =>
        cases executed
        rw [if_neg fails]
        rfl
    | jumpOffset x nnn =>
      simp only [execute, offsetTarget_eq range.1 range.2] at executed
      cases executed
      rfl
    | waitKey x =>
      simp only [execute] at executed
      rw [successor]
      split at executed
      · next key found =>
        obtain ⟨done, -, executed⟩ := bind_eq_ok.1 executed
        cases executed
        have held : inputs.keys ≠ .released := fun none =>
          Option.some_ne_none key (found.symm.trans (Keypad.first?_eq_none_iff.2 none))
        rw [if_neg held]
        rfl
      · next none =>
        cases executed
        rw [if_pos (Keypad.first?_eq_none_iff.1 none)]
        rfl
    | _ => exact steers.elim
  · rw [flow_execute_of_not_steers range steers executed, successor_of_not_steers steers]
    rfl

theorem successor_of_mishap (h : m.mishap i ≠ none) : m.successor inputs i = m.pc + 2 := by
  cases i with
  | ret =>
    rw [successor]
    cases stack : m.stack with
    | nil => rfl
    | cons target stack' => simp [mishap, stack] at h
  | jump nnn | call nnn | skip c | jumpOffset x nnn | waitKey x => exact absurd rfl h
  | _ => rfl

variable (inputs)

theorem pc_perform (range : i.Executable) : ∃ o, m.perform inputs i = .ok o ∧
    o.machine.pc = m.successor inputs i ∧ (o.fault ≠ none → o.machine.pc = m.pc + 2) := by
  obtain ⟨e, executed⟩ := m.succeeds_execute inputs range
  obtain ⟨lastFault, settled⟩ := settle_machine e
  obtain ⟨o, performed, reports⟩ := perform_reports (m := m) inputs range
  have same : o = e.settle := Except.ok.inj (performed.symm.trans (perform_of_execute inputs executed))
  have pc : o.machine.pc = m.successor inputs i := by
    rw [same, settled]
    exact follow_execute range executed
  refine ⟨o, performed, pc, fun failed => ?_⟩
  rw [pc]
  exact successor_of_mishap (reports.fault ▸ failed)

theorem pc_step (m : Machine) :
    ((m.step inputs).machine.pc = match m.fetch with
      | .error _ => m.pc + 2
      | .ok (_, i) => m.successor inputs i) ∧
    ((m.step inputs).fault ≠ none → (m.step inputs).machine.pc = m.pc + 2) := by
  cases fetched : m.fetch with
  | error fault =>
    rw [step_of_fetch_error inputs fetched]
    exact ⟨rfl, fun _ => rfl⟩
  | ok found =>
    obtain ⟨w, i⟩ := found
    obtain ⟨o, performed, pc, passed⟩ := pc_perform (m := m) inputs (inRange_of_fetch fetched).executable
    rw [step_of_perform inputs fetched performed]
    exact ⟨pc, passed⟩

end Machine

end Chip8
