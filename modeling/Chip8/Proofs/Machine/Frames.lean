import Chip8.Proofs.Machine.Blocks
import Chip8.Proofs.Machine.Registers
/-!
# Frames

What an instruction can change. All else in the machine stays as it is, whether the instruction faults
or not.
-/

namespace Chip8

namespace Instruction

def Writes : Instruction → Prop
  | .storeDecimal _ => True
  | .storeRegisters _ => True
  | _ => False

def Paints : Instruction → Prop
  | .clearScreen => True
  | .draw _ _ _ => True
  | _ => False

def Nests : Instruction → Prop
  | .call _ => True
  | .ret => True
  | _ => False

def Aims (dialect : Dialect) : Instruction → Prop
  | .setIndex _ => True
  | .addIndex _ => True
  | .pointGlyph _ => True
  | .storeRegisters _ => dialect.transferMovesIndex = true
  | .loadRegisters _ => dialect.transferMovesIndex = true
  | _ => False

def Sets (k : UInt8) : Instruction → Prop
  | .setConst x _ => k = x
  | .addConst x _ => k = x
  | .arith _ x _ => k = x
  | .random x _ => k = x
  | .readDelay x => k = x
  | .waitKey x => k = x
  | .loadRegisters x => k ≤ x
  | _ => False

end Instruction

def Machine.Flags (m : Machine) : Instruction → Prop
  | .arith op _ _ => op ∈ [.add, .sub, .shiftRight, .subFrom, .shiftLeft]
  | .draw _ _ _ => True
  | .addIndex x => 4095 < m.index.toNat + (m.register x).toNat
  | _ => False

/-- An instruction has left alone what is not its business. The program counter is not meant: it always
moves. By default a part of the machine is simply the one from before. -/
structure Instruction.Spares (i : Instruction) (m m' : Machine) : Prop where
  memory : ¬ i.Writes → m'.memory = m.memory := by exact fun _ => rfl
  registers : ∀ k < 16, ¬ i.Sets k → (k = 15 → ¬ m.Flags i) → m'.register k = m.register k := by
    exact fun _ _ _ _ => rfl
  index : ¬ i.Aims m.dialect → m'.index = m.index := by exact fun _ => rfl
  stack : ¬ i.Nests → m'.stack = m.stack := by exact fun _ => rfl
  delay : (∀ x, i ≠ .setDelay x) → m'.delay = m.delay := by exact fun _ => rfl
  sound : (∀ x, i ≠ .setSound x) → m'.sound = m.sound := by exact fun _ => rfl
  screen : ¬ i.Paints → m'.screen = m.screen := by exact fun _ => rfl
  redraw : ¬ i.Paints → m'.redraw = m.redraw := by exact fun _ => rfl
  dialect : m'.dialect = m.dialect := by exact rfl

namespace Machine

variable {m m' : Machine} {inputs : Inputs} {i : Instruction} {e : Effect}

theorem setV_frame {x value : UInt8} (h : m.setV x value = .ok m') :
    ∃ registers, m' = { m with registers } ∧
      ∀ k < 16, k ≠ x → m'.register k = m.register k := by
  have hx := lt_of_setV h
  rw [setV_of_lt hx] at h
  cases h
  refine ⟨_, rfl, fun k hk other => ?_⟩
  rw [register_set hx hk, if_neg other]

theorem flags_of_flag? {op : Arith} {x y v s : UInt8} {flag : Bool} (h : op.flag? v s = some flag) :
    m.Flags (.arith op x y) := by
  cases op with
  | copy | or | and | xor => cases h
  | _ => simp [Flags]

theorem arith_frame {op : Arith} {x y : UInt8} (h : m.arith op x y = .ok m') :
    ∃ registers, m' = { m with registers } ∧ ∀ k < 16, k ≠ x →
      (k = 15 → ¬ m.Flags (.arith op x y)) → m'.register k = m.register k := by
  simp only [arith, bind_eq_ok] at h
  obtain ⟨s, -, v, -, done, set, h⟩ := h
  obtain ⟨registers, rfl, kept⟩ := setV_frame set
  cases h
  split
  · next flag flagged =>
    refine ⟨_, rfl, fun k hk other quiet => ?_⟩
    have low : k ≠ 15 := fun last => quiet last (flags_of_flag? flagged)
    rw [register_setFlag_of_ne hk low, kept k hk other]
  · exact ⟨registers, rfl, fun k hk other _ => kept k hk other⟩

theorem addIndex_frame {x : UInt8} (h : m.addIndex x = .ok m') :
    ∃ registers index, m' = { m with registers, index } ∧ ∀ k < 16,
      (k = 15 → ¬ m.Flags (.addIndex x)) → m'.register k = m.register k := by
  simp only [addIndex, bind_eq_ok] at h
  obtain ⟨v, found, h⟩ := h
  split at h
  · cases h
    exact ⟨m.registers, _, rfl, fun _ _ _ => rfl⟩
  · next beyond =>
    cases h
    refine ⟨_, _, rfl, fun k hk quiet => register_setFlag_of_ne hk fun last => quiet last ?_⟩
    have beyond : ¬ m.index.toNat + v.toNat < 4096 := beyond
    rw [Flags, register_of_getV found]
    omega

theorem pointGlyph_frame {x : UInt8} (h : m.pointGlyph x = .ok m') :
    ∃ digit < 16, m' = { m with index := UInt16.ofNat (digit * 5) } := by
  rw [pointGlyph_eq] at h
  obtain ⟨v, -, h⟩ := bind_eq_ok.1 h
  cases h
  exact ⟨_, Nat.mod_lt _ (by decide), rfl⟩

theorem draw_frame {x y n : UInt8} {fault : Option Fault} (h : m.draw x y n = .ok (m', fault)) :
    ∃ registers screen, m' = { m with registers, screen, redraw := true } ∧
      ∀ k < 16, k ≠ 15 → m'.register k = m.register k := by
  simp only [draw, bind_eq_ok] at h
  obtain ⟨vx, -, vy, -, canvas, -, h⟩ := h
  cases h
  exact ⟨_, _, rfl, fun k hk other => register_setFlag_of_ne hk other⟩

theorem register_loading_of_lt {x k : UInt8} (hk : k < 16) (above : x < k) :
    (m.loading (x.toNat + 1)).register k = m.register k := by
  have hk : k.toNat < 16 := hk
  have above : x.toNat < k.toNat := above
  rw [register_of_lt hk, register_of_lt hk]
  exact getElem_loaded_of_le hk fun turn => by omega

theorem execute_frame (range : i.Executable) (h : m.execute inputs i = .ok e) :
    i.Spares m e.machine ∧ e.machine.pc = m.pc := by
  cases i with
  | jump nnn =>
    cases h
    exact ⟨{}, rfl⟩
  | clearScreen =>
    cases h
    exact ⟨{ screen := absurd trivial, redraw := absurd trivial }, rfl⟩
  | setIndex nnn =>
    cases h
    exact ⟨{ index := absurd trivial }, rfl⟩
  | call nnn =>
    cases h
    exact ⟨{ stack := absurd trivial }, rfl⟩
  | ret =>
    simp only [execute] at h
    split at h
    · cases h
      exact ⟨{ stack := absurd trivial }, rfl⟩
    · cases h
      exact ⟨{}, rfl⟩
  | skip c =>
    obtain ⟨holds, -, h⟩ := bind_eq_ok.1 h
    split at h
    · cases h
      exact ⟨{}, rfl⟩
    · cases h
      exact ⟨{}, rfl⟩
  | setConst x nn | random x nn | readDelay x =>
    obtain ⟨done, set, h⟩ := bind_eq_ok.1 h
    obtain ⟨registers, rfl, kept⟩ := setV_frame set
    cases h
    exact ⟨{ registers := fun k hk other _ => kept k hk other }, rfl⟩
  | addConst x nn =>
    obtain ⟨v, -, h⟩ := bind_eq_ok.1 h
    obtain ⟨done, set, h⟩ := bind_eq_ok.1 h
    obtain ⟨registers, rfl, kept⟩ := setV_frame set
    cases h
    exact ⟨{ registers := fun k hk other _ => kept k hk other }, rfl⟩
  | arith op x y =>
    obtain ⟨done, computed, h⟩ := bind_eq_ok.1 h
    obtain ⟨registers, rfl, kept⟩ := arith_frame computed
    cases h
    exact ⟨{ registers := kept }, rfl⟩
  | jumpOffset x nnn =>
    obtain ⟨target, -, h⟩ := bind_eq_ok.1 h
    cases h
    exact ⟨{}, rfl⟩
  | setDelay x =>
    obtain ⟨value, -, h⟩ := bind_eq_ok.1 h
    cases h
    exact ⟨{ delay := fun other => absurd rfl (other x) }, rfl⟩
  | setSound x =>
    obtain ⟨value, -, h⟩ := bind_eq_ok.1 h
    cases h
    exact ⟨{ sound := fun other => absurd rfl (other x) }, rfl⟩
  | pointGlyph x =>
    obtain ⟨done, pointed, h⟩ := bind_eq_ok.1 h
    obtain ⟨digit, -, rfl⟩ := pointGlyph_frame pointed
    cases h
    exact ⟨{ index := absurd trivial }, rfl⟩
  | draw x y n =>
    obtain ⟨⟨done, fault⟩, drawn, h⟩ := bind_eq_ok.1 h
    obtain ⟨registers, screen, rfl, kept⟩ := draw_frame drawn
    cases h
    exact ⟨{
      registers := fun k hk _ quiet => kept k hk fun last => quiet last trivial
      screen := absurd trivial
      redraw := absurd trivial }, rfl⟩
  | waitKey x =>
    simp only [execute] at h
    split at h
    · obtain ⟨done, set, h⟩ := bind_eq_ok.1 h
      obtain ⟨registers, rfl, kept⟩ := setV_frame set
      cases h
      exact ⟨{ registers := fun k hk other _ => kept k hk other }, rfl⟩
    · cases h
      exact ⟨{}, rfl⟩
  | addIndex x =>
    obtain ⟨done, added, h⟩ := bind_eq_ok.1 h
    obtain ⟨registers, index, rfl, kept⟩ := addIndex_frame added
    cases h
    exact ⟨{ registers := fun k hk _ quiet => kept k hk quiet, index := absurd trivial }, rfl⟩
  | storeDecimal x =>
    obtain ⟨v, -, h⟩ := bind_eq_ok.1 h
    split at h
    · cases h
      exact ⟨{ memory := absurd trivial }, rfl⟩
    · cases h
      exact ⟨{}, rfl⟩
  | storeRegisters x =>
    simp only [execute, storeRegisters_eq range] at h
    cases h
    exact ⟨{
      memory := absurd trivial
      index := fun stays => indexAfter_of_stays (Bool.eq_false_iff.2 stays) _ }, rfl⟩
  | loadRegisters x =>
    simp only [execute, loadRegisters_eq range] at h
    cases h
    exact ⟨{
      registers := fun k hk above _ => register_loading_of_lt hk (UInt8.not_le.1 above)
      index := fun stays => indexAfter_of_stays (Bool.eq_false_iff.2 stays) _ }, rfl⟩

theorem execute_spares (range : i.Executable) (h : m.execute inputs i = .ok e) :
    i.Spares m e.machine := (execute_frame range h).1

theorem pc_execute (range : i.Executable) (h : m.execute inputs i = .ok e) :
    e.machine.pc = m.pc := (execute_frame range h).2

theorem spares_settle (h : i.Spares m e.machine) : i.Spares m e.settle.machine := by
  obtain ⟨lastFault, settled⟩ := settle_machine e
  rw [settled]
  exact { h with }

theorem step_spares {w : Word} (fetched : m.fetch = .ok (w, i)) :
    i.Spares m (m.step inputs).machine := by
  have range := (inRange_of_fetch fetched).executable
  obtain ⟨e, executed⟩ := m.succeeds_execute inputs range
  rw [step_of_execute inputs fetched executed]
  exact spares_settle (execute_spares range executed)

theorem stack_execute_call {nnn : UInt16} (h : m.execute inputs (.call nnn) = .ok e) :
    e.machine.stack = (m.pc + 2) :: m.stack := by
  cases h
  rfl

theorem stack_execute_ret (h : m.execute inputs .ret = .ok e) : e.machine.stack = m.stack.tail := by
  simp only [execute] at h
  split at h
  · next called =>
    cases h
    rw [called]
    rfl
  · next empty =>
    cases h
    rw [empty]
    rfl

/-- Whether it faults or not, an instruction changes nothing but what is its business: a call pushes one
address on the stack and a return pops one, and all else that an instruction does not name it spares. -/
theorem instructions_spare_the_rest (m : Machine) (inputs : Inputs) {i : Instruction}
    (range : i.Executable) : ∃ o, m.perform inputs i = .ok o ∧ i.Spares m o.machine ∧
      (∀ nnn, i = .call nnn → o.machine.stack = (m.pc + 2) :: m.stack) ∧
      (i = .ret → o.machine.stack = m.stack.tail) := by
  obtain ⟨e, executed⟩ := m.succeeds_execute inputs range
  obtain ⟨lastFault, settled⟩ := settle_machine e
  refine ⟨e.settle, perform_of_execute inputs executed, spares_settle (execute_spares range executed),
    ?_, ?_⟩
  · rintro nnn rfl
    rw [settled]
    exact stack_execute_call executed
  · rintro rfl
    rw [settled]
    exact stack_execute_ret executed

theorem instructions_spare_the_rest_brimming :
    ∃ o, brimming.perform {} (.loadRegisters 1) = .ok o ∧ o.machine.memory = brimming.memory ∧
      o.machine.register 2 = 7 ∧ o.machine.register 15 = 7 ∧ o.machine.stack = [] ∧
      o.machine.dialect = { transferMovesIndex := true } := by
  obtain ⟨o, performed, spares, -⟩ := instructions_spare_the_rest brimming {} (i := .loadRegisters 1)
    (show (1 : UInt8) < 16 by decide)
  have above (k : UInt8) (h : ¬ k ≤ 1) : ¬ (Instruction.loadRegisters 1).Sets k := h
  exact ⟨o, performed, spares.memory id, spares.registers 2 (by decide) (above 2 (by decide)) (fun _ => id),
    spares.registers 15 (by decide) (above 15 (by decide)) (fun _ => id), spares.stack id, spares.dialect⟩

end Machine

end Chip8
