import Chip8.Proofs.Instruction.Patterns
import Chip8.Proofs.Machine.Counter
import Chip8.Proofs.Machine.Pulses

namespace Chip8

namespace Machine

variable {m : Machine} {w : Word} {x : UInt8} {inputs : Inputs} {ps : List Pulse}

theorem step_waitKey_of_released (fetched : m.fetch = .ok (w, .waitKey x))
    (unheld : inputs.keys = .released) :
    m.step inputs = ⟨m, none, [.executing m.pc w (.waitKey x)]⟩ := by
  have executed : m.execute inputs (.waitKey x) = .ok { machine := m, flow := .again } := by
    rw [execute, unheld, Keypad.first?_eq_none_iff.2 rfl]
    rfl
  exact step_of_perform inputs fetched (perform_of_execute inputs executed)

def Unanswered (ps : List Pulse) : Prop :=
  ∀ inputs, .step inputs ∈ ps → ∀ key, inputs.keys.isHeld key = false

theorem pulses_unanswered (fetched : m.fetch = .ok (w, .waitKey x)) (unanswered : Unanswered ps) :
    ∃ delay sound, m.pulses ps = m.timed delay sound ∧
      delay.toNat = m.delay.toNat - Pulse.ticks ps ∧
      sound.toNat = m.sound.toNat - Pulse.ticks ps := by
  induction ps generalizing m with
  | nil => exact ⟨m.delay, m.sound, rfl, rfl, rfl⟩
  | cons p ps ih =>
    have rest : Unanswered ps := fun inputs later => unanswered inputs (List.mem_cons_of_mem p later)
    cases p with
    | step inputs =>
      have unheld := inputs.keys.eq_released (unanswered inputs List.mem_cons_self)
      have still : m.pulse (.step inputs) = m := by
        rw [pulse, step_waitKey_of_released fetched unheld]
      rw [pulses, List.foldl_cons, still]
      exact ih fetched rest
    | tick =>
      obtain ⟨delay, sound, waited, delayed, sounded⟩ := ih (m := m.tick) fetched rest
      rw [show Pulse.ticks (.tick :: ps) = Pulse.ticks ps + 1 from List.countP_cons_of_pos rfl,
        Nat.add_comm, ← Nat.sub_sub, ← Nat.sub_sub, ← toNat_countdown, ← toNat_countdown]
      exact ⟨delay, sound, waited, delayed, sounded⟩

theorem fault_unanswered (fetched : m.fetch = .ok (w, .waitKey x)) {before later : List Pulse}
    (unanswered : Unanswered (before ++ .step inputs :: later)) :
    ((m.pulses before).step inputs).fault = none := by
  have earlier : Unanswered before := fun i h => unanswered i (List.mem_append_left _ h)
  have unheld : inputs.keys = .released := inputs.keys.eq_released
    (unanswered inputs (List.mem_append_right _ List.mem_cons_self))
  obtain ⟨delay, sound, waited, -⟩ := pulses_unanswered fetched earlier
  rw [step_waitKey_of_released ((congrArg fetch waited).trans fetched) unheld]

theorem step_waitKey_of_held (fetched : m.fetch = .ok (w, .waitKey x)) {key : UInt8}
    (first : inputs.keys.first? = some key) :
    (m.step inputs).fault = none ∧
    (∃ registers, (m.step inputs).machine = { m with registers, pc := m.pc + 2 }) ∧
    (m.step inputs).machine.register x = key ∧
    ∀ k < 16, k ≠ x → (m.step inputs).machine.register k = m.register k := by
  have hx : x < 16 := inRange_of_fetch fetched
  have executed : m.execute inputs (.waitKey x) = .ok
      { machine := { m with registers := m.registers.set x.toNat key hx }, notes := [.gotKey key] } := by
    rw [execute, first]
    simp only [setV_of_lt hx, bind, Except.bind]
    rfl
  rw [step_of_perform inputs fetched (perform_of_execute inputs executed)]
  refine ⟨rfl, ⟨_, rfl⟩, (register_set hx hx).trans (if_pos rfl), fun k hk other => ?_⟩
  exact (register_set hx hk).trans (if_neg other)

theorem perform_skip (m : Machine) (inputs : Inputs) {c : Condition} (range : c.InRange) : ∃ notes,
    m.perform inputs (.skip c) =
      .ok ⟨{ m with pc := if m.Holds inputs.keys c then m.pc + 4 else m.pc + 2 }, none, notes⟩ := by
  rw [perform, execute, test_eq range]
  by_cases holds : m.Holds inputs.keys c
  · rw [if_pos holds, decide_eq_true holds]
    exact ⟨_, rfl⟩
  · rw [if_neg holds, decide_eq_false holds]
    exact ⟨_, rfl⟩

theorem fetch_waitKey (hx : x < 16)
    (read : m.memory.readWord m.pc.toNat = .ok (Instruction.wordConst 0xF x 0x0A)) :
    m.fetch = .ok (Instruction.wordConst 0xF x 0x0A, .waitKey x) := by
  have decoded : Instruction.decode (Instruction.wordConst 0xF x 0x0A) = some (.waitKey x) :=
    Instruction.decode_encode (i := .waitKey x) hx
  rw [fetch, read]
  dsimp only
  rw [decoded]

/-- FX0A waits: as long as no key is held, no step faults, and however many steps there are and however
the timers tick in between, the machine stays as it is but for its timers. The next step on which keys are
held takes the least key that was last pressed. For EX9E and EXA1, too, a key is held if and only if it was
last pressed. It makes no difference how the keypad is looked at. -/
theorem waiting_lasts_until_key (ps : List Pulse) (ws : List Keypad.Write) (v : Keypad.View)
    (random : UInt8) (hx : x < 16)
    (read : m.memory.readWord m.pc.toNat = .ok (Instruction.wordConst 0xF x 0x0A))
    (unanswered : Unanswered ps) :
    let now := m.pulses ps
    let inputs : Inputs := ⟨v.seen (.after ws), random⟩
    (∃ delay sound, now = { m with delay, sound } ∧
      delay.toNat = m.delay.toNat - Pulse.ticks ps ∧ sound.toNat = m.sound.toNat - Pulse.ticks ps) ∧
    (∀ before unheld later, ps = before ++ .step unheld :: later →
      ((m.pulses before).step unheld).fault = none) ∧
    (∀ key, inputs.keys.isHeld key = true ↔ Keypad.PressedLast ws key) ∧
    (∀ held, inputs.keys.isHeld held = true → ∃ key, Keypad.PressedLast ws key ∧
      (∀ k < key, ¬ Keypad.PressedLast ws k) ∧
      (now.step inputs).fault = none ∧
      (∃ registers, (now.step inputs).machine = { now with registers, pc := m.pc + 2 }) ∧
      (now.step inputs).machine.register x = key ∧
      ∀ k < 16, k ≠ x → (now.step inputs).machine.register k = m.register k) ∧
    ∀ (asked : Machine) y, y < 16 →
      (∃ notes, asked.perform inputs (.skip (.keyHeld y)) = .ok ⟨{ asked with
        pc := if Keypad.PressedLast ws (asked.register y) then asked.pc + 4 else asked.pc + 2 },
        none, notes⟩) ∧
      ∃ notes, asked.perform inputs (.skip (.keyReleased y)) = .ok ⟨{ asked with
        pc := if Keypad.PressedLast ws (asked.register y) then asked.pc + 2 else asked.pc + 4 },
        none, notes⟩ := by
  intro now inputs
  have fetched := fetch_waitKey hx read
  have keys : inputs.keys = .after ws := v.seen_eq _
  have pressed (key : UInt8) : inputs.keys.isHeld key = true ↔ Keypad.PressedLast ws key :=
    keys ▸ Keypad.isHeld_after ws key
  have waited := pulses_unanswered fetched unanswered
  refine ⟨waited, ?_, pressed, fun held down => ?_, fun asked y hy => ⟨?_, ?_⟩⟩
  · rintro before unheld later rfl
    exact fault_unanswered fetched unanswered
  · obtain ⟨key, first⟩ := Keypad.exists_first? down
    obtain ⟨delay, sound, waited, -⟩ := waited
    have pc : now.pc = m.pc := (congrArg Machine.pc waited :)
    have registers : now.registers = m.registers := (congrArg Machine.registers waited :)
    obtain ⟨fault, kept, taken, others⟩ :=
      step_waitKey_of_held ((congrArg fetch waited).trans fetched) first
    obtain ⟨last, least⟩ := Keypad.first?_after.1 (keys ▸ first)
    refine ⟨key, last, least, fault, pc ▸ kept, taken, fun k hk other => ?_⟩
    rw [others k hk other, register, register, registers]
  · obtain ⟨notes, performed⟩ := asked.perform_skip inputs (c := .keyHeld y) hy
    have holds : asked.Holds inputs.keys (.keyHeld y) ↔ _ := pressed (asked.register y)
    exact ⟨notes, performed.trans (by simp only [holds])⟩
  · obtain ⟨notes, performed⟩ := asked.perform_skip inputs (c := .keyReleased y) hy
    have holds : asked.Holds inputs.keys (.keyReleased y) ↔ ¬ Keypad.PressedLast ws _ :=
      Bool.eq_false_iff.trans (not_congr (pressed (asked.register y)))
    exact ⟨notes, performed.trans (by simp only [holds, ite_not])⟩

def expectant : Machine := { ((initial {}).load #[0xF3, 0x0A]).machine with delay := 2 }

theorem waiting_lasts_until_key_expectant :
    let ps := [.step {}, .tick, .step {}]
    let ws := [.press 0x1F, .press 5, .press 9, .release 5, .press 12]
    let inputs : Inputs := ⟨(Keypad.View.shared (.borrowed .direct)).seen (.after ws), 0⟩
    (3 : UInt8) < 16 ∧ Unanswered ps ∧
    expectant.memory.readWord expectant.pc.toNat = .ok (Instruction.wordConst 0xF 3 0x0A) ∧
    (expectant.pulses ps).delay.toNat = 1 ∧
    ((expectant.pulses ps).step inputs).machine.register 3 = 9 ∧
    ((expectant.pulses ps).step inputs).machine.pc = 0x202 := by
  intro ps ws inputs
  have small : (3 : UInt8) < 16 := by decide
  have unanswered : Unanswered ps := by
    intro inputs mem key
    have unheld : inputs = {} := by simpa [ps] using mem
    rw [unheld]
    exact Keypad.isHeld_released key
  have holds : expectant.memory.Holds #[0xF3, 0x0A] := holds_load (by decide) {}
  have read : expectant.memory.readWord expectant.pc.toNat =
      .ok (Instruction.wordConst 0xF 3 0x0A) := by
    rw [Memory.readWord, holds _ (by decide), holds _ (by decide)]
    rfl
  obtain ⟨⟨delay, sound, waited, delayed, -⟩, -, -, taken, -⟩ := waiting_lasts_until_key ps ws
    (.shared (.borrowed .direct)) 0 small read unanswered
  obtain ⟨key, last, least, -, ⟨registers, kept⟩, got, -⟩ := taken 9 (by decide)
  have nine : key = 9 := by
    have below : ∀ k < 9, ¬ Keypad.PressedLast ws (UInt8.ofNat k) := by decide
    refine UInt8.le_antisymm (UInt8.not_lt.1 fun more => least 9 more (by decide)) ?_
    exact UInt8.not_lt.1 fun less => below key.toNat less (by rwa [UInt8.ofNat_toNat])
  refine ⟨small, unanswered, read, ?_, got.trans nine, by rw [kept]; rfl⟩
  rw [waited]
  exact delayed

end Machine

end Chip8
