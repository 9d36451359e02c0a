import Chip8.Proofs.Machine.Pulses

namespace Chip8

namespace Machine

def speaking (m : Machine) (d : Dialect) : Machine := { m with dialect := d }

variable {m : Machine} {d : Dialect}

theorem dialect_pulse (m : Machine) (p : Pulse) : (m.pulse p).dialect = m.dialect := by
  cases p with
  | step inputs => exact m.dialect_step inputs
  | tick => rfl

theorem dialect_pulses (m : Machine) (ps : List Pulse) : (m.pulses ps).dialect = m.dialect := by
  induction ps generalizing m with
  | nil => rfl
  | cons p ps ih => exact (ih (m.pulse p)).trans (m.dialect_pulse p)

theorem step_speaking {inputs : Inputs} (h : ∀ w i, m.fetch = .ok (w, i) → m.Indifferent d i) :
    ((m.speaking d).step inputs).machine = (m.step inputs).machine.speaking d := by
  have altered := step_alter (m := m) (a := { dialect := fun _ => d }) inputs rfl
    fun w i fetched => ⟨.inr ⟨rfl, rfl⟩, h w i fetched⟩
  exact congrArg Outcome.machine altered

/-- The dialect of a machine never changes. Two machines that differ in their dialects alone do so after
any steps and ticks, provided that each instruction executed meanwhile is sensitive to no toggle on
which they differ. -/
theorem dialects_stay_apart (m : Machine) (d : Dialect) (ps : List Pulse) :
    (m.pulses ps).dialect = m.dialect ∧
    (m.Throughout (fun m i => m.Indifferent d i) ps →
      (m.speaking d).pulses ps = (m.pulses ps).speaking d) := by
  refine ⟨m.dialect_pulses ps, fun h => ?_⟩
  induction ps generalizing m with
  | nil => rfl
  | cons p ps ih =>
    cases p with
    | step inputs =>
      have next : (m.speaking d).pulse (.step inputs) = (m.step inputs).machine.speaking d :=
        step_speaking h.1
      rw [pulses, List.foldl_cons, next]
      exact ih _ h.2
    | tick => exact ih m.tick h

def cornering : Machine :=
  { ((initial {}).load #[0x80, 0x06, 0xD0, 0x1F]).machine with
    registers := #v[112, 17, 0, 0, 0, 0, 0, 0, 0, 0, 0, 0, 0, 0, 0, 0] }

def contrary : Dialect :=
  { shiftReadsY := true, jumpAddsV0 := true, transferMovesIndex := true, spritesWrap := false }

theorem dialects_stay_apart_cornering :
    let ps := [.step {}, .tick, .step {}]
    (∀ t, contrary.isSet t ≠ cornering.dialect.isSet t) ∧
    cornering.Throughout (fun m i => m.Indifferent contrary i) ps ∧
    (cornering.speaking contrary).pulses ps = (cornering.pulses ps).speaking contrary := by
  intro ps
  have holds : cornering.memory.Holds #[0x80, 0x06, 0xD0, 0x1F] := holds_load (by decide) {}
  have first : cornering.fetch = .ok (0x8006, .arith .shiftRight 0 0) :=
    fetch_of_holds holds rfl (by decide)
  have halved : ∃ lastFault, (cornering.step {}).machine = { cornering with
      registers := #v[56, 17, 0, 0, 0, 0, 0, 0, 0, 0, 0, 0, 0, 0, 0, 0], pc := 0x202, lastFault } := by
    rw [step_of_execute {} first rfl]
    exact settle_machine _
  obtain ⟨lastFault, halved⟩ := halved
  have second : (cornering.step {}).machine.tick.fetch = .ok (0xD01F, .draw 0 1 15) := by
    rw [halved]
    exact fetch_of_holds (m := tick { cornering with
      registers := #v[56, 17, 0, 0, 0, 0, 0, 0, 0, 0, 0, 0, 0, 0, 0, 0], pc := 0x202, lastFault })
      (p := 0x202) holds rfl (by decide)
  have inside : ¬ (cornering.step {}).machine.tick.Sensitive (.draw 0 1 15) .spritesWrap := by
    rw [halved]
    show ¬ (56 < 56 % 64 ∨ 32 < 17 % 32 + 15)
    decide
  have throughout : cornering.Throughout (fun m i => m.Indifferent contrary i) ps := by
    refine ⟨fun w i h => ?_, fun w i h => ?_, trivial⟩
    · cases first.symm.trans h
      intro t _
      cases t with
      | shiftReadsY => exact fun differ => differ rfl
      | _ => exact id
    · cases second.symm.trans h
      intro t _
      cases t with
      | spritesWrap => exact inside
      | _ => exact id
  have different : ∀ t, contrary.isSet t ≠ cornering.dialect.isSet t := by
    intro t
    cases t <;> decide
  exact ⟨different, throughout, (dialects_stay_apart cornering contrary ps).2 throughout⟩

end Machine

end Chip8
