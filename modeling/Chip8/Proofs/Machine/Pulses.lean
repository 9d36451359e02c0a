import Chip8.Proofs.Machine.Alterations
import Mathlib.Logic.Function.Iterate
/-!
# Steps and ticks

A machine steps and its timers tick. As long as no instruction looks at a timer the two streams do not
meet: it does not matter when the ticks come between the steps, but only how many there are.
-/

namespace Chip8

inductive Pulse : Type
  | step : Inputs → Pulse
  | tick : Pulse

namespace Pulse

def inputs? : Pulse → Option Inputs
  | .step inputs => some inputs
  | .tick => none

def steps (ps : List Pulse) : List Inputs := ps.filterMap inputs?

def ticks (ps : List Pulse) : Nat := ps.countP (·.inputs?.isNone)

end Pulse

namespace Machine

def pulse (m : Machine) : Pulse → Machine
  | .step inputs => (m.step inputs).machine
  | .tick => m.tick

def pulses (m : Machine) (ps : List Pulse) : Machine := ps.foldl pulse m

/-- Each instruction that is executed meanwhile has the property, on the machine as it is then. -/
def Throughout (P : Machine → Instruction → Prop) : Machine → List Pulse → Prop
  | _, [] => True
  | m, .step inputs :: ps =>
    (∀ w i, m.fetch = .ok (w, i) → P m i) ∧ Throughout P (m.step inputs).machine ps
  | m, .tick :: ps => Throughout P m.tick ps

def Timeless : Machine → List Pulse → Prop := Throughout fun _ i => i.Untimed

def timed (m : Machine) (delay sound : UInt8) : Machine := { m with delay, sound }

def countdown (t : UInt8) : UInt8 := if t = 0 then 0 else t - 1

variable {m : Machine} {delay sound : UInt8} {inputs : Inputs} {ps qs : List Pulse}

theorem pulses_nil (m : Machine) : m.pulses [] = m := rfl

theorem pulses_concat (ps : List Pulse) (p : Pulse) :
    m.pulses (ps ++ [p]) = (m.pulses ps).pulse p := by
  rw [pulses, List.foldl_append]
  rfl

theorem step_timed (h : ∀ w i, m.fetch = .ok (w, i) → i.Untimed) (delay sound : UInt8) :
    ((m.timed delay sound).step inputs).machine = (m.step inputs).machine.timed delay sound := by
  have altered := step_alter (m := m)
    (a := { delay := fun _ => delay, sound := fun _ => sound }) inputs rfl
    fun w i fetched => ⟨.inl (h w i fetched), m.indifferent_self i⟩
  exact congrArg Outcome.machine altered

theorem timeless_timed (delay sound : UInt8) :
    (m.timed delay sound).Timeless ps ↔ m.Timeless ps := by
  induction ps generalizing m delay sound with
  | nil => exact Iff.rfl
  | cons p ps ih =>
    cases p with
    | step inputs =>
      apply and_congr_right
      intro (h : ∀ w i, m.fetch = .ok (w, i) → i.Untimed)
      rw [step_timed h]
      exact ih delay sound
    | tick =>
      -- the other values count down as well, and are other values again
      exact ih (m := m.tick) (m.timed delay sound).tick.delay (m.timed delay sound).tick.sound

theorem timeless_tick : m.tick.Timeless ps ↔ m.Timeless ps :=
  timeless_timed m.tick.delay m.tick.sound

theorem step_tick (h : ∀ w i, m.fetch = .ok (w, i) → i.Untimed) :
    (m.tick.step inputs).machine = (m.step inputs).machine.tick := by
  have kept : (m.step inputs).machine = (m.step inputs).machine.timed m.delay m.sound :=
    step_timed h m.delay m.sound
  have ticked : (m.tick.step inputs).machine =
    (m.step inputs).machine.timed m.tick.delay m.tick.sound := step_timed h _ _
  rw [ticked, kept]
  rfl

theorem pulses_tick (h : m.Timeless ps) : m.tick.pulses ps = (m.pulses ps).tick := by
  induction ps generalizing m with
  | nil => rfl
  | cons p ps ih =>
    cases p with
    | step inputs =>
      have next : m.tick.pulse (.step inputs) = (m.step inputs).machine.tick := step_tick h.1
      rw [pulses, List.foldl_cons, next]
      exact ih h.2
    | tick => exact ih h

theorem timeless_steps : m.Timeless ((Pulse.steps ps).map .step) ↔ m.Timeless ps := by
  induction ps generalizing m with
  | nil => exact Iff.rfl
  | cons p ps ih =>
    cases p with
    | step inputs => exact and_congr_right fun _ => ih
    | tick => exact ih.trans timeless_tick.symm

theorem pulses_eq_iterate (h : m.Timeless ps) :
    m.pulses ps = tick^[Pulse.ticks ps] (m.pulses ((Pulse.steps ps).map .step)) := by
  induction ps generalizing m with
  | nil => rfl
  | cons p ps ih =>
    cases p with
    | step inputs => exact ih h.2
    | tick =>
      have steps : m.Timeless ((Pulse.steps ps).map .step) := timeless_steps.2 (timeless_tick.1 h)
      rw [show Pulse.ticks (.tick :: ps) = Pulse.ticks ps + 1 from List.countP_cons_of_pos rfl]
      exact (ih h).trans (congrArg _ (pulses_tick steps))

theorem toNat_countdown (t : UInt8) : (countdown t).toNat = t.toNat - 1 := by
  rw [countdown]
  split
  · next zero => rw [zero]; rfl
  · next pos =>
    have le : (1 : UInt8) ≤ t := by
      rw [UInt8.le_iff_toNat_le]
      exact Nat.pos_of_ne_zero fun zero => pos (UInt8.toNat_inj.1 zero)
    exact UInt8.toNat_sub_of_le t 1 le

theorem timers_pulses (h : m.Timeless ps) :
    (m.pulses ps).delay.toNat = m.delay.toNat - Pulse.ticks ps ∧
      (m.pulses ps).sound.toNat = m.sound.toNat - Pulse.ticks ps := by
  induction ps generalizing m with
  | nil => exact ⟨rfl, rfl⟩
  | cons p ps ih =>
    cases p with
    | step inputs =>
      have kept : (m.step inputs).machine = (m.step inputs).machine.timed m.delay m.sound :=
        step_timed h.1 m.delay m.sound
      have delay : (m.step inputs).machine.delay = m.delay := (congrArg Machine.delay kept :)
      have sound : (m.step inputs).machine.sound = m.sound := (congrArg Machine.sound kept :)
      rw [← delay, ← sound]
      exact ih h.2
    | tick =>
      have delay : m.tick.delay.toNat = m.delay.toNat - 1 := toNat_countdown m.delay
      have sound : m.tick.sound.toNat = m.sound.toNat - 1 := toNat_countdown m.sound
      have rest := ih (m := m.tick) h
      rw [delay, sound, Nat.sub_sub, Nat.sub_sub, Nat.add_comm 1] at rest
      rw [show Pulse.ticks (.tick :: ps) = Pulse.ticks ps + 1 from List.countP_cons_of_pos rfl]
      exact rest

/-- An instruction that looks at no timer can be executed before a tick or after it. So in a run
without others it does not matter when the ticks come, and both timers count down by as many. -/
theorem ticks_commute_with_steps (m : Machine) :
    (∀ inputs i, i.Executable → i.Untimed → ∃ o, m.perform inputs i = .ok o ∧
      m.tick.perform inputs i = .ok { o with machine := o.machine.tick }) ∧
    ∀ ps, m.Timeless ps →
      (∀ qs, Pulse.steps qs = Pulse.steps ps → Pulse.ticks qs = Pulse.ticks ps →
        m.pulses qs = m.pulses ps) ∧
      (m.pulses ps).delay.toNat = m.delay.toNat - Pulse.ticks ps ∧
      (m.pulses ps).sound.toNat = m.sound.toNat - Pulse.ticks ps := by
  refine ⟨fun inputs i range untimed => ?_, fun ps timeless => ⟨?_, timers_pulses timeless⟩⟩
  · obtain ⟨o, performed⟩ := m.succeeds_perform inputs range
    have ticked := perform_alter (m := m) inputs (a := { delay := countdown, sound := countdown })
      rfl range (.inl untimed) (m.indifferent_self i)
    rw [performed] at ticked
    exact ⟨o, performed, ticked⟩
  · intro qs steps ticks
    have timeless' : m.Timeless qs := timeless_steps.1 (steps ▸ timeless_steps.2 timeless)
    rw [pulses_eq_iterate timeless, pulses_eq_iterate timeless', steps, ticks]

def stub : Machine :=
  { ((initial {}).load #[0xA0, 0x05]).machine with delay := 3, sound := 1 }

theorem ticks_commute_with_steps_stub :
    let ps := [.tick, .step {}, .step {}, .tick]
    let qs := [.step {}, .tick, .tick, .step {}]
    stub.Timeless ps ∧ stub.pulses qs = stub.pulses ps ∧
    (stub.pulses ps).delay.toNat = 1 ∧ (stub.pulses ps).sound.toNat = 0 ∧
    ∃ o, stub.perform {} (.setIndex 5) = .ok o ∧
      stub.tick.perform {} (.setIndex 5) = .ok { o with machine := o.machine.tick } := by
  intro ps qs
  have holds : stub.memory.Holds #[0xA0, 0x05] := holds_load (by decide) {}
  have fetched : stub.fetch = .ok (0xA005, .setIndex 5) := fetch_of_holds holds rfl (by decide)
  obtain ⟨lastFault, stepped⟩ := step_setIndex {} fetched
  have ended : (stub.step {}).machine.fetch = .error (.unknownOpcode 0 0x202) := by
    rw [stepped]
    exact fetch_of_holds (m := { stub with index := 5, pc := stub.pc + 2, lastFault }) (p := 0x202)
      holds rfl (by decide)
  have timeless : stub.Timeless ps := by
    apply timeless_tick.2
    refine ⟨fun w i h => ?_, fun w i h => ?_, trivial⟩
    · cases fetched.symm.trans h
      trivial
    · cases ended.symm.trans h
  have range : (Instruction.setIndex 5).Executable := show (5 : UInt16) < 0x1000 by decide
  obtain ⟨commutes, runs⟩ := ticks_commute_with_steps stub
  obtain ⟨same, delay, sound⟩ := runs ps timeless
  exact ⟨timeless, same qs rfl rfl, delay, sound, commutes {} (.setIndex 5) range trivial⟩

end Machine

end Chip8
