import Chip8.Machine.Run
import Chip8.Proofs.Machine.Frames

namespace Chip8

namespace Machine

/-- The screen is marked, or it is as it was and so is the mark. -/
def Marked (m m' : Machine) : Prop :=
  m'.redraw = true ∨ m'.redraw = m.redraw ∧ m'.screen = m.screen

variable {m m' : Machine} {inputs : Inputs} {i : Instruction} {e : Effect}

theorem Marked.refl (m : Machine) : Marked m m := .inr ⟨rfl, rfl⟩

theorem Marked.trans {m₁ m₂ m₃ : Machine} (h : Marked m₁ m₂) (k : Marked m₂ m₃) :
    Marked m₁ m₃ := by
  rcases k with redraw | ⟨redraw, screen⟩
  · exact .inl redraw
  · rcases h with redraw' | ⟨redraw', screen'⟩
    · exact .inl (redraw.trans redraw')
    · exact .inr ⟨redraw.trans redraw', screen.trans screen'⟩

theorem redraw_of_paints (paints : i.Paints) (h : m.execute inputs i = .ok e) :
    e.machine.redraw = true := by
  cases i with
  | clearScreen =>
    cases h
    rfl
  | draw x y n =>
    obtain ⟨⟨done, fault⟩, drawn, h⟩ := bind_eq_ok.1 h
    obtain ⟨registers, screen, rfl, -⟩ := draw_frame drawn
    cases h
    rfl
  | _ => exact paints.elim

theorem Marked.execute (range : i.Executable) (h : m.execute inputs i = .ok e) :
    Marked m e.machine := by
  by_cases paints : i.Paints
  · exact .inl (redraw_of_paints paints h)
  · have spares := execute_spares range h
    exact .inr ⟨spares.redraw paints, spares.screen paints⟩

theorem Marked.report (m : Machine) (notes : List Note) (fault : Option Fault) :
    Marked m (m.report notes fault).machine := by
  cases fault with
  | none => exact .refl m
  | some f => exact .refl m

theorem Marked.step (m : Machine) (inputs : Inputs) : Marked m (m.step inputs).machine := by
  obtain ⟨fault, -, stepped⟩ | ⟨w, i, e, lastFault, -, range, executed, stepped⟩ :=
    m.machine_step inputs
  · rw [stepped]
    exact .refl m
  · rw [stepped]
    exact Marked.execute range.executable executed

theorem Marked.load (m : Machine) (program : Array UInt8) :
    Marked m (m.load program).machine := by
  simp only [Machine.load]
  split
  · next memory _ =>
    have hp : Marked m { m with memory } := .refl m
    exact hp.trans (.report _ _ _)
  · exact .report _ _ _

theorem Marked.batch (keys : Keypad) (count : Nat) (r : Run) :
    Marked r.machine (r.batch keys count).machine := by
  induction count generalizing r with
  | zero => exact .refl _
  | succ count ih => exact (Marked.step r.machine ⟨keys, r.dice.top⟩).trans (ih (r.step keys).1)

end Machine

end Chip8
