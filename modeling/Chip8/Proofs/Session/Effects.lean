import Chip8.Session.Control

namespace Chip8

namespace Machine

@[simp] theorem lastFault_reset (m : Machine) : m.reset.lastFault = none := rfl

@[simp] theorem redraw_reset (m : Machine) : m.reset.redraw = true := rfl

@[simp] theorem redraw_takeRedraw (m : Machine) : m.takeRedraw.2.redraw = false := rfl

@[simp] theorem screen_takeRedraw (m : Machine) : m.takeRedraw.2.screen = m.screen := rfl

@[simp] theorem lastFault_takeRedraw (m : Machine) : m.takeRedraw.2.lastFault = m.lastFault := rfl

theorem takeRedraw_of_not_redraw {m : Machine} (h : m.redraw = false) : m.takeRedraw = (false, m) := by
  cases m
  cases h
  rfl

end Machine

namespace Session

@[simp] theorem console_note (s : Session) (n : Note) : (s.note n).console = s.console := rfl

@[simp] theorem dice_note (s : Session) (n : Note) : (s.note n).dice = s.dice := rfl

theorem console_showScreen (s : Session) :
    s.showScreen.console = { s.console with machine := s.console.machine.takeRedraw.2 } := by
  by_cases h : s.console.machine.redraw
  · simp only [showScreen, Machine.takeRedraw, h, if_true]
  · rw [Bool.not_eq_true] at h
    simp only [showScreen, Machine.takeRedraw_of_not_redraw h, Bool.false_eq_true, if_false]

theorem console_showStatus (s : Session) :
    s.showStatus.console = { s.console with shown := some s.console.status } := by
  simp only [showStatus]
  split
  · next h => rw [← h]
  · rfl

@[simp] theorem console_present (s : Session) :
    s.present.console = { s.console with
      machine := s.console.machine.takeRedraw.2
      shown := some s.console.status } := by
  rw [present, console_showStatus, console_showScreen]
  rfl

@[simp] theorem dice_present (s : Session) : s.present.dice = s.dice := by
  simp only [present, showStatus, showScreen]
  split <;> split <;> rfl

theorem console_resume (s : Session) :
    s.resume.console = if s.console.loaded then
      { s.present.console with running := true } else s.console := by
  simp only [resume]
  split
  · split
    · next h => simp [h]
    · simp [Console.status]
  · rfl

@[simp] theorem console_togglePause (s : Session) :
    s.togglePause.console = { s.console with
      machine := s.console.machine.takeRedraw.2
      paused := !s.console.paused
      shown := some ⟨!s.console.paused, s.console.machine.lastFault⟩ } := by
  simp [togglePause, Console.status]

/-- What `clear` presents, for any machine in the place of the one at power-on, whose memory is not
to be looked into. -/
def emptied (s : Session) (machine : Machine) : Session :=
  { s with console := { s.console with
    machine
    loaded := false
    running := false
    paused := false
    clock := {} } }.note .resetting

theorem console_present_emptied (s : Session) (machine : Machine) :
    (s.emptied machine).present.console = { s.console with
      machine := machine.takeRedraw.2
      loaded := false
      running := false
      paused := false
      clock := {}
      shown := some ⟨false, machine.lastFault⟩ } := by
  simp [emptied, Console.status]

@[simp] theorem console_clear (s : Session) :
    s.clear.console = { s.console with
      machine := s.console.machine.reset.takeRedraw.2
      loaded := false
      running := false
      paused := false
      clock := {}
      shown := some ⟨false, none⟩ } := by
  rw [← s.console.machine.lastFault_reset]
  exact s.console_present_emptied s.console.machine.reset

theorem console_insert (s : Session) (program : Array UInt8) :
    ((s.console.machine.load program).fault = none ∧ (s.insert program).console = { s.console with
        machine := (s.console.machine.load program).machine.takeRedraw.2
        loaded := true
        running := true
        shown := some ⟨s.console.paused, (s.console.machine.load program).machine.lastFault⟩ })
      ∨ (s.console.machine.load program).fault ≠ none ∧ (s.insert program).console = { s.console with
        machine := (s.console.machine.load program).machine.takeRedraw.2
        shown := some ⟨s.console.paused, (s.console.machine.load program).machine.lastFault⟩ } := by
  cases h : (s.console.machine.load program).fault with
  | none =>
    left
    simp [insert, h, console_resume, accept, Console.status]
  | some f =>
    right
    simp [insert, h, accept, Console.status]

def awake (s : Session) : Bool := s.console.running && !s.console.paused

theorem advance_of_not_awake {s : Session} (h : s.awake = false) (keys : Keypad) (span : Nat) :
    s.advance keys span = s := by
  rw [awake] at h
  simp only [advance, h, Bool.false_eq_true, if_false]

def reclock (s : Session) (clock : Clock) : Session :=
  { s with console := { s.console with clock } }

theorem advance_of_awake {s : Session} (h : s.awake = true) (keys : Keypad) (span : Nat) :
    s.advance keys span =
      let passed := s.console.clock.pass s.console.pace span #[]
      (passed.2.toList.foldl (beat keys) s).reclock passed.1 := by
  rw [awake] at h
  simp only [advance, h, if_true, Array.foldl_toList, reclock]

section Induction

variable {P : Session → Prop} {keys : Keypad}

theorem beats_induction (kept : ∀ s b, P s → P (s.beat keys b)) (bs : List Beat) (s : Session)
    (h : P s) : P (bs.foldl (beat keys) s) := by
  induction bs generalizing s with
  | nil => exact h
  | cons b bs ih => exact ih _ (kept s b h)

theorem advance_induction (kept : ∀ s b, P s → P (s.beat keys b))
    (reclocked : ∀ s clock, P s → P (s.reclock clock)) (s : Session) (span : Nat) (h : P s) :
    P (s.advance keys span) := by
  cases awake : s.awake with
  | true =>
    rw [advance_of_awake awake]
    exact reclocked _ _ (beats_induction kept _ s h)
  | false => rwa [advance_of_not_awake awake]

end Induction

structure SameControls (s t : Session) : Prop where
  source : t.console.source = s.console.source
  pace : t.console.pace = s.console.pace
  loaded : t.console.loaded = s.console.loaded
  running : t.console.running = s.console.running
  paused : t.console.paused = s.console.paused
  quitting : t.console.quitting = s.console.quitting
  clock : t.console.clock = s.console.clock

namespace SameControls

theorem refl (s : Session) : SameControls s s := by constructor <;> rfl

theorem trans {s t u : Session} (h : SameControls s t) (k : SameControls t u) :
    SameControls s u where
  source := k.source.trans h.source
  pace := k.pace.trans h.pace
  loaded := k.loaded.trans h.loaded
  running := k.running.trans h.running
  paused := k.paused.trans h.paused
  quitting := k.quitting.trans h.quitting
  clock := k.clock.trans h.clock

theorem awake {s t : Session} (h : SameControls s t) : t.awake = s.awake := by
  rw [Session.awake, h.running, h.paused, Session.awake]

theorem present (s : Session) : SameControls s s.present := by constructor <;> simp

theorem cycles (s : Session) (keys : Keypad) (count : Nat) :
    SameControls s (s.cycles keys count) := by constructor <;> rfl

theorem step (s : Session) (keys : Keypad) : SameControls s (s.step keys) := by
  rw [Session.step]
  split
  · exact (cycles s keys 1).trans (present _)
  · constructor <;> rfl

theorem beat (keys : Keypad) (s : Session) (b : Beat) : SameControls s (s.beat keys b) := by
  cases b with
  | tick => constructor <;> rfl
  | batch => exact (cycles s keys _).trans (present _)

theorem beats (keys : Keypad) (s : Session) (bs : List Beat) :
    SameControls s (bs.foldl (Session.beat keys) s) :=
  beats_induction (P := SameControls s) (fun t b h => h.trans (beat keys t b)) bs s (refl s)

theorem advance (s : Session) (keys : Keypad) (span : Nat) :
    ∃ clock, SameControls (s.reclock clock) (s.advance keys span) := by
  cases h : s.awake with
  | true =>
    rw [advance_of_awake h]
    obtain ⟨clock, passed⟩ := s.console.clock.pass s.console.pace span #[]
    have same := beats keys s passed.toList
    exact ⟨clock, { same with clock := rfl }⟩
  | false =>
    rw [advance_of_not_awake h]
    exact ⟨s.console.clock, refl s⟩

end SameControls

end Session

end Chip8
