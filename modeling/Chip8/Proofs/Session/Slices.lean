import Chip8.Proofs.Session.Spans

namespace Chip8

inductive Slice : Type
  | advance : (span : Nat) → Slice
  | togglePause : Slice

namespace Slice

def operation : Slice → Operation
  | .advance span => .advance span
  | .togglePause => .togglePause

def awake : Bool → List Slice → Nat
  | _, [] => 0
  | paused, .advance span :: xs => (if paused then 0 else span) + awake paused xs
  | paused, .togglePause :: xs => awake (!paused) xs

end Slice

namespace Session

def slices (keys : Keypad) (s : Session) : List Slice → Session
  | [] => s
  | x :: xs => slices keys (s.operate keys x.operation) xs

def sliceBeats (keys : Keypad) (s : Session) : List Slice → List Beat
  | [] => []
  | .advance span :: xs => s.due span ++ sliceBeats keys (s.advance keys span) xs
  | .togglePause :: xs => sliceBeats keys s.togglePause xs

def awaken (s : Session) : Session := { s with console := { s.console with paused := false } }

/-- Two sessions that do the same from now on unless one is paused, and have shown the same
screens. -/
structure InStep (s t : Session) : Prop where
  machine : t.console.machine = s.console.machine
  dice : t.dice = s.dice
  pace : t.console.pace = s.console.pace
  running : t.console.running = s.console.running
  clock : t.console.clock = s.console.clock
  screens : t.screens = s.screens

variable {s t u : Session}

namespace InStep

theorem symm (h : InStep s t) : InStep t s where
  machine := h.machine.symm
  dice := h.dice.symm
  pace := h.pace.symm
  running := h.running.symm
  clock := h.clock.symm
  screens := h.screens.symm

theorem trans (h : InStep s t) (k : InStep t u) : InStep s u where
  machine := k.machine.trans h.machine
  dice := k.dice.trans h.dice
  pace := k.pace.trans h.pace
  running := k.running.trans h.running
  clock := k.clock.trans h.clock
  screens := k.screens.trans h.screens

theorem cycles (h : InStep s t) (keys : Keypad) (count : Nat) :
    InStep (s.cycles keys count) (t.cycles keys count) where
  machine := by simp only [Session.cycles, h.machine, h.dice]
  dice := by simp only [Session.cycles, h.machine, h.dice]
  pace := h.pace
  running := h.running
  clock := h.clock
  screens := by rw [screens_cycles, screens_cycles, h.screens]

theorem present (h : InStep s t) : InStep s.present t.present where
  machine := by simp only [console_present, h.machine]
  dice := by rw [dice_present, dice_present, h.dice]
  pace := by simp only [console_present, h.pace]
  running := by simp only [console_present, h.running]
  clock := by simp only [console_present, h.clock]
  screens := by rw [screens_present, screens_present, h.screens, h.machine]

theorem beat (h : InStep s t) (keys : Keypad) (b : Beat) :
    InStep (s.beat keys b) (t.beat keys b) := by
  cases b with
  | tick =>
    exact ⟨congrArg Machine.tick h.machine, h.dice, h.pace, h.running, h.clock, h.screens⟩
  | batch =>
    simp only [Session.beat, h.pace]
    exact (h.cycles keys _).present

theorem beats (h : InStep s t) (keys : Keypad) (bs : List Beat) :
    InStep (bs.foldl (Session.beat keys) s) (bs.foldl (Session.beat keys) t) := by
  induction bs generalizing s t with
  | nil => exact h
  | cons b bs ih => exact ih (h.beat keys b)

theorem awake (h : InStep s t) (paused : t.console.paused = s.console.paused) :
    t.awake = s.awake := by
  rw [Session.awake, h.running, paused, Session.awake]

theorem due (h : InStep s t) (paused : t.console.paused = s.console.paused) (span : Nat) :
    t.due span = s.due span := by
  rw [Session.due, h.awake paused, h.clock, h.pace, Session.due]

theorem advance (h : InStep s t) (paused : t.console.paused = s.console.paused) (keys : Keypad)
    (span : Nat) : InStep (s.advance keys span) (t.advance keys span) := by
  cases awake : s.awake with
  | true =>
    rw [advance_eq_reclock awake, advance_eq_reclock ((h.awake paused).trans awake),
      h.due paused, h.clock, h.pace]
    have hb := h.beats keys (s.due span)
    exact ⟨hb.machine, hb.dice, hb.pace, hb.running, rfl, hb.screens⟩
  | false =>
    rwa [advance_of_not_awake awake, advance_of_not_awake ((h.awake paused).trans awake)]

end InStep

theorem awaken_of_not_paused (h : s.console.paused = false) : s.awaken = s := by
  rw [awaken, ← h]

theorem inStep_togglePause (h : s.console.machine.redraw = false) :
    InStep s.awaken s.togglePause.awaken where
  machine := by simp [awaken, Machine.takeRedraw_of_not_redraw h]
  dice := by simp [awaken, togglePause]
  pace := by simp [awaken]
  running := by simp [awaken]
  clock := by simp [awaken]
  screens := by
    change s.togglePause.screens = s.screens
    rw [togglePause, screens_present, screens_note]
    simp [h, screens]

theorem kept_redraw : Kept fun s => s.console.machine.redraw = false where
  note _ _ h := h
  quit _ h := h
  source _ _ h := h
  resume s h := by
    rw [console_resume]
    split
    · simp
    · exact h
  togglePause s h := by simp
  step s keys h := by
    rw [step]
    split
    · simp
    · exact h
  advance s keys span h := by
    apply advance_induction (P := fun s => s.console.machine.redraw = false) _ _ s span h
    · intro s b h
      cases b with
      | tick => exact h
      | batch => simp [beat]
    · intro s clock h
      exact h
  clear s h := by simp
  insert s program h := by
    rcases s.console_insert program with ⟨-, hc⟩ | ⟨-, hc⟩ <;> simp [hc]

theorem awaken_advance (hw : s.console.clock.Within s.console.pace) (keys : Keypad) (span : Nat) :
    let counted := if s.console.paused then 0 else span
    s.due span = s.awaken.due counted ∧
      (s.advance keys span).awaken = s.awaken.advance keys counted := by
  cases paused : s.console.paused with
  | true =>
    -- nothing happens, and nothing would in no time
    have asleep : s.awake = false := by simp [awake, paused]
    have hz : s.awaken.due 0 = [] := due_zero (s := s.awaken) hw
    have ha : s.awaken.advance keys 0 = s.awaken := advance_zero (s := s.awaken) hw keys
    simp [due_of_not_awake asleep, advance_of_not_awake asleep, hz, ha]
  | false =>
    have ha := (s.paused_advance keys span).trans paused
    simp [awaken_of_not_paused paused, awaken_of_not_paused ha]

theorem slices_eq_advance (keys : Keypad) (s : Session) (xs : List Slice)
    (redraw : s.console.machine.redraw = false) (hw : s.console.clock.Within s.console.pace) :
    let whole := Slice.awake s.console.paused xs
    s.sliceBeats keys xs = s.awaken.due whole ∧
      InStep (s.awaken.advance keys whole) (s.slices keys xs) := by
  induction xs generalizing s with
  | nil =>
    have ha : s.awaken.advance keys 0 = s.awaken := advance_zero (s := s.awaken) hw keys
    refine ⟨(due_zero (s := s.awaken) hw).symm, ?_⟩
    simp only [Slice.awake, ha]
    constructor <;> rfl
  | cons x xs ih =>
    cases x with
    | advance span =>
      obtain ⟨beats, inStep⟩ := ih (s.advance keys span) (kept_redraw.advance s keys span redraw)
        (kept_within.advance s keys span hw)
      obtain ⟨due, advanced⟩ := awaken_advance hw keys span
      rw [paused_advance, advanced] at beats inStep
      simp only [Slice.awake, sliceBeats, due_add _ keys, advance_add]
      rw [beats, due]
      exact ⟨rfl, inStep⟩
    | togglePause =>
      obtain ⟨beats, inStep⟩ := ih s.togglePause (kept_redraw.togglePause s redraw)
        (kept_within.togglePause s hw)
      have same := inStep_togglePause redraw
      simp only [console_togglePause] at beats inStep
      exact ⟨beats.trans (same.due rfl _), (same.advance rfl keys _).trans inStep⟩

def SinceReset (s : Session) : Prop :=
  ∃ (t : Session) (since : History), t.Reachable ∧ t.reset.1.after since = s

theorem Reachable.sinceReset (h : s.Reachable) (keys : Keypad) (since : History) :
    (s.after ((keys, .reset) :: since)).SinceReset := ⟨s, since, h, rfl⟩

theorem SinceReset.within (h : s.SinceReset) : s.console.clock.Within s.console.pace := by
  obtain ⟨t, since, -, rfl⟩ := h
  apply kept_within.after
  exact kept_within.reset_of_clear t (within_of_clock_eq (by simp))

theorem SinceReset.redraw (h : s.SinceReset) : s.console.machine.redraw = false := by
  obtain ⟨t, since, -, rfl⟩ := h
  apply kept_redraw.after
  exact kept_redraw.reset_of_clear t (by simp)

/-- Two ways to slice time that leave as much of it outside pauses come to the same: the same beats
take place in the same order, and machine, random bytes, clock and the screens handed out agree. -/
theorem slices_agree (h : s.SinceReset) (keys : Keypad) (xs ys : List Slice)
    (whole : Slice.awake s.console.paused xs = Slice.awake s.console.paused ys) :
    s.sliceBeats keys xs = s.sliceBeats keys ys ∧
    (s.slices keys xs).console.machine = (s.slices keys ys).console.machine ∧
    (s.slices keys xs).dice = (s.slices keys ys).dice ∧
    (s.slices keys xs).console.clock = (s.slices keys ys).console.clock ∧
    (s.slices keys xs).screens = (s.slices keys ys).screens := by
  obtain ⟨beats, inStep⟩ := slices_eq_advance keys s xs h.redraw h.within
  obtain ⟨beats', inStep'⟩ := slices_eq_advance keys s ys h.redraw h.within
  rw [← whole] at beats' inStep'
  have same := inStep'.symm.trans inStep
  exact ⟨beats.trans beats'.symm, same.machine, same.dice, same.clock, same.screens⟩

theorem slices_agree_counting :
    let xs := [.advance 7000000, .togglePause, .advance 5000000, .togglePause, .advance 33000000]
    let ys := [.advance 40000000]
    counting.SinceReset ∧
    Slice.awake counting.console.paused xs = Slice.awake counting.console.paused ys ∧
    (counting.slices .released xs).console.machine = (counting.slices .released ys).console.machine ∧
    (counting.slices .released xs).screens = (counting.slices .released ys).screens ∧
    (counting.slices .released xs).console.machine.register 0 = 2 ∧
    (counting.slices .released xs).screens.length = 3 := by
  intro xs ys
  have since : counting.SinceReset := Reachable.sinceReset ⟨_, _, _, _, [], rfl⟩ _ []
  have paused : counting.console.paused = false := rfl
  have whole : Slice.awake counting.console.paused xs = Slice.awake counting.console.paused ys := by
    simp [paused, xs, ys, Slice.awake]
  obtain ⟨-, machine, -, -, screens⟩ := slices_agree since .released xs ys whole
  have once : counting.slices .released ys = counting.advance .released 40000000 := rfl
  obtain ⟨counted, shown⟩ := counted_advance_counting
  refine ⟨since, whole, machine, screens, ?_, ?_⟩
  · rw [machine, once]
    exact counted.count
  · rw [screens, once]
    exact shown

end Session

end Chip8
