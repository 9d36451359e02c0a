import Chip8.Proofs.Machine.Redraw
import Chip8.Proofs.Session.Effects
import Chip8.Proofs.Session.History
import Mathlib.Data.List.Chain

namespace Chip8

namespace Event

def screen? : Event → Option Screen
  | .note _ => none
  | .refresh screen => some screen
  | .status _ => none

def status? : Event → Option Status
  | .note _ => none
  | .refresh _ => none
  | .status shown => some shown

@[simp] theorem screen?_note (n : Note) : (note n).screen? = none := rfl

@[simp] theorem screen?_refresh (screen : Screen) : (refresh screen).screen? = some screen := rfl

@[simp] theorem screen?_status (shown : Status) : (status shown).screen? = none := rfl

@[simp] theorem status?_note (n : Note) : (note n).status? = none := rfl

@[simp] theorem status?_refresh (screen : Screen) : (refresh screen).status? = none := rfl

@[simp] theorem status?_status (shown : Status) : (status shown).status? = some shown := rfl

end Event

namespace Session

def screens (s : Session) : List Screen := s.events.toList.filterMap Event.screen?

def statuses (s : Session) : List Status := s.events.toList.filterMap Event.status?

@[simp] theorem screens_note (s : Session) (n : Note) : (s.note n).screens = s.screens := by
  simp [screens, note]

@[simp] theorem statuses_note (s : Session) (n : Note) : (s.note n).statuses = s.statuses := by
  simp [statuses, note]

@[simp] theorem screens_accept (s : Session) (o : Outcome) : (s.accept o).screens = s.screens := by
  simp [screens, accept]

@[simp] theorem statuses_accept (s : Session) (o : Outcome) :
    (s.accept o).statuses = s.statuses := by
  simp [statuses, accept]

@[simp] theorem screens_cycles (s : Session) (keys : Keypad) (count : Nat) :
    (s.cycles keys count).screens = s.screens := by
  simp [screens, cycles]

@[simp] theorem statuses_cycles (s : Session) (keys : Keypad) (count : Nat) :
    (s.cycles keys count).statuses = s.statuses := by
  simp [statuses, cycles]

theorem screens_showStatus (s : Session) : s.showStatus.screens = s.screens := by
  simp only [showStatus]
  split
  · rfl
  · simp [screens]

theorem statuses_showScreen (s : Session) : s.showScreen.statuses = s.statuses := by
  cases h : s.console.machine.redraw with
  | true => simp [statuses, showScreen, Machine.takeRedraw, h]
  | false => simp [statuses, showScreen, Machine.takeRedraw, h]

theorem screens_present (s : Session) :
    s.present.screens =
      s.screens ++ (if s.console.machine.redraw then [s.console.machine.screen] else []) := by
  rw [present, screens_showStatus]
  cases h : s.console.machine.redraw with
  | true => simp [screens, showScreen, Machine.takeRedraw, h]
  | false => simp [screens, showScreen, Machine.takeRedraw, h]

theorem statuses_present (s : Session) :
    s.present.statuses =
      s.statuses ++ (if s.console.shown = some s.console.status then [] else [s.console.status]) := by
  have hs : s.showScreen.console.shown = s.console.shown := by rw [console_showScreen]
  have hc : s.showScreen.console.status = s.console.status := by rw [console_showScreen]; rfl
  rw [present, ← s.statuses_showScreen, ← hs, ← hc]
  generalize s.showScreen = t
  by_cases h : t.console.shown = some t.console.status
  · simp [showStatus, h]
  · simp [statuses, showStatus, h]

/-- The console knows which status was handed out last, no status was handed out twice in a row, and
a screen other than the last one is marked. This also holds in the middle of an operation. -/
structure Faithful (s : Session) : Prop where
  shown : s.console.shown = s.statuses.getLast?
  distinct : s.statuses.IsChain (· ≠ ·)
  marked : s.console.machine.redraw = true
    ∨ s.screens.getLast? = some s.console.machine.screen

structure Current (s : Session) : Prop where
  redraw : s.console.machine.redraw = false
  screen : s.screens.getLast? = some s.console.machine.screen
  status : s.statuses.getLast? = some s.console.status

structure Displayed (s : Session) : Prop where
  faithful : s.Faithful
  current : s.screens = [] ∧ s.statuses = [] ∨ s.Current

variable {s t : Session}

theorem Faithful.of_marked (h : s.Faithful)
    (machine : s.console.machine.Marked t.console.machine)
    (shown : t.console.shown = s.console.shown) (screens : t.screens = s.screens)
    (statuses : t.statuses = s.statuses) : t.Faithful where
  shown := by rw [shown, statuses, h.shown]
  distinct := by
    rw [statuses]
    exact h.distinct
  marked := by
    rcases machine with redraw | ⟨redraw, screen⟩
    · exact .inl redraw
    · rw [redraw, screens, screen]
      exact h.marked

theorem Faithful.current_present (h : s.Faithful) : s.present.Current where
  redraw := by simp
  screen := by
    rw [screens_present, console_present]
    cases redraw : s.console.machine.redraw with
    | true => simp
    | false => simpa [redraw] using h.marked
  status := by
    have hs : s.present.console.status = s.console.status := by simp [Console.status]
    rw [statuses_present, hs]
    split
    · next shown => rw [List.append_nil, ← h.shown, shown]
    · simp

theorem Faithful.displayed_present (h : s.Faithful) : s.present.Displayed where
  current := .inr h.current_present
  faithful := {
    shown := by
      rw [h.current_present.status, console_present]
      simp [Console.status]
    distinct := by
      rw [statuses_present]
      split
      · rw [List.append_nil]
        exact h.distinct
      · next new =>
        apply h.distinct.append (.singleton _)
        intro last hl status hs same
        rw [Option.mem_def, ← h.shown] at hl
        rw [List.head?_singleton, Option.mem_def, Option.some.injEq] at hs
        exact new (by rw [hl, same, hs])
    marked := .inr h.current_present.screen }

theorem Displayed.congr (h : s.Displayed) (machine : t.console.machine = s.console.machine)
    (paused : t.console.paused = s.console.paused) (shown : t.console.shown = s.console.shown)
    (screens : t.screens = s.screens) (statuses : t.statuses = s.statuses) : t.Displayed where
  faithful := h.faithful.of_marked (by rw [machine]; exact .refl _) shown screens statuses
  current := by
    have hs : t.console.status = s.console.status := by
      rw [Console.status, Console.status, machine, paused]
    rw [screens, statuses]
    rcases h.current with silent | current
    · exact .inl silent
    · right
      constructor
      · rw [machine]
        exact current.redraw
      · rw [screens, machine]
        exact current.screen
      · rw [statuses, hs]
        exact current.status

theorem Faithful.displayed_resume (h : s.Faithful) (loaded : s.console.loaded = true) :
    s.resume.Displayed := by
  simp only [resume, loaded, if_true]
  split
  · exact h.displayed_present
  · apply Faithful.displayed_present
    exact h.of_marked (.refl _) rfl (screens_note _ _) (statuses_note _ _)

theorem Faithful.emptied (h : s.Faithful) {machine : Machine} (redraw : machine.redraw = true) :
    (s.emptied machine).Faithful :=
  h.of_marked (.inl redraw) rfl (screens_note _ _) (statuses_note _ _)

theorem Displayed.tick (h : s.Displayed) :
    Displayed { s with console := { s.console with machine := s.console.machine.tick } } where
  faithful := h.faithful.of_marked (.refl _) rfl rfl rfl
  current := h.current.imp id fun current => ⟨current.redraw, current.screen, current.status⟩

theorem Displayed.beat (h : s.Displayed) (keys : Keypad) (b : Beat) : (s.beat keys b).Displayed := by
  cases b with
  | tick => exact h.tick
  | batch =>
    apply Faithful.displayed_present
    exact h.faithful.of_marked (.batch keys _ _) rfl (screens_cycles _ _ _) (statuses_cycles _ _ _)

theorem kept_displayed : Kept Displayed where
  note s n h := h.congr rfl rfl rfl (s.screens_note n) (s.statuses_note n)
  quit s h := h.congr rfl rfl rfl rfl rfl
  source s source h := h.congr rfl rfl rfl rfl rfl
  resume s h := by
    by_cases loaded : s.console.loaded
    · exact h.faithful.displayed_resume loaded
    · simp only [resume, loaded]
      exact h.congr rfl rfl rfl (s.screens_note _) (s.statuses_note _)
  togglePause s h := by
    apply Faithful.displayed_present
    exact h.faithful.of_marked (.refl _) rfl (screens_note _ _) (statuses_note _ _)
  step s keys h := by
    simp only [step]
    split
    · apply Faithful.displayed_present
      exact h.faithful.of_marked (.batch keys _ _) rfl (s.screens_cycles keys 1)
        (s.statuses_cycles keys 1)
    · exact h.congr rfl rfl rfl (s.screens_note _) (s.statuses_note _)
  advance s keys span h := by
    apply advance_induction _ _ s span h
    · intro s b h
      exact h.beat keys b
    · intro s clock h
      exact h.congr rfl rfl rfl rfl rfl
  clear s h := (h.faithful.emptied s.console.machine.redraw_reset).displayed_present
  insert s program h := by
    have ha : (s.accept (s.console.machine.load program)).Faithful :=
      h.faithful.of_marked (.load _ program) rfl (s.screens_accept _) (s.statuses_accept _)
    simp only [insert]
    split
    · apply Faithful.displayed_resume
      · exact ha.of_marked (.refl _) rfl rfl rfl
      · rfl
    · exact ha.displayed_present

theorem displayed_opening (dialect : Dialect) (source : ProgramSource) (pace : Pace) (dice : Dice) :
    (opening (.initial dialect) source pace dice).Displayed where
  faithful := ⟨rfl, .nil, .inl rfl⟩
  current := .inl ⟨rfl, rfl⟩

/-- After every history, what was handed out last is the screen and the status of now, unless
nothing was handed out at all, and no status was handed out twice in a row. -/
theorem display_agrees_with_machine (dialect : Dialect) (source : ProgramSource) (pace : Pace)
    (dice : Dice) (history : History) :
    let s := (opening (.initial dialect) source pace dice).after history
    (s.screens = [] ∧ s.statuses = [] ∨
      s.screens.getLast? = some s.console.machine.screen ∧
        s.statuses.getLast? = some ⟨s.console.paused, s.console.machine.lastFault⟩) ∧
    s.statuses.IsChain (· ≠ ·) := by
  intro s
  have h : s.Displayed :=
    kept_displayed.after _ history (displayed_opening dialect source pace dice)
  refine ⟨?_, h.faithful.distinct⟩
  rcases h.current with silent | current
  · exact .inl silent
  · exact .inr ⟨current.screen, current.status⟩

theorem kept_shown : Kept fun s => s.console.shown ≠ none where
  note _ _ h := h
  quit _ h := h
  source _ _ h := h
  resume s h := by
    rw [console_resume]
    split
    · simp
    · exact h
  togglePause s h := by simp
  step s keys h := by
    rw [step]
    split
    · simp
    · exact h
  advance s keys span h := by
    refine advance_induction (P := fun s => s.console.shown ≠ none) ?_ (fun _ _ h => h) s span h
    intro s b h
    cases b with
    | tick => exact h
    | batch => simp [beat]
  clear s h := by simp
  insert s program h := by
    rcases s.console_insert program with ⟨-, hc⟩ | ⟨-, hc⟩ <;> simp [hc]

/-- From the first pause or reset on a screen and a status have been handed out, and they are those
of now. -/
theorem current_since (dialect : Dialect) (source : ProgramSource) (pace : Pace) (dice : Dice)
    (earlier later : History) (keys : Keypad) {o : Operation}
    (shows : o = .togglePause ∨ o = .reset ∨ ∃ source, o = .changeSource source) :
    ((opening (.initial dialect) source pace dice).after
      (earlier ++ (keys, o) :: later)).Current := by
  have displayed := kept_displayed.after _ (earlier ++ (keys, o) :: later)
    (displayed_opening dialect source pace dice)
  rw [after, List.foldl_append, List.foldl_cons] at displayed ⊢
  generalize earlier.foldl _ _ = s at displayed ⊢
  have first : (s.operate keys o).console.shown ≠ none := by
    rcases shows with rfl | rfl | ⟨source, rfl⟩
    · simp [operate]
    · exact kept_shown.reset_of_clear s (by simp)
    · exact kept_shown.reset_of_clear { s with console := { s.console with source } } (by simp)
  have shown := kept_shown.after _ later first
  rcases displayed.current with ⟨-, silent⟩ | current
  · have none := displayed.faithful.shown
    rw [silent] at none
    exact absurd none shown
  · exact current

example : ((opening (.initial {}) (.ofProgram #[0x12, 0x00]) .standard default).after
    [(.released, .reset), (.released, .togglePause)]).screens = [.blank] := rfl

example : ((opening (.initial {}) (.ofProgram #[0x12, 0x00]) .standard default).after
    [(.released, .reset), (.released, .togglePause)]).statuses = [⟨false, none⟩, ⟨true, none⟩] := rfl

end Session

end Chip8
