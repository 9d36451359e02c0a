import Chip8.Proofs.Session.Effects
import Mathlib.Logic.Function.Iterate

namespace Chip8

theorem Machine.tick_eq (m : Machine) : m.tick =
    { m with
      delay := .ofNat (m.delay.toNat - 1)
      sound := .ofNat (m.sound.toNat - 1) } := by
  have down (v : UInt8) : (if v = 0 then 0 else v - 1) = UInt8.ofNat (v.toNat - 1) := by
    split
    · next zero => rw [zero]; rfl
    · next some =>
      apply UInt8.toNat_inj.1
      have h : v.toNat ≠ 0 := fun h => some (UInt8.toNat_inj.1 h)
      have := v.toNat_lt
      rw [UInt8.toNat_sub, UInt8.toNat_ofNat', UInt8.toNat_one]
      omega
  rw [tick, down, down]

theorem Run.batch_notes (keys : Keypad) (count : Nat) (r : Run) :
    r.batch keys count =
      let quiet := ({ r with notes := #[] }).batch keys count
      { quiet with notes := r.notes ++ quiet.notes } := by
  induction count generalizing r with
  | zero => simp [batch]
  | succ count ih =>
    rw [batch, batch, ih (r.step keys).1, ih (({ r with notes := #[] } : Run).step keys).1]
    simp only [step, accept, mk.injEq, true_and]
    apply Array.toList_inj.1
    simp

def Console.handedOut (c : Console) : Console :=
  { c with machine := { c.machine with redraw := false }, shown := some c.status }

namespace Session

def countDown (s : Session) : Session :=
  { s with console := { s.console with machine := { s.console.machine with
    delay := .ofNat (s.console.machine.delay.toNat - 1)
    sound := .ofNat (s.console.machine.sound.toNat - 1) } } }

def cycle (keys : Keypad) (s : Session) : Session :=
  let done := s.console.machine.step ⟨keys, s.dice.top⟩
  { console := { s.console with machine := done.machine }
    dice := s.dice.next
    events := s.events ++ done.notes.map Event.note }

def news (s : Session) : List Event :=
  (if s.console.machine.redraw then [.refresh s.console.machine.screen] else []) ++
    if s.console.shown = some s.console.status then [] else [.status s.console.status]

def handOut (s : Session) : Session :=
  { s with console := s.console.handedOut, events := s.events ++ s.news }

theorem events_showScreen (s : Session) : s.showScreen.events = s.events ++
    if s.console.machine.redraw then [Event.refresh s.console.machine.screen] else [] := by
  cases redraw : s.console.machine.redraw <;> simp [showScreen, Machine.takeRedraw, redraw]

theorem events_showStatus (s : Session) : s.showStatus.events = s.events ++
    if s.console.shown = some s.console.status then [] else [Event.status s.console.status] := by
  rw [showStatus]
  split <;> simp

theorem present_eq (s : Session) : s.present = s.handOut := by
  have shown : s.showScreen.console.shown = s.console.shown := by rw [console_showScreen]
  have status : s.showScreen.console.status = s.console.status := by rw [console_showScreen]; rfl
  have events : s.present.events = s.handOut.events := by
    rw [present, events_showStatus, events_showScreen, shown, status]
    apply Array.toList_inj.1
    simp [handOut, news]
  have console : s.present.console = s.handOut.console := s.console_present
  have dice : s.present.dice = s.handOut.dice := s.dice_present
  generalize s.present = t at *
  cases t
  cases console
  cases dice
  cases events
  rfl

theorem cycles_succ (s : Session) (keys : Keypad) (count : Nat) :
    s.cycles keys (count + 1) = (s.cycle keys).cycles keys count := by
  have first := Run.batch_notes keys count (Run.step keys ⟨s.console.machine, s.dice, #[]⟩).1
  rw [cycles, cycles, Run.batch, first]
  congr 1
  apply Array.toList_inj.1
  simp [cycle, Run.step, Run.accept]

theorem cycles_eq (s : Session) (keys : Keypad) (count : Nat) :
    s.cycles keys count = (cycle keys)^[count] s := by
  induction count generalizing s with
  | zero => simp [cycles, Run.batch]
  | succ count ih => rw [cycles_succ, ih, Function.iterate_succ_apply]

theorem beat_tick (s : Session) (keys : Keypad) : s.beat keys .tick = s.countDown := by
  rw [beat, Machine.tick_eq, countDown]

theorem beat_batch (s : Session) (keys : Keypad) :
    s.beat keys .batch = ((cycle keys)^[s.console.pace.batchSize] s).handOut := by
  rw [beat, present_eq, cycles_eq]

/-- Beats that take place one after the other, taken apart: a tick counts the timers down, and a batch
executes its instructions and then hands out what is new. -/
theorem foldl_beat {α : Type} (keys : α → Keypad) (beat : α → Beat) (xs : List α) (s : Session) :
    xs.foldl (fun t x => t.beat (keys x) (beat x)) s =
      xs.foldl (fun t x => match beat x with
        | .tick => t.countDown
        | .batch => ((cycle (keys x))^[s.console.pace.batchSize] t).handOut) s := by
  suffices h : ∀ (pace : Pace) (t : Session), t.console.pace = pace →
      xs.foldl (fun t x => t.beat (keys x) (beat x)) t =
        xs.foldl (fun t x => match beat x with
          | .tick => t.countDown
          | .batch => ((cycle (keys x))^[pace.batchSize] t).handOut) t from h _ s rfl
  intro pace t same
  induction xs generalizing t with
  | nil => rfl
  | cons x xs ih =>
    have kept := (SameControls.beat (keys x) t (beat x)).pace.trans same
    rw [List.foldl_cons, List.foldl_cons, ih _ kept]
    cases h : beat x with
    | tick => simp only [beat_tick]
    | batch => simp only [beat_batch, same]

theorem advance_eq (s : Session) (keys : Keypad) (span : Nat) : s.advance keys span =
    if s.console.running && !s.console.paused then
      let passed := s.console.clock.pass s.console.pace span #[]
      let t := passed.2.toList.foldl (fun t b => match b with
        | .tick => t.countDown
        | .batch => ((cycle keys)^[s.console.pace.batchSize] t).handOut) s
      { t with console := { t.console with clock := passed.1 } }
    else s := by
  split
  · next awake =>
    rw [advance_of_awake awake]
    exact congrArg (reclock · _) (foldl_beat (fun _ => keys) id _ s)
  · next asleep => exact advance_of_not_awake (Bool.eq_false_iff.2 asleep) keys span

end Session

end Chip8
