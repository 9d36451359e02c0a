import Chip8.Proofs.Session.Beats
import Chip8.Proofs.Session.Resets

namespace Chip8

theorem Machine.load_takeRedraw (m : Machine) (program : Array UInt8) :
    m.takeRedraw.2.load program =
      { m.load program with machine := (m.load program).machine.takeRedraw.2 } := by
  have same : m.takeRedraw.2.memory = m.memory := rfl
  rw [load, load, same]
  cases m.memory.copy Memory.programStart program <;> rfl

namespace Console

def blank (c : Console) (m : Machine) : Console :=
  { c with
    machine := m
    source := c.source.fetch.2
    loaded := false
    running := false
    paused := false
    clock := {} }

def insert (c : Console) (program : Array UInt8) : Console :=
  let fits := decide (program.size ≤ 3584)
  { c with
    machine := (c.machine.load program).machine
    loaded := fits
    running := fits }.handedOut

/-- A reset: the machine is as at power-on, and the program that is fetched is loaded and runs if there
is one and it fits. -/
def afresh (c : Console) : Console :=
  match c.source.fetch.1 with
  | .error _ => (c.blank c.machine.reset).handedOut
  | .ok program => (c.blank c.machine.reset).insert program

theorem source_afresh (c : Console) : c.afresh.source = c.source.fetch.2 := by
  rw [afresh]
  cases c.source.fetch.1 <;> rfl

theorem insert_handedOut (c : Console) (program : Array UInt8) :
    c.handedOut.insert program = c.insert program := by
  have same : c.handedOut.machine = c.machine.takeRedraw.2 := rfl
  rw [insert, same, Machine.load_takeRedraw]
  rfl

/-- What a command makes of a console and of the random bytes to come. -/
def heed (keys : Keypad) : Console × Dice → Command → Console × Dice
  | (c, dice), .start => (if c.loaded then { c with running := true }.handedOut else c, dice)
  | (c, dice), .togglePause => ({ c with paused := !c.paused }.handedOut, dice)
  | (c, dice), .reset => (c.afresh, dice)
  | (c, dice), .step =>
    if c.loaded then
      ({ c with machine := (c.machine.step ⟨keys, dice.top⟩).machine }.handedOut, dice.next)
    else (c, dice)
  | (c, dice), .quit => ({ c with quitting := true }, dice)

end Console

namespace Session

theorem handedOut_blank (s : Session) (m : Machine) : (s.console.blank m).handedOut =
    { (s.emptied m).present.console with source := s.console.source.fetch.2 } := by
  rw [console_present_emptied]
  rfl

theorem console_refetched (s : Session) :
    s.refetched.console = (s.console.blank s.console.machine.reset).handedOut := by
  rw [handedOut_blank, ← clear_eq_present, refetched]

theorem console_insert_eq (s : Session) (loaded : s.console.loaded = false)
    (running : s.console.running = false) (program : Array UInt8) :
    (s.insert program).console = s.console.insert program := by
  rcases s.console_insert program with ⟨fault, hc⟩ | ⟨fault, hc⟩
  · rw [Machine.fault_load_eq_none_iff] at fault
    rw [hc, Console.insert, decide_eq_true fault]
    rfl
  · rw [Ne, Machine.fault_load_eq_none_iff] at fault
    rw [hc, Console.insert, decide_eq_false fault, ← loaded]
    simp [running, loaded, Console.handedOut, Console.status, Machine.takeRedraw]

theorem console_reset (s : Session) : s.reset.1.console = s.console.afresh := by
  rw [reset_eq, Console.afresh]
  cases s.console.source.fetch.1 with
  | error e => exact s.console_refetched
  | ok program =>
    have blank := s.console_refetched
    generalize s.console.machine.reset = m at blank ⊢
    dsimp only
    rw [console_insert_eq _ (by rw [blank]; rfl) (by rw [blank]; rfl), blank, Console.insert_handedOut]

theorem apply_eq_heed (s : Session) (keys : Keypad) (c : Command) :
    ((s.apply keys c).1.console, (s.apply keys c).1.dice) =
      Console.heed keys (s.console, s.dice) c := by
  cases c with
  | start =>
    rw [apply, Console.heed, console_resume, dice_resume, present_eq]
    rfl
  | togglePause =>
    rw [apply, Console.heed, console_togglePause, dice_togglePause]
    rfl
  | reset =>
    rw [apply, Console.heed, console_reset, dice_reset]
    rfl
  | step =>
    rw [apply, Console.heed, step, present_eq, cycles_eq, console_note]
    by_cases loaded : s.console.loaded
    · rw [if_pos loaded, if_pos loaded]
      rfl
    · rw [if_neg loaded, if_neg loaded]
      rfl
  | quit => rfl

theorem obey_eq_heed (s : Session) (keys : Keypad) (c : Command) :
    ((s.obey keys c).console, (s.obey keys c).dice) = Console.heed keys (s.console, s.dice) c := by
  obtain ⟨console, dice⟩ := s.obey_eq keys c
  rw [console, dice, apply_eq_heed]

theorem obeyAll_eq_heed (s : Session) (keys : Keypad) (cs : List Command) :
    ((cs.foldl (obey keys) s).console, (cs.foldl (obey keys) s).dice) =
      cs.foldl (Console.heed keys) (s.console, s.dice) := by
  induction cs generalizing s with
  | nil => rfl
  | cons c cs ih => rw [List.foldl_cons, List.foldl_cons, ih, obey_eq_heed]

theorem apply_snd (s : Session) (keys : Keypad) (c : Command) (e : FetchError) :
    (s.apply keys c).2 = some e ↔ c = .reset ∧ s.console.source.fetch.1 = .error e := by
  cases c with
  | reset =>
    rw [apply, reset_eq, console_note]
    cases s.console.source.fetch.1 <;> simp
  | start => simp [apply]
  | togglePause => simp [apply]
  | step => simp [apply]
  | quit => simp [apply]

end Session

end Chip8
