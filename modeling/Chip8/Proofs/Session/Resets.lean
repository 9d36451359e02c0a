import Chip8.Proofs.Machine.Loading
import Chip8.Proofs.Session.Effects
import Chip8.Proofs.Session.History

namespace Chip8

def ProgramSource.result : Nat → ProgramSource → Fetch
  | 0, s => s.fetch.1
  | n + 1, s => s.fetch.2.result n

def Dice.ahead (d : Dice) (n : Nat) : UInt8 := d.byte (d.used + n)

theorem Dice.ahead_next (d : Dice) (n : Nat) : d.next.ahead n = d.ahead (n + 1) := by
  rw [ahead, ahead, next, Nat.add_assoc, Nat.add_comm 1 n]

def Operation.IsRun : Operation → Prop
  | .run _ _ => True
  | _ => False

/-- Two consoles that differ at most in where their programs come from and whether they are to
quit. -/
structure Console.Alike (c d : Console) : Prop where
  machine : d.machine = c.machine
  pace : d.pace = c.pace
  loaded : d.loaded = c.loaded
  running : d.running = c.running
  paused : d.paused = c.paused
  clock : d.clock = c.clock
  shown : d.shown = c.shown

namespace Run

variable {r q : Run}

theorem batch_congr (keys : Keypad) (count : Nat) (machine : q.machine = r.machine)
    (dice : ∀ n, q.dice.ahead n = r.dice.ahead n) :
    (q.batch keys count).machine = (r.batch keys count).machine ∧
      ∀ n, (q.batch keys count).dice.ahead n = (r.batch keys count).dice.ahead n := by
  induction count generalizing r q with
  | zero => exact ⟨machine, dice⟩
  | succ count ih =>
    have top : q.dice.top = r.dice.top := dice 0
    apply ih
    · simp only [step, accept, machine, top]
    · intro n
      simp only [step, Dice.ahead_next, dice]

end Run

namespace Session

@[simp] theorem source_resume (s : Session) : s.resume.console.source = s.console.source := by
  rw [console_resume]
  split <;> simp

@[simp] theorem dice_resume (s : Session) : s.resume.dice = s.dice := by
  simp only [resume]
  split
  · split <;> simp
  · rfl

@[simp] theorem dice_togglePause (s : Session) : s.togglePause.dice = s.dice := by
  simp [togglePause]

theorem clear_eq_present (s : Session) : s.clear = (s.emptied s.console.machine.reset).present :=
  rfl

@[simp] theorem dice_clear (s : Session) : s.clear.dice = s.dice := by
  rw [clear_eq_present, dice_present, emptied, dice_note]

@[simp] theorem source_insert (s : Session) (program : Array UInt8) :
    (s.insert program).console.source = s.console.source := by
  rcases s.console_insert program with ⟨-, hc⟩ | ⟨-, hc⟩ <;> rw [hc]

@[simp] theorem dice_insert (s : Session) (program : Array UInt8) :
    (s.insert program).dice = s.dice := by
  simp only [insert]
  split <;> simp [accept]

theorem obey_eq (s : Session) (keys : Keypad) (c : Command) :
    (s.obey keys c).console = (s.apply keys c).1.console ∧
      (s.obey keys c).dice = (s.apply keys c).1.dice := by
  rw [obey]
  split
  · next h => simp [h]
  · next h => simp [h]

end Session

namespace Console.Alike

variable {s t : Session}

theorem present (h : s.console.Alike t.console) : s.present.console.Alike t.present.console := by
  constructor <;> simp [Console.status, h.machine, h.pace, h.loaded, h.running, h.paused, h.clock]

theorem resume (h : s.console.Alike t.console) : s.resume.console.Alike t.resume.console := by
  have hp := h.present
  rw [Session.console_resume, Session.console_resume, h.loaded]
  split
  · exact ⟨hp.machine, hp.pace, hp.loaded, rfl, hp.paused, hp.clock, hp.shown⟩
  · exact h

theorem togglePause (h : s.console.Alike t.console) :
    s.togglePause.console.Alike t.togglePause.console := by
  constructor <;> simp [h.machine, h.pace, h.loaded, h.running, h.paused, h.clock]

theorem insert (h : s.console.Alike t.console) (program : Array UInt8) :
    (s.insert program).console.Alike (t.insert program).console := by
  simp only [Session.insert, h.machine]
  generalize s.console.machine.load program = o
  have ha : (s.accept o).console.Alike (t.accept o).console :=
    ⟨rfl, h.pace, h.loaded, h.running, h.paused, h.clock, h.shown⟩
  split
  · apply resume
    exact ⟨rfl, h.pace, rfl, h.running, h.paused, h.clock, h.shown⟩
  · exact ha.present

theorem clear (dialect : t.console.machine.dialect = s.console.machine.dialect)
    (pace : t.console.pace = s.console.pace) : s.clear.console.Alike t.clear.console := by
  have machine : t.console.machine.reset = s.console.machine.reset := by
    rw [Machine.reset, dialect, Machine.reset]
  constructor <;> simp [machine, pace]

end Console.Alike

namespace Session

/-- Two sessions in the same state, to which the same programs and random bytes come in. -/
structure Twins (s t : Session) : Prop where
  console : s.console.Alike t.console
  source : ∀ n, t.console.source.result n = s.console.source.result n
  dice : ∀ n, t.dice.ahead n = s.dice.ahead n

namespace Twins

variable {s t : Session}

theorem note (h : Twins s t) (n : Note) : Twins (s.note n) (t.note n) :=
  ⟨h.console, h.source, h.dice⟩

theorem quit (h : Twins s t) :
    Twins { s with console := { s.console with quitting := true } }
      { t with console := { t.console with quitting := true } } where
  console := { h.console with }
  source := h.source
  dice := h.dice

theorem present (h : Twins s t) : Twins s.present t.present where
  console := h.console.present
  source := by simpa using h.source
  dice := by simpa using h.dice

theorem resume (h : Twins s t) : Twins s.resume t.resume where
  console := h.console.resume
  source := by simpa using h.source
  dice := by simpa using h.dice

theorem togglePause (h : Twins s t) : Twins s.togglePause t.togglePause where
  console := h.console.togglePause
  source := by simpa using h.source
  dice := by simpa using h.dice

theorem cycles (h : Twins s t) (keys : Keypad) (count : Nat) :
    Twins (s.cycles keys count) (t.cycles keys count) := by
  obtain ⟨machine, dice⟩ := Run.batch_congr (r := ⟨s.console.machine, s.dice, #[]⟩)
    (q := ⟨t.console.machine, t.dice, #[]⟩) keys count h.console.machine h.dice
  exact ⟨{ h.console with machine }, h.source, dice⟩

theorem step (h : Twins s t) (keys : Keypad) : Twins (s.step keys) (t.step keys) := by
  simp only [Session.step, h.console.loaded]
  split
  · exact (h.cycles keys 1).present
  · exact h.note _

theorem beat (h : Twins s t) (keys : Keypad) (b : Beat) :
    Twins (s.beat keys b) (t.beat keys b) := by
  cases b with
  | tick =>
    exact ⟨{ h.console with machine := congrArg Machine.tick h.console.machine }, h.source, h.dice⟩
  | batch =>
    simp only [Session.beat, h.console.pace]
    exact (h.cycles keys _).present

theorem beats (h : Twins s t) (keys : Keypad) (bs : List Beat) :
    Twins (bs.foldl (Session.beat keys) s) (bs.foldl (Session.beat keys) t) := by
  induction bs generalizing s t with
  | nil => exact h
  | cons b bs ih => exact ih (h.beat keys b)

theorem advance (h : Twins s t) (keys : Keypad) (span : Nat) :
    Twins (s.advance keys span) (t.advance keys span) := by
  have awake : t.awake = s.awake := by
    rw [Session.awake, h.console.running, h.console.paused, Session.awake]
  cases hs : s.awake with
  | true =>
    rw [advance_of_awake hs, advance_of_awake (awake.trans hs), h.console.clock, h.console.pace]
    have hb := h.beats keys (s.console.clock.pass s.console.pace span #[]).2.toList
    exact ⟨{ hb.console with clock := rfl }, hb.source, hb.dice⟩
  | false => rwa [advance_of_not_awake hs, advance_of_not_awake (awake.trans hs)]

end Twins

def refetched (s : Session) : Session :=
  { s.clear with console := { s.clear.console with source := s.console.source.fetch.2 } }

theorem reset_eq (s : Session) :
    s.reset = match s.console.source.fetch.1 with
      | .ok program => (s.refetched.insert program, none)
      | .error e => (s.refetched, some e) := by
  have source : s.clear.console.source = s.console.source := by simp
  simp only [reset, source]
  rfl

theorem source_reset (s : Session) : s.reset.1.console.source = s.console.source.fetch.2 := by
  rw [reset_eq]
  split <;> simp [refetched]

theorem dice_reset (s : Session) : s.reset.1.dice = s.dice := by
  rw [reset_eq]
  split <;> simp [refetched]

variable {s t : Session}

theorem alike_reset (dialect : t.console.machine.dialect = s.console.machine.dialect)
    (pace : t.console.pace = s.console.pace)
    (fetched : t.console.source.fetch.1 = s.console.source.fetch.1) :
    t.reset.2 = s.reset.2 ∧ s.reset.1.console.Alike t.reset.1.console := by
  have hc : s.refetched.console.Alike t.refetched.console :=
    { Console.Alike.clear dialect pace with }
  rw [reset_eq, reset_eq, fetched]
  split
  · exact ⟨rfl, hc.insert _⟩
  · exact ⟨rfl, hc⟩

theorem Twins.reset (h : Twins s t) : t.reset.2 = s.reset.2 ∧ Twins s.reset.1 t.reset.1 := by
  have dialect := congrArg Machine.dialect h.console.machine
  obtain ⟨same, console⟩ := alike_reset dialect h.console.pace (h.source 0)
  refine ⟨same, console, ?_, ?_⟩
  · intro n
    rw [source_reset, source_reset]
    exact h.source (n + 1)
  · simpa only [dice_reset] using h.dice

theorem Twins.changeSource (h : Twins s t) (source : ProgramSource) :
    Twins (s.changeSource source).1 (t.changeSource source).1 := by
  have hs : Twins { s with console := { s.console with source } }
      { t with console := { t.console with source } } :=
    ⟨{ h.console with }, fun _ => rfl, h.dice⟩
  exact hs.reset.2

theorem Twins.apply (h : Twins s t) (keys : Keypad) (c : Command) :
    Twins (s.apply keys c).1 (t.apply keys c).1 := by
  have hn := h.note (.gotCommand c)
  cases c with
  | start => exact hn.resume
  | togglePause => exact hn.togglePause
  | reset => exact hn.reset.2
  | step => exact hn.step keys
  | quit => exact hn.quit

theorem Twins.operate (h : Twins s t) (keys : Keypad) {o : Operation} (single : ¬ o.IsRun) :
    Twins (s.operate keys o) (t.operate keys o) := by
  cases o with
  | start => exact h.resume
  | togglePause => exact h.togglePause
  | step => exact h.step keys
  | advance span => exact h.advance keys span
  | apply c => exact h.apply keys c
  | reset => exact h.reset.2
  | changeSource source => exact h.changeSource source
  | run last turns => exact absurd trivial single

theorem Twins.after (h : Twins s t) (history : History) (single : ∀ o ∈ history, ¬ o.2.IsRun) :
    Twins (s.after history) (t.after history) := by
  induction history generalizing s t with
  | nil => exact h
  | cons o history ih =>
    rw [List.forall_mem_cons] at single
    exact ih (h.operate o.1 single.1) single.2

theorem machine_refetched (s : Session) :
    s.refetched.console.machine = s.console.machine.reset.takeRedraw.2 := by
  rw [refetched, console_clear]

theorem machine_insert (s : Session) (program : Array UInt8) :
    (s.insert program).console.machine = (s.console.machine.load program).machine.takeRedraw.2 := by
  rcases s.console_insert program with ⟨-, hc⟩ | ⟨-, hc⟩ <;> rw [hc]

theorem read_reset {program : Array UInt8} (fetched : s.console.source.fetch.1 = .ok program)
    (fits : program.size ≤ 3584) {address : Nat} (h : address < Memory.size) :
    s.reset.1.console.machine.memory.read address = .ok (Memory.fresh program address) := by
  have powerOn : s.refetched.console.machine.memory = .initial := by
    rw [machine_refetched]
    rfl
  obtain ⟨memory, copied, loaded⟩ := Machine.load_of_le (m := s.refetched.console.machine) fits
  rw [powerOn] at copied
  have inserted : (s.refetched.insert program).console.machine.memory = memory := by
    rw [machine_insert, loaded]
    rfl
  rw [reset_eq, fetched]
  dsimp only
  rw [inserted]
  exact Memory.read_copy_initial copied h

/-- What a reset leaves depends on the dialect, the pace and the program that it fetches, and on
nothing that was done before. It fetches once. A program that fits lies in memory with the font, and
all else is zero. If the same programs and random bytes come in later, and the same is done with the
same keys held, there is never a difference. -/
theorem reset_forgets_history (dialect : t.console.machine.dialect = s.console.machine.dialect)
    (pace : t.console.pace = s.console.pace)
    (fetched : t.console.source.fetch.1 = s.console.source.fetch.1) :
    t.reset.2 = s.reset.2 ∧ s.reset.1.console.Alike t.reset.1.console ∧
    s.reset.1.console.source = s.console.source.fetch.2 ∧
    t.reset.1.console.source = t.console.source.fetch.2 ∧
    (∀ program, s.console.source.fetch.1 = .ok program → program.size ≤ 3584 →
      ∀ address < Memory.size, s.reset.1.console.machine.memory.read address =
        .ok (Memory.fresh program address)) ∧
    ((∀ n, t.console.source.result (n + 1) = s.console.source.result (n + 1)) →
      (∀ n, t.dice.ahead n = s.dice.ahead n) →
      ∀ history : History, (∀ o ∈ history, ¬ o.2.IsRun) →
        (s.reset.1.after history).console.Alike (t.reset.1.after history).console) := by
  obtain ⟨same, console⟩ := alike_reset dialect pace fetched
  refine ⟨same, console, s.source_reset, t.source_reset,
    fun program ok fits address => read_reset ok fits, ?_⟩
  intro later dice history single
  have twins : Twins s.reset.1 t.reset.1 := by
    refine ⟨console, ?_, ?_⟩
    · rw [source_reset, source_reset]
      exact later
    · simpa only [dice_reset] using dice
  exact (twins.after history single).console

def switching : Session :=
  (opening (.initial {}) ⟨.ok #[0x60, 0x05], [.ok #[0x12, 0x00]]⟩ .standard default).after
    [(.released, .reset), (.released, .togglePause)]

def unopened : Session := opening (.initial {}) (.ofProgram #[0x12, 0x00]) .standard default

theorem reset_forgets_history_switching :
    switching.console.loaded = true ∧ switching.console.paused = true ∧
    unopened.console.loaded = false ∧ unopened.console.paused = false ∧
    switching.reset.1.console.Alike unopened.reset.1.console ∧
    switching.reset.1.console.machine.memory.read 0x200 = .ok 0x12 ∧
    let later := [(.released, .advance 40000000), (.released, .apply .reset)]
    (switching.reset.1.after later).console.Alike (unopened.reset.1.after later).console := by
  have dialect : switching.console.machine.dialect = {} := rfl
  have source : switching.console.source = .ofProgram #[0x12, 0x00] := rfl
  obtain ⟨-, alike, -, -, memory, after⟩ :=
    reset_forgets_history (s := switching) (t := unopened) dialect.symm rfl rfl
  refine ⟨rfl, rfl, rfl, rfl, alike, memory _ rfl (by decide) 0x200 (by decide), after ?_ ?_ _ ?_⟩
  · rw [source]
    exact fun _ => rfl
  · exact fun _ => rfl
  · simp [Operation.IsRun]

end Session

end Chip8
