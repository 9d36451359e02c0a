import Chip8.Proofs.Machine.Loading
import Chip8.Proofs.Session.Resets

namespace Chip8

def Fetch.fits : Fetch → Bool
  | .ok program => program.size ≤ 3584
  | .error _ => false

/-- The machine is as at power-on, except that its screen may have been shown and that a program may
have been refused. -/
structure Machine.PowerOn (m : Machine) : Prop where
  memory : m.memory = .initial
  registers : m.registers = Vector.replicate 16 0
  index : m.index = 0
  pc : m.pc = 0x200
  stack : m.stack = []
  delay : m.delay = 0
  sound : m.sound = 0
  screen : m.screen = .blank
  fault : m.lastFault = none ∨ ∃ size, 3584 < size ∧ m.lastFault = some (.programTooLarge size 3584)

def Operation.Idle : Operation → Prop
  | .start => True
  | .togglePause => True
  | .step => True
  | .advance _ => True
  | .apply c => c ≠ .reset
  | .reset => False
  | .changeSource _ => False
  | .run _ _ => False

namespace Machine.PowerOn

variable {m : Machine}

theorem reset (m : Machine) : m.reset.PowerOn where
  memory := rfl
  registers := rfl
  index := rfl
  pc := rfl
  stack := rfl
  delay := rfl
  sound := rfl
  screen := rfl
  fault := .inl rfl

theorem takeRedraw (h : m.PowerOn) : m.takeRedraw.2.PowerOn := { h with }

theorem refuse (h : m.PowerOn) {program : Array UInt8} (large : 3584 < program.size) :
    (m.load program).machine.PowerOn := by
  rw [load_of_lt large]
  exact { h with fault := .inr ⟨_, large, rfl⟩ }

end Machine.PowerOn

namespace Session

structure Settled (s : Session) : Prop where
  running : s.console.running = s.console.loaded
  powerOn : s.console.loaded = false → s.console.machine.PowerOn

variable {s : Session}

theorem Settled.not_awake (h : s.Settled) (unloaded : s.console.loaded = false) :
    s.awake = false := by
  rw [awake, h.running, unloaded, Bool.false_and]

theorem running_advance (s : Session) (keys : Keypad) (span : Nat) :
    (s.advance keys span).console.running = s.console.running := by
  obtain ⟨_, same⟩ := SameControls.advance s keys span
  exact same.running

theorem loaded_advance (s : Session) (keys : Keypad) (span : Nat) :
    (s.advance keys span).console.loaded = s.console.loaded := by
  obtain ⟨_, same⟩ := SameControls.advance s keys span
  exact same.loaded

theorem kept_running : Kept fun s => s.console.running = s.console.loaded where
  note _ _ h := h
  quit _ h := h
  source _ _ h := h
  resume s h := by
    rw [console_resume]
    split
    · next loaded => simp [loaded]
    · exact h
  togglePause s h := by simpa using h
  step s keys h := by
    have same := SameControls.step s keys
    rw [same.running, same.loaded, h]
  advance s keys span h := by rw [running_advance, loaded_advance, h]
  clear s _ := by simp
  insert s program h := by
    rcases s.console_insert program with ⟨-, hc⟩ | ⟨-, hc⟩
    · simp [hc]
    · rwa [hc]

theorem Reachable.running (h : s.Reachable) : s.console.running = s.console.loaded :=
  kept_running.reachable (fun _ _ _ _ => rfl) h

theorem kept_settled : Kept Settled where
  note _ _ h := ⟨h.running, h.powerOn⟩
  quit _ h := ⟨h.running, h.powerOn⟩
  source _ _ h := ⟨h.running, h.powerOn⟩
  resume s h := by
    refine ⟨kept_running.resume s h.running, ?_⟩
    rw [console_resume]
    split
    · next loaded => simp [loaded]
    · exact h.powerOn
  togglePause s h := by
    refine ⟨kept_running.togglePause s h.running, ?_⟩
    simpa using fun unloaded => (h.powerOn unloaded).takeRedraw
  step s keys h := by
    refine ⟨kept_running.step s keys h.running, fun unloaded => ?_⟩
    rw [(SameControls.step s keys).loaded] at unloaded
    rw [step, unloaded]
    exact h.powerOn unloaded
  advance s keys span h := by
    refine ⟨kept_running.advance s keys span h.running, fun unloaded => ?_⟩
    rw [loaded_advance] at unloaded
    rw [advance_of_not_awake (h.not_awake unloaded)]
    exact h.powerOn unloaded
  clear s h := by
    refine ⟨kept_running.clear s h.running, ?_⟩
    simpa using (Machine.PowerOn.reset s.console.machine).takeRedraw
  insert s program h := by
    refine ⟨kept_running.insert s program h.running, ?_⟩
    rcases s.console_insert program with ⟨-, hc⟩ | ⟨fault, hc⟩
    · simp [hc]
    · rw [Ne, Machine.fault_load_eq_none_iff] at fault
      rw [hc]
      exact fun unloaded => ((h.powerOn unloaded).refuse (by omega)).takeRedraw

theorem settled_opening (dialect : Dialect) (source : ProgramSource) (pace : Pace) (dice : Dice) :
    (opening (.initial dialect) source pace dice).Settled :=
  ⟨rfl, fun _ => .reset (.initial dialect)⟩

structure Standby (m : Machine) (s : Session) : Prop where
  settled : s.Settled
  unloaded : s.console.loaded = false
  machine : s.console.machine = { m with redraw := s.console.machine.redraw }

namespace Standby

variable {m : Machine}

theorem note (h : s.Standby m) (n : Note) : (s.note n).Standby m :=
  ⟨kept_settled.note s n h.settled, h.unloaded, h.machine⟩

theorem quit (h : s.Standby m) :
    Standby m { s with console := { s.console with quitting := true } } :=
  ⟨kept_settled.quit s h.settled, h.unloaded, h.machine⟩

theorem resume (h : s.Standby m) : s.resume.Standby m := by
  simp only [Session.resume, h.unloaded]
  exact h.note _

theorem togglePause (h : s.Standby m) : s.togglePause.Standby m where
  settled := kept_settled.togglePause s h.settled
  unloaded := by simpa using h.unloaded
  machine := by
    rw [console_togglePause, Machine.takeRedraw, h.machine]

theorem step (h : s.Standby m) (keys : Keypad) : (s.step keys).Standby m := by
  simp only [Session.step, h.unloaded]
  exact h.note _

theorem advance (h : s.Standby m) (keys : Keypad) (span : Nat) :
    (s.advance keys span).Standby m := by
  rwa [advance_of_not_awake (h.settled.not_awake h.unloaded)]

theorem apply (h : s.Standby m) (keys : Keypad) {c : Command} (idle : c ≠ .reset) :
    (s.apply keys c).1.Standby m := by
  have hn := h.note (.gotCommand c)
  cases c with
  | start => exact hn.resume
  | togglePause => exact hn.togglePause
  | reset => exact absurd rfl idle
  | step => exact hn.step keys
  | quit => exact hn.quit

theorem operate (h : s.Standby m) (keys : Keypad) {o : Operation} (idle : o.Idle) :
    (s.operate keys o).Standby m := by
  cases o with
  | start => exact h.resume
  | togglePause => exact h.togglePause
  | step => exact h.step keys
  | advance span => exact h.advance keys span
  | apply c => exact h.apply keys idle
  | reset => exact idle.elim
  | changeSource source => exact idle.elim
  | run last turns => exact idle.elim

theorem after (h : s.Standby m) (history : History) (idle : ∀ o ∈ history, o.2.Idle) :
    (s.after history).Standby m := by
  induction history generalizing s with
  | nil => exact h
  | cons o history ih =>
    rw [List.forall_mem_cons] at idle
    exact ih (h.operate o.1 idle.1) idle.2

end Standby

def commandFetches (s : Session) (c : Command) : List Fetch :=
  if c = .reset then [s.console.source.fetch.1] else []

def turnFetches (keys : Keypad) (s : Session) : List Command → List Fetch
  | [] => []
  | c :: cs => s.commandFetches c ++ (s.obey keys c).turnFetches keys cs

def runFetches (s : Session) (last : Nat) (turns : List Turn) : List Fetch :=
  if s.console.quitting then []
  else match turns with
    | [] => []
    | t :: ts => s.turnFetches t.keys t.received ++ (s.turn last t).runFetches t.now ts

def fetches (s : Session) : Operation → List Fetch
  | .reset => [s.console.source.fetch.1]
  | .changeSource source => [source.fetch.1]
  | .apply c => s.commandFetches c
  | .run last turns => s.runFetches last turns
  | _ => []

/-- Whether a session runs after some fetches, if none of them leaves it as it was. -/
def decided (before : Bool) (fetched : List Fetch) : Bool :=
  (fetched.getLast?.map Fetch.fits).getD before

theorem decided_append (before : Bool) (fs gs : List Fetch) :
    decided before (fs ++ gs) = decided (decided before fs) gs := by
  simp only [decided, List.getLast?_append]
  cases gs.getLast? <;> rfl

theorem running_resume (h : s.Settled) : s.resume.console.running = s.console.running := by
  rw [console_resume]
  split
  · next loaded => rw [h.running, loaded]
  · rfl

theorem running_refetched (s : Session) : s.refetched.console.running = false := by
  rw [refetched, console_clear]

theorem running_reset (s : Session) :
    s.reset.1.console.running = s.console.source.fetch.1.fits := by
  cases fetched : s.console.source.fetch.1 with
  | ok program =>
    rw [reset_eq, fetched]
    rcases s.refetched.console_insert program with ⟨fault, hc⟩ | ⟨fault, hc⟩
    · rw [Machine.fault_load_eq_none_iff] at fault
      simp [hc, Fetch.fits, fault]
    · rw [Ne, Machine.fault_load_eq_none_iff] at fault
      simp [hc, Fetch.fits, fault, running_refetched]
  | error e =>
    rw [reset_eq, fetched]
    exact s.running_refetched

theorem running_apply (h : s.Settled) (keys : Keypad) (c : Command) :
    (s.apply keys c).1.console.running = decided s.console.running (s.commandFetches c) := by
  have hn := kept_settled.note s (.gotCommand c) h
  cases c with
  | start => exact running_resume hn
  | togglePause => simp [apply, decided, commandFetches]
  | reset => exact running_reset (s.note _)
  | step => exact (SameControls.step (s.note _) keys).running
  | quit => rfl

theorem running_obeyAll (h : s.Settled) (keys : Keypad) (cs : List Command) :
    (cs.foldl (obey keys) s).console.running =
      decided s.console.running (s.turnFetches keys cs) := by
  induction cs generalizing s with
  | nil => rfl
  | cons c cs ih =>
    rw [List.foldl_cons, ih (kept_settled.obey s keys c h), (s.obey_eq keys c).1, running_apply h,
      turnFetches, decided_append]

theorem running_turn (h : s.Settled) (last : Nat) (t : Turn) :
    (s.turn last t).console.running = decided s.console.running (s.turnFetches t.keys t.received) := by
  rw [turn, running_advance, ← running_obeyAll h]
  split <;> rfl

theorem running_run (h : s.Settled) (last : Nat) (turns : List Turn) :
    (s.run last turns).console.running = decided s.console.running (s.runFetches last turns) := by
  induction turns generalizing s last with
  | nil =>
    rw [run, runFetches]
    split <;> rfl
  | cons t turns ih =>
    rw [run, runFetches]
    split
    · rfl
    · rw [ih (kept_settled.turn last s t h), running_turn h, decided_append]

theorem running_operate (h : s.Settled) (keys : Keypad) (o : Operation) :
    (s.operate keys o).console.running = decided s.console.running (s.fetches o) := by
  cases o with
  | start => exact running_resume h
  | togglePause => simp [operate, decided, fetches]
  | step => exact (SameControls.step s keys).running
  | advance span => exact s.running_advance keys span
  | apply c => exact running_apply h keys c
  | reset => exact s.running_reset
  | changeSource source => exact running_reset { s with console := { s.console with source } }
  | run last turns => exact running_run h last turns

/-- A session runs if and only if a program is loaded. While there is none, the machine is as at
power-on, and nothing but a fetch changes more of it than the redraw mark. An operation that fetches
lets the session run if the last fetch gave a program that fits, and stops it otherwise; all others
leave it running or not. -/
theorem standby_until_program_fits (dialect : Dialect) (source : ProgramSource) (pace : Pace)
    (dice : Dice) (history : History) :
    let s := (opening (.initial dialect) source pace dice).after history
    s.console.running = s.console.loaded ∧
    (s.console.loaded = false → s.console.machine.PowerOn ∧
      ∀ idle : History, (∀ o ∈ idle, o.2.Idle) →
        (s.after idle).console.loaded = false ∧
        (s.after idle).console.machine =
          { s.console.machine with redraw := (s.after idle).console.machine.redraw }) ∧
    ∀ keys o, (s.operate keys o).console.running =
      ((s.fetches o).getLast?.map Fetch.fits).getD s.console.running := by
  intro s
  have h : s.Settled := kept_settled.after _ history (settled_opening dialect source pace dice)
  refine ⟨h.running, fun unloaded => ⟨h.powerOn unloaded, fun idle hidle => ?_⟩,
    fun keys o => running_operate h keys o⟩
  have standby : s.Standby s.console.machine := ⟨h, unloaded, rfl⟩
  have after := standby.after idle hidle
  exact ⟨after.unloaded, after.machine⟩

theorem standby_until_program_fits_missing :
    let s := (opening (.initial {}) ⟨.error .missingFile, [.ok #[0x12, 0x00]]⟩ .standard default).after
      [(.released, .reset)]
    s.console.loaded = false ∧ s.console.machine.PowerOn ∧
    (s.after [(.released, .start), (.released, .step), (.released, .advance 40000000)]).console.loaded
      = false ∧
    (s.operate .released .start).console.running = false ∧
    (s.operate .released (.apply .reset)).console.running = true := by
  intro s
  obtain ⟨-, idle, running⟩ := standby_until_program_fits {}
    ⟨.error .missingFile, [.ok #[0x12, 0x00]]⟩ .standard default [(.released, .reset)]
  obtain ⟨powerOn, after⟩ := idle rfl
  refine ⟨rfl, powerOn, (after _ ?_).1, running .released .start, running .released (.apply .reset)⟩
  simp [Operation.Idle]

end Session

end Chip8
