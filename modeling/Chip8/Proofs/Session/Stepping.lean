import Chip8.Proofs.Machine.Alterations
import Chip8.Proofs.Session.Spans
import Chip8.Proofs.Session.Standby

namespace Chip8

namespace Run

def cycles (r : Run) (keys : List Keypad) : Run := keys.foldl (fun r keys => (r.step keys).1) r

theorem cycles_replicate (r : Run) (keys : Keypad) (count : Nat) :
    r.cycles (List.replicate count keys) = r.batch keys count := by
  induction count generalizing r with
  | zero => rfl
  | succ count ih => exact ih (r.step keys).1

end Run

inductive Nudge : Type
  | start : Nudge
  | step : Nudge
  | advance : (span : Nat) → Nudge
  deriving DecidableEq, Repr

namespace Nudge

def operation : Nudge → Operation
  | .start => .start
  | .step => .step
  | .advance span => .advance span

def stepKeys (ns : List (Keypad × Nudge)) : List Keypad := (ns.filter (·.2 = .step)).map Prod.fst

theorem stepKeys_eq_replicate {ns : List (Keypad × Nudge)} {keys : Keypad}
    (same : ∀ k ∈ stepKeys ns, k = keys) :
    stepKeys ns = List.replicate (ns.countP (·.2 = .step)) keys := by
  rw [List.eq_replicate_iff.2 ⟨rfl, same⟩, stepKeys, List.length_map, List.countP_eq_length_filter]

end Nudge

namespace Session

def nudged (s : Session) (ns : List (Keypad × Nudge)) : Session :=
  s.after (ns.map fun n => (n.1, n.2.operation))

/-- The machine of the session is that of the run except for the redraw mark, and the same random bytes
are to come. -/
structure Meets (s : Session) (r : Run) : Prop where
  machine : s.console.machine.marked = r.machine.marked
  dice : s.dice = r.dice

variable {s : Session} {r : Run}

theorem Meets.present (h : s.Meets r) : s.present.Meets r where
  machine := by
    rw [console_present]
    exact h.machine
  dice := by rw [dice_present, h.dice]

theorem Meets.step (h : s.Meets r) (loaded : s.console.loaded = true) (keys : Keypad) :
    (s.step keys).Meets (r.step keys).1 := by
  have cycled : (s.cycles keys 1).Meets (r.step keys).1 := by
    refine ⟨?_, congrArg Dice.next h.dice⟩
    -- nothing but the redraw mark is different, which no instruction looks at
    have here := s.console.machine.step_marked ⟨keys, r.dice.top⟩
    have there := r.machine.step_marked ⟨keys, r.dice.top⟩
    rw [h.machine] at here
    change (s.console.machine.step ⟨keys, s.dice.top⟩).machine.marked = _
    rw [h.dice]
    exact (congrArg Outcome.machine (here.symm.trans there) :)
  rw [Session.step, if_pos loaded]
  exact cycled.present

theorem Meets.resume (h : s.Meets r) (loaded : s.console.loaded = true) : s.resume.Meets r where
  machine := by
    rw [console_resume, if_pos loaded]
    exact h.present.machine
  dice := by rw [dice_resume, h.dice]

theorem SameControls.resume (running : s.console.running = true) (loaded : s.console.loaded = true) :
    SameControls s s.resume := by
  constructor <;> simp [console_resume, loaded, running]

theorem controls_togglePause (s : Session) :
    s.togglePause.console.loaded = s.console.loaded ∧
    s.togglePause.console.running = s.console.running ∧
    s.togglePause.console.paused = !s.console.paused ∧
    s.togglePause.console.pace = s.console.pace ∧
    s.togglePause.console.clock = s.console.clock := by simp

theorem meets_nudged (h : s.Meets r) (loaded : s.console.loaded = true)
    (running : s.console.running = true) (paused : s.console.paused = true)
    (ns : List (Keypad × Nudge)) :
    (s.nudged ns).Meets (r.cycles (Nudge.stepKeys ns)) ∧ SameControls s (s.nudged ns) := by
  induction ns generalizing s r with
  | nil => exact ⟨h, .refl s⟩
  | cons n ns ih =>
    obtain ⟨keys, n⟩ := n
    cases n with
    | start =>
      have same := SameControls.resume running loaded
      have rest := ih (h.resume loaded) (same.loaded.trans loaded) (same.running.trans running)
        (same.paused.trans paused)
      exact ⟨rest.1, same.trans rest.2⟩
    | step =>
      have same := SameControls.step s keys
      have rest := ih (h.step loaded keys) (same.loaded.trans loaded) (same.running.trans running)
        (same.paused.trans paused)
      exact ⟨rest.1, same.trans rest.2⟩
    | advance span =>
      have asleep : s.awake = false := by simp [awake, paused]
      have still : s.operate keys (.advance span) = s := advance_of_not_awake asleep keys span
      rw [nudged, List.map_cons, after, List.foldl_cons, Nudge.operation, still]
      exact ih h loaded running paused

/-- A paused session may be started, stepped and given time in any order. Except for the redraw mark it
comes to where its steps lead in one run, which is a batch if the same keys are held throughout, and its
controls stay as they are. When the pause ends, the ticks and batches fall due that were to follow when it
began: what was over of their periods then still counts. -/
theorem stepping_agrees_with_batch (reachable : s.Reachable) (loaded : s.console.loaded = true)
    (paused : s.console.paused = true) (ns : List (Keypad × Nudge)) :
    let t := s.nudged ns
    let begun : Run := ⟨s.console.machine, s.dice, #[]⟩
    let done := begun.cycles (Nudge.stepKeys ns)
    t.console.machine = { done.machine with redraw := t.console.machine.redraw } ∧
    t.dice = done.dice ∧
    (∀ keys, (∀ k ∈ Nudge.stepKeys ns, k = keys) →
      done = begun.batch keys (ns.countP (·.2 = .step))) ∧
    SameControls s t ∧ t.console.running = true ∧
    ∀ keys span, ∃ agenda, s.console.clock.Planned s.console.pace span agenda ∧
      t.togglePause.advance keys span =
        ((agenda.map (·.beat)).foldl (beat keys) t.togglePause).reclock
          (s.console.clock.later s.console.pace span) := by
  intro t begun done
  have running := reachable.running.trans loaded
  obtain ⟨meets, same⟩ := meets_nudged (r := begun) ⟨rfl, rfl⟩ loaded running paused ns
  refine ⟨?_, meets.dice, fun keys held => ?_, same, same.running.trans running, fun keys span => ?_⟩
  · exact (congrArg (fun m => { m with redraw := t.console.machine.redraw }) meets.machine :)
  · rw [← Run.cycles_replicate, ← Nudge.stepKeys_eq_replicate held]
  · obtain ⟨-, runs, pause, pace, clock⟩ := t.controls_togglePause
    rw [same.pace] at pace
    rw [same.clock] at clock
    have awake : t.togglePause.awake = true := by
      rw [Session.awake, runs, pause, same.running, same.paused, running, paused]
      rfl
    have within : t.togglePause.console.clock.Within t.togglePause.console.pace := by
      rw [clock, pace]
      exact reachable.within
    obtain ⟨agenda, planned, advanced⟩ := exists_planned_advance awake within keys span
    rw [clock, pace] at planned advanced
    exact ⟨agenda, planned, advanced⟩

def astray : Session :=
  (opening (.initial {}) (.ofProgram #[0x00, 0xE0, 0x00, 0xEE]) .standard default).after
    [(.released, .reset)]

def suspended : Session := astray.after [(.released, .advance 7000000), (.released, .togglePause)]

def hesitant : List (Keypad × Nudge) :=
  [(.released, .step), (.released, .advance 50000000), (.released, .start), (.released, .step)]

theorem stepping_agrees_with_batch_suspended :
    suspended.Reachable ∧ suspended.console.loaded = true ∧ suspended.console.paused = true ∧
    (suspended.nudged hesitant).console.machine = { (Run.batch .released 2
      ⟨suspended.console.machine, suspended.dice, #[]⟩).machine with
        redraw := (suspended.nudged hesitant).console.machine.redraw } ∧
    (suspended.nudged hesitant).console.clock = ⟨7000000, 7000000⟩ ∧
    ((suspended.nudged hesitant).togglePause.advance .released 13000000).console.clock =
      ⟨3333334, 0⟩ := by
  have started : astray.Reachable := ⟨_, _, _, _, _, rfl⟩
  have begun : suspended = (astray.advance .released 7000000).togglePause := by
    simp only [suspended, after, List.foldl_cons, List.foldl_nil, operate]
  obtain ⟨load, -, pause, pace, clock⟩ := (astray.advance .released 7000000).controls_togglePause
  rw [← begun] at load pause pace clock
  have passed : (astray.advance .released 7000000).console.clock = ⟨7000000, 7000000⟩ := by
    obtain ⟨_, -, advanced⟩ := exists_planned_advance (s := astray) rfl started.within .released 7000000
    rw [advanced]
    rfl
  have clock : suspended.console.clock = ⟨7000000, 7000000⟩ := clock.trans passed
  have pace : suspended.console.pace = .standard := pace.trans (pace_advance astray _ _)
  have reachable : suspended.Reachable := started.after _
  have loaded : suspended.console.loaded = true := load.trans (loaded_advance astray _ _)
  have paused : suspended.console.paused = true := by
    rw [pause, paused_advance]
    rfl
  obtain ⟨machine, -, batch, same, -, resumed⟩ :=
    stepping_agrees_with_batch reachable loaded paused hesitant
  have done := batch .released (by decide)
  obtain ⟨agenda, -, advanced⟩ := resumed .released 13000000
  refine ⟨reachable, loaded, paused, ?_, same.clock.trans clock, ?_⟩
  · rw [done] at machine
    exact machine
  · rw [advanced, clock, pace]
    rfl

end Session

end Chip8
