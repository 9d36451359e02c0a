import Chip8.Proofs.Machine.Sprites
import Chip8.Proofs.Session.Beats
import Chip8.Proofs.Session.Display
import Chip8.Proofs.Session.Resets
/-!
# The agenda of a session

While a session runs, the beats of its two streams fall due at fixed times. An agenda lists them in
order, and letting time pass carries out exactly the agenda.
-/

namespace Chip8

structure Appointment where
  time : Nat
  beat : Beat
  deriving DecidableEq

namespace Appointment

def Before (a b : Appointment) : Prop :=
  a.time < b.time ∨ a.time = b.time ∧ a.beat = .tick ∧ b.beat = .batch

def delay (u : Nat) (a : Appointment) : Appointment := { a with time := a.time + u }

def times (b : Beat) (agenda : List Appointment) : List Nat :=
  (agenda.filter (·.beat = b)).map (·.time)

@[simp] theorem times_append (b : Beat) (l r : List Appointment) :
    times b (l ++ r) = times b l ++ times b r := by
  simp [times]

@[simp] theorem times_delay (b : Beat) (u : Nat) (agenda : List Appointment) :
    times b (agenda.map (delay u)) = (times b agenda).map (· + u) := by
  induction agenda with
  | nil => rfl
  | cons a agenda ih =>
    by_cases h : a.beat = b
    · simp only [times] at ih
      simp [times, delay, h, ih]
    · simp only [times] at ih
      simp [times, delay, h, ih]

theorem Before.delay {a b : Appointment} (h : a.Before b) (u : Nat) :
    (a.delay u).Before (b.delay u) := by
  rcases h with earlier | ⟨same, beats⟩
  · exact .inl (Nat.add_lt_add_right earlier u)
  · exact .inr ⟨congrArg (· + u) same, beats⟩

theorem Before.asymm {a b : Appointment} (h : a.Before b) : ¬ b.Before a := by
  rcases h with earlier | ⟨same, tick, batch⟩
  · rintro (later | ⟨same, -⟩) <;> omega
  · rintro (later | ⟨-, tick', -⟩)
    · omega
    · cases batch.symm.trans tick'

theorem perm_times (agenda : List Appointment) :
    List.Perm ((times .tick agenda).map (Appointment.mk · .tick) ++
      (times .batch agenda).map (Appointment.mk · .batch)) agenda := by
  have stream (b : Beat) : (times b agenda).map (Appointment.mk · b) = agenda.filter (·.beat = b) := by
    rw [times, List.map_map]
    refine (List.map_congr_left fun a ha => ?_).trans (List.map_id _)
    have same : a.beat = b := of_decide_eq_true (List.mem_filter.1 ha).2
    simp [← same]
  have other : (fun a : Appointment => !decide (a.beat = .tick)) = fun a => decide (a.beat = .batch) := by
    funext a
    cases a.beat <;> rfl
  rw [stream, stream, ← other]
  exact List.filter_append_perm _ _

theorem eq_of_times {as bs : List Appointment} (tick : times .tick as = times .tick bs)
    (batch : times .batch as = times .batch bs) (has : as.Pairwise Before) (hbs : bs.Pairwise Before) :
    as = bs := by
  have perm := perm_times as
  rw [tick, batch] at perm
  exact (perm.symm.trans (perm_times bs)).eq_of_pairwise
    (fun _ _ _ _ before after => absurd after before.asymm) has hbs

theorem mem_times (a : Appointment) {agenda : List Appointment} (h : a ∈ agenda) :
    a.time ∈ times a.beat agenda := by
  apply List.mem_map_of_mem
  simp [h]

end Appointment

namespace Clock

structure Within (pace : Pace) (c : Clock) : Prop where
  tick : c.sinceTick < pace.tickPeriod
  batch : c.sinceBatch < pace.batchPeriod

def dues (period since span : Nat) : List Nat :=
  (List.range ((since + span) / period)).map fun i => (i + 1) * period - since

theorem dues_of_lt {period since span : Nat} (h : since + span < period) :
    dues period since span = [] := by
  simp [dues, Nat.div_eq_of_lt h]

theorem dues_eq_map {period since span u : Nat} (hu : u ≤ span) (h : since + u < period) :
    dues period since span = (dues period (since + u) (span - u)).map (· + u) := by
  simp only [dues, List.map_map]
  rw [show since + u + (span - u) = since + span by omega]
  apply List.map_congr_left
  intro i _
  have hi : period ≤ (i + 1) * period := Nat.le_mul_of_pos_left period (by omega)
  simp only [Function.comp_apply]
  omega

theorem dues_eq_cons {period since span u : Nat} (hp : 0 < period) (hu : u ≤ span)
    (h : since + u = period) :
    dues period since span = u :: (dues period 0 (span - u)).map (· + u) := by
  have hd : (since + span) / period = (0 + (span - u)) / period + 1 := by
    rw [← Nat.add_div_right _ hp]
    congr 1
    omega
  simp only [dues, hd, List.range_succ_eq_map, List.map_cons, List.map_map]
  congr 1
  · omega
  · apply List.map_congr_left
    intro i _
    simp only [Function.comp_apply, Nat.succ_eq_add_one, Nat.succ_mul]
    omega

/-- If not more than the rest of the period passes, the stream falls due now or not at all, and
goes on from there. -/
theorem dues_split {period since span u : Nat} (hp : 0 < period) (hu : u ≤ span)
    (h : since + u ≤ period) :
    dues period since span = (if period ≤ since + u then [u] else [])
      ++ (dues period (if period ≤ since + u then since + u - period else since + u)
        (span - u)).map (· + u) := by
  by_cases due : period ≤ since + u
  · have he : since + u = period := by omega
    simp [he, dues_eq_cons hp hu he]
  · simp only [due, if_false, List.nil_append]
    exact dues_eq_map hu (by omega)

theorem restart_lt {period since u : Nat} (hp : 0 < period) (h : since + u ≤ period) :
    (if period ≤ since + u then since + u - period else since + u) < period := by
  split <;> omega

theorem pos_of_mem_dues {period since span t : Nat} (h : since < period)
    (ht : t ∈ dues period since span) : 0 < t := by
  obtain ⟨i, -, rfl⟩ := List.mem_map.1 ht
  have hi : period ≤ (i + 1) * period := Nat.le_mul_of_pos_left period (by omega)
  omega

variable {pace : Pace} {c : Clock} {span : Nat}

/-- The beats that fall due within `span`, each at its time and in their order. -/
structure Planned (pace : Pace) (c : Clock) (span : Nat) (agenda : List Appointment) : Prop where
  ticks : Appointment.times .tick agenda = dues pace.tickPeriod c.sinceTick span
  batches : Appointment.times .batch agenda = dues pace.batchPeriod c.sinceBatch span
  ordered : agenda.Pairwise Appointment.Before

theorem Planned.time_pos (h : c.Within pace) {agenda : List Appointment}
    (p : Planned pace c span agenda) {a : Appointment} (ha : a ∈ agenda) : 0 < a.time := by
  have ht := Appointment.mem_times a ha
  cases hb : a.beat with
  | tick =>
    rw [hb, p.ticks] at ht
    exact pos_of_mem_dues h.tick ht
  | batch =>
    rw [hb, p.batches] at ht
    exact pos_of_mem_dues h.batch ht

theorem planned_nil (h : span < c.untilNext pace) : Planned pace c span [] := by
  simp only [untilNext] at h
  constructor
  · exact (dues_of_lt (by omega)).symm
  · exact (dues_of_lt (by omega)).symm
  · exact .nil

def next (c : Clock) (pace : Pace) : Clock := (c.wait (c.untilNext pace)).settle pace

def nextBeats (c : Clock) (pace : Pace) : List Beat := (c.wait (c.untilNext pace)).due pace

theorem Within.tick_le (h : c.Within pace) :
    c.sinceTick + c.untilNext pace ≤ pace.tickPeriod := by
  have ht := h.tick
  simp only [untilNext]
  omega

theorem Within.batch_le (h : c.Within pace) :
    c.sinceBatch + c.untilNext pace ≤ pace.batchPeriod := by
  have hb := h.batch
  simp only [untilNext]
  omega

theorem Within.next (h : c.Within pace) : (c.next pace).Within pace where
  tick := restart_lt pace.tickRate.period_pos h.tick_le
  batch := restart_lt pace.batchRate.period_pos h.batch_le

theorem times_nextBeats (c : Clock) (pace : Pace) (u : Nat) :
    Appointment.times .tick ((c.nextBeats pace).map (⟨u, ·⟩))
        = (if pace.tickPeriod ≤ c.sinceTick + c.untilNext pace then [u] else [])
      ∧ Appointment.times .batch ((c.nextBeats pace).map (⟨u, ·⟩))
        = (if pace.batchPeriod ≤ c.sinceBatch + c.untilNext pace then [u] else []) := by
  by_cases tick : pace.tickPeriod ≤ c.sinceTick + c.untilNext pace <;>
    by_cases batch : pace.batchPeriod ≤ c.sinceBatch + c.untilNext pace <;>
    simp [Appointment.times, nextBeats, due, wait, tick, batch]

theorem before_nextBeats (c : Clock) (pace : Pace) (u : Nat) :
    ((c.nextBeats pace).map (⟨u, ·⟩)).Pairwise Appointment.Before := by
  by_cases tick : pace.tickPeriod ≤ c.sinceTick + c.untilNext pace <;>
    by_cases batch : pace.batchPeriod ≤ c.sinceBatch + c.untilNext pace <;>
    simp [Appointment.Before, nextBeats, due, wait, tick, batch]

theorem planned_next (h : c.Within pace) (hs : c.untilNext pace ≤ span) {agenda : List Appointment}
    (p : Planned pace (c.next pace) (span - c.untilNext pace) agenda) :
    Planned pace c span ((c.nextBeats pace).map (⟨c.untilNext pace, ·⟩)
      ++ agenda.map (Appointment.delay (c.untilNext pace))) := by
  constructor
  · rw [Appointment.times_append, Appointment.times_delay, p.ticks, (c.times_nextBeats pace _).1]
    exact (dues_split pace.tickRate.period_pos hs h.tick_le).symm
  · rw [Appointment.times_append, Appointment.times_delay, p.batches, (c.times_nextBeats pace _).2]
    exact (dues_split pace.batchRate.period_pos hs h.batch_le).symm
  · rw [List.pairwise_append]
    refine ⟨?_, ?_, ?_⟩
    · exact c.before_nextBeats pace _
    · rw [List.pairwise_map]
      exact p.ordered.imp fun hab => hab.delay _
    · intro a ha b hb
      obtain ⟨beat, -, rfl⟩ := List.mem_map.1 ha
      obtain ⟨d, hd, rfl⟩ := List.mem_map.1 hb
      -- what falls due later does so after a positive time
      have hd := p.time_pos h.next hd
      left
      simp only [Appointment.delay]
      omega

def later (c : Clock) (pace : Pace) (span : Nat) : Clock :=
  ⟨(c.sinceTick + span) % pace.tickPeriod, (c.sinceBatch + span) % pace.batchPeriod⟩

theorem within_later (c : Clock) (pace : Pace) (span : Nat) : (c.later pace span).Within pace where
  tick := Nat.mod_lt _ pace.tickRate.period_pos
  batch := Nat.mod_lt _ pace.batchRate.period_pos

theorem restart_mod {period since span u : Nat} (hu : u ≤ span) :
    ((if period ≤ since + u then since + u - period else since + u) + (span - u)) % period
      = (since + span) % period := by
  split
  · rw [← Nat.add_mod_right]
    congr 1
    omega
  · congr 1
    omega

theorem later_next (hs : c.untilNext pace ≤ span) :
    (c.next pace).later pace (span - c.untilNext pace) = c.later pace span := by
  simp only [later, mk.injEq]
  exact ⟨restart_mod hs, restart_mod hs⟩

theorem later_of_lt (h : span < c.untilNext pace) : c.later pace span = c.wait span := by
  simp only [untilNext] at h
  simp only [later, wait, mk.injEq]
  exact ⟨Nat.mod_eq_of_lt (by omega), Nat.mod_eq_of_lt (by omega)⟩

theorem pass_of_lt (h : span < c.untilNext pace) (beats : Array Beat) :
    pass pace c span beats = (c.wait span, beats) := by
  rw [pass, if_pos h]

theorem pass_of_le (h : c.untilNext pace ≤ span) (beats : Array Beat) :
    pass pace c span beats
      = pass pace (c.next pace) (span - c.untilNext pace) (beats ++ c.nextBeats pace) := by
  rw [pass, if_neg (by omega)]
  rfl

/-- Letting time pass gives the beats of an agenda, in its order. -/
theorem exists_planned_pass (h : c.Within pace) (span : Nat) (beats : Array Beat) :
    ∃ agenda, Planned pace c span agenda ∧
      c.pass pace span beats = (c.later pace span, beats ++ agenda.map (·.beat)) := by
  fun_induction pass pace c span beats with
  | case1 c span beats lt =>
    refine ⟨[], planned_nil lt, ?_⟩
    simp [later_of_lt lt]
  | case2 c span beats ge now ih =>
    have hs : c.untilNext pace ≤ span := by omega
    obtain ⟨agenda, planned, passed⟩ := ih h.next
    refine ⟨_, planned_next h hs planned, passed.trans ?_⟩
    change ((c.next pace).later pace _, beats ++ c.nextBeats pace ++ agenda.map (·.beat)) = _
    rw [later_next hs]
    congr 1
    apply Array.toList_inj.1
    simp [Appointment.delay, Function.comp_def]

end Clock

namespace Session

theorem within_of_clock_eq {s : Session} (h : s.console.clock = {}) :
    s.console.clock.Within s.console.pace := by
  rw [h]
  exact ⟨s.console.pace.tickRate.period_pos, s.console.pace.batchRate.period_pos⟩

theorem SameControls.within {s t : Session} (h : SameControls s t)
    (hs : s.console.clock.Within s.console.pace) : t.console.clock.Within t.console.pace := by
  rwa [h.clock, h.pace]

theorem exists_planned_advance {s : Session} (h : s.awake = true)
    (hw : s.console.clock.Within s.console.pace) (keys : Keypad) (span : Nat) :
    ∃ agenda, s.console.clock.Planned s.console.pace span agenda ∧
      s.advance keys span = ((agenda.map (·.beat)).foldl (beat keys) s).reclock
        (s.console.clock.later s.console.pace span) := by
  obtain ⟨agenda, planned, passed⟩ := Clock.exists_planned_pass hw span #[]
  refine ⟨agenda, planned, ?_⟩
  rw [advance_of_awake h, passed]
  simp

theorem kept_within : Kept fun s => s.console.clock.Within s.console.pace where
  note _ _ h := h
  quit _ h := h
  source _ _ h := h
  resume s h := by
    simp only [console_resume]
    split
    · simpa using h
    · exact h
  togglePause s h := by simpa using h
  step s keys h := (SameControls.step s keys).within h
  advance s keys span h := by
    cases awake : s.awake with
    | true =>
      obtain ⟨agenda, -, advanced⟩ := exists_planned_advance awake h keys span
      have hp := (SameControls.beats keys s (agenda.map (·.beat))).pace
      simp only [advanced, reclock, hp]
      exact Clock.within_later _ _ _
    | false => rwa [advance_of_not_awake awake]
  clear s _ := within_of_clock_eq (by simp)
  insert s program h := by
    rcases s.console_insert program with ⟨-, hc⟩ | ⟨-, hc⟩
    · rwa [hc]
    · rwa [hc]

theorem Reachable.within {s : Session} (h : s.Reachable) :
    s.console.clock.Within s.console.pace :=
  kept_within.reachable (fun _ _ _ _ => within_of_clock_eq rfl) h

/-- While the program runs, a span of time holds one tick for each tick period that ends in it and
one batch for each batch period. They take place in the order of their times, of two at the same
time the tick first: a tick counts both timers down, and a batch executes its instructions one after
the other and then hands out what is new. What is over of the periods stays on the clock. -/
theorem advance_follows_agenda {s : Session} (reachable : s.Reachable)
    (running : s.console.running = true) (awake : s.console.paused = false) (keys : Keypad)
    (span : Nat) :
    let pace := s.console.pace
    let clock := s.console.clock
    ∃ agenda : List Appointment,
      Appointment.times .tick agenda =
        (List.range ((clock.sinceTick + span) / pace.tickPeriod)).map
          (fun i => (i + 1) * pace.tickPeriod - clock.sinceTick) ∧
      Appointment.times .batch agenda =
        (List.range ((clock.sinceBatch + span) / pace.batchPeriod)).map
          (fun j => (j + 1) * pace.batchPeriod - clock.sinceBatch) ∧
      agenda.Pairwise Appointment.Before ∧
      s.advance keys span =
        let t := agenda.foldl (fun t a => match a.beat with
          | .tick => t.countDown
          | .batch => ((cycle keys)^[pace.batchSize] t).handOut) s
        { t with console := { t.console with clock :=
          ⟨(clock.sinceTick + span) % pace.tickPeriod,
            (clock.sinceBatch + span) % pace.batchPeriod⟩ } } := by
  intro pace clock
  have h : s.awake = true := by simp [Session.awake, running, awake]
  obtain ⟨agenda, planned, advanced⟩ := exists_planned_advance h reachable.within keys span
  refine ⟨agenda, planned.ticks, planned.batches, planned.ordered, ?_⟩
  rw [advanced, List.foldl_map, foldl_beat (fun _ => keys) Appointment.beat]
  rfl

/-- Counts in V0, draws a row of a glyph where the count says, and begins again. -/
def counter : Array UInt8 := #[0x70, 0x01, 0xD0, 0x01, 0x12, 0x00]

def counting : Session :=
  (opening (.initial {}) (.ofProgram counter) { Pace.standard with batchSize := 3 } default).after
    [(.released, .reset)]

end Session

namespace Machine

structure Counted (m : Machine) (pc : UInt16) (v : UInt8) : Prop where
  memory : m.memory.Holds Session.counter
  pc : m.pc = pc
  count : m.register 0 = v

namespace Counted

variable {m : Machine} {v : UInt8} (inputs : Inputs)

theorem add (h : m.Counted 0x200 v) : (m.step inputs).machine.Counted 0x202 (v + 1) := by
  have fetched : m.fetch = .ok (0x7001, .addConst 0 1) := fetch_of_holds h.memory h.pc (by decide)
  have executed : m.execute inputs (.addConst 0 1) =
      .ok { machine := { m with registers := m.registers.set 0 (v + 1) } } := by
    rw [execute, getV_of_lt (by decide), h.count]
    rfl
  rw [step_of_execute inputs fetched executed]
  refine ⟨h.memory, ?_, Vector.getElem_set_self (by decide)⟩
  exact (congrArg (· + 2) h.pc :)

theorem draw (h : m.Counted 0x202 v) :
    (m.step inputs).machine.Counted 0x204 v ∧ (m.step inputs).machine.redraw = true := by
  have fetched : m.fetch = .ok (0xD001, .draw 0 0 1) := fetch_of_holds h.memory h.pc (by decide)
  obtain ⟨o, lastFault, performed, drawn⟩ :=
    perform_draw (m := m) (x := 0) (y := 0) (n := 1) inputs (by decide) (by decide)
  rw [step_of_perform inputs fetched performed, drawn]
  refine ⟨⟨h.memory, (congrArg (· + 2) h.pc :), ?_⟩, rfl⟩
  rw [register_setFlag_of_lt (by decide)]
  exact h.count

theorem jump (h : m.Counted 0x204 v) : (m.step inputs).machine.Counted 0x200 v ∧
    (m.step inputs).machine.redraw = m.redraw := by
  have fetched : m.fetch = .ok (0x1200, .jump 0x200) := fetch_of_holds h.memory h.pc (by decide)
  obtain ⟨lastFault, jumped⟩ := step_jump inputs fetched
  rw [jumped]
  exact ⟨⟨h.memory, rfl, h.count⟩, rfl⟩

end Counted

end Machine

namespace Session

theorem counted_counting : counting.console.machine.Counted 0x200 0 where
  memory _ h := read_reset rfl (by decide) h
  pc := rfl
  count := rfl

theorem counted_cycles {s : Session} {v : UInt8} (h : s.console.machine.Counted 0x200 v)
    (keys : Keypad) : ((cycle keys)^[3] s).console.machine.Counted 0x200 (v + 1) ∧
      ((cycle keys)^[3] s).console.machine.redraw = true := by
  obtain ⟨drawn, redraw⟩ := (h.add ⟨keys, s.dice.top⟩).draw ⟨keys, s.dice.next.top⟩
  obtain ⟨back, same⟩ := drawn.jump ⟨keys, s.dice.next.next.top⟩
  exact ⟨back, same.trans redraw⟩

theorem counted_batch {s : Session} {v : UInt8} (h : s.console.machine.Counted 0x200 v)
    (size : s.console.pace.batchSize = 3) (keys : Keypad) :
    (s.beat keys .batch).console.machine.Counted 0x200 (v + 1) ∧
      (s.beat keys .batch).screens.length = s.screens.length + 1 := by
  obtain ⟨counted, redraw⟩ := counted_cycles h keys
  have screens := s.screens_cycles keys 3
  rw [cycles_eq] at screens
  rw [beat_batch, size]
  generalize (cycle keys)^[3] s = t at counted redraw screens ⊢
  refine ⟨⟨counted.memory, counted.pc, counted.count⟩, ?_⟩
  rw [← present_eq, screens_present, redraw, screens]
  exact List.length_append

theorem counted_beats {s : Session} {v : UInt8} (h : s.console.machine.Counted 0x200 v)
    (size : s.console.pace.batchSize = 3) (keys : Keypad) (bs : List Beat) :
    let t := bs.foldl (beat keys) s
    t.console.machine.Counted 0x200 (v + UInt8.ofNat (bs.count .batch)) ∧
      t.screens.length = s.screens.length + bs.count .batch := by
  induction bs generalizing s v with
  | nil => exact ⟨(UInt8.add_zero v).symm ▸ h, rfl⟩
  | cons b bs ih =>
    have pace := congrArg Pace.batchSize (SameControls.beat keys s b).pace
    cases b with
    | tick => exact ih (s := s.beat keys .tick) ⟨h.memory, h.pc, h.count⟩ (pace.trans size)
    | batch =>
      obtain ⟨next, shown⟩ := counted_batch h size keys
      have rest := ih next (pace.trans size)
      rw [shown, Nat.add_assoc, Nat.add_comm 1, UInt8.add_assoc, ← UInt8.ofNat_one,
        ← UInt8.ofNat_add, Nat.add_comm 1] at rest
      rw [List.count_cons_self]
      exact rest

theorem reachable_counting : counting.Reachable := ⟨_, _, _, _, _, rfl⟩

theorem advance_counting : counting.advance .released 40000000 =
    ([.tick, .batch, .tick, .batch].foldl (beat .released) counting).reclock ⟨6666668, 0⟩ := by
  obtain ⟨agenda, planned, advanced⟩ :=
    exists_planned_advance (s := counting) rfl reachable_counting.within .released 40000000
  have known : agenda = [⟨16666666, .tick⟩, ⟨20000000, .batch⟩, ⟨33333332, .tick⟩, ⟨40000000, .batch⟩] :=
    Appointment.eq_of_times planned.ticks planned.batches planned.ordered
      (by simp [Appointment.Before])
  rw [advanced, known]
  rfl

theorem counted_advance_counting :
    (counting.advance .released 40000000).console.machine.Counted 0x200 2 ∧
      (counting.advance .released 40000000).screens.length = 3 := by
  have counted := counted_beats counted_counting rfl .released [.tick, .batch, .tick, .batch]
  have reclocked (s : Session) (clock : Clock) :
      (s.reclock clock).console.machine = s.console.machine ∧ (s.reclock clock).screens = s.screens :=
    ⟨rfl, rfl⟩
  rw [advance_counting, (reclocked _ _).1, (reclocked _ _).2]
  exact counted

theorem advance_follows_agenda_counting :
    counting.Reachable ∧ counting.console.running = true ∧ counting.console.paused = false ∧
    (∃ agenda : List Appointment,
      Appointment.times .tick agenda = [16666666, 33333332] ∧
      Appointment.times .batch agenda = [20000000, 40000000] ∧
      agenda.Pairwise Appointment.Before ∧
      counting.advance .released 40000000 =
        let t := agenda.foldl (fun t a => match a.beat with
          | .tick => t.countDown
          | .batch => ((cycle .released)^[3] t).handOut) counting
        { t with console := { t.console with clock := ⟨6666668, 0⟩ } }) ∧
    (counting.advance .released 40000000).console.machine.register 0 = 2 ∧
    (counting.advance .released 40000000).screens.length = 3 :=
  ⟨reachable_counting, rfl, rfl, advance_follows_agenda reachable_counting rfl rfl .released 40000000,
    counted_advance_counting.1.count, counted_advance_counting.2⟩

end Session

end Chip8
