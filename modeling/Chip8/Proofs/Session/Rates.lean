import Chip8.Proofs.Session.Slices
import Chip8.Proofs.Session.Standby

namespace Chip8

namespace Rate

variable {r : Rate}

theorem mul_period_le (slow : r.perSecond ≤ 1000000000) : r.perSecond * r.period ≤ 1000000000 := by
  have some : 1 ≤ 1000000000 / r.perSecond := (Nat.one_le_div_iff r.pos).2 slow
  rw [period, Nat.max_eq_right some]
  exact Nat.mul_div_le 1000000000 r.perSecond

theorem lt_mul_period_add (r : Rate) :
    1000000000 < r.perSecond * r.period + r.perSecond := by
  have short : 1000000000 / r.perSecond ≤ r.period := Nat.le_max_right ..
  calc 1000000000
      < r.perSecond * (1000000000 / r.perSecond + 1) := Nat.lt_mul_div_succ _ r.pos
    _ ≤ r.perSecond * (r.period + 1) := Nat.mul_le_mul_left _ (Nat.succ_le_succ short)
    _ = r.perSecond * r.period + r.perSecond := Nat.mul_succ ..

theorem period_eq_one (fast : 1000000000 ≤ r.perSecond) : r.period = 1 := by
  have few : 1000000000 / r.perSecond ≤ 1 := Nat.div_le_of_le_mul (by omega)
  rw [period, Nat.max_eq_left few]

structure Honoured (r : Rate) (seconds count : Nat) : Prop where
  least : r.perSecond ≤ 1000000000 → r.perSecond * seconds ≤ count
  drift : r.perSecond < 1000000000 →
    count * (1000000000 - r.perSecond) ≤ r.perSecond * seconds * 1000000000
  exact : seconds = 1 → r.perSecond * r.perSecond ≤ 1000000000 → count = r.perSecond
  most : 1000000000 ≤ r.perSecond → count = 1000000000 * seconds

theorem le_periods (slow : r.perSecond ≤ 1000000000) (seconds : Nat) :
    r.perSecond * seconds ≤ seconds * 1000000000 / r.period := by
  rw [Nat.le_div_iff_mul_le r.period_pos]
  calc r.perSecond * seconds * r.period
      = seconds * (r.perSecond * r.period) := by ac_rfl
    _ ≤ seconds * 1000000000 := Nat.mul_le_mul_left _ (mul_period_le slow)

theorem honoured_periods (r : Rate) (seconds : Nat) :
    r.Honoured seconds (seconds * 1000000000 / r.period) where
  least slow := le_periods slow seconds
  drift _ := by
    have short : 1000000000 - r.perSecond ≤ r.perSecond * r.period := by
      have next := r.lt_mul_period_add
      omega
    calc seconds * 1000000000 / r.period * (1000000000 - r.perSecond)
        ≤ seconds * 1000000000 / r.period * (r.perSecond * r.period) := Nat.mul_le_mul_left _ short
      _ = r.perSecond * (seconds * 1000000000 / r.period * r.period) := by ac_rfl
      _ ≤ r.perSecond * (seconds * 1000000000) := Nat.mul_le_mul_left _ (Nat.div_mul_le_self ..)
      _ = r.perSecond * seconds * 1000000000 := (Nat.mul_assoc ..).symm
  exact one square := by
    have long : r.perSecond ≤ 1000000000 / r.perSecond := (Nat.le_div_iff_mul_le r.pos).2 square
    have slow : r.perSecond ≤ 1000000000 := Nat.le_trans long (Nat.div_le_self ..)
    have whole : 1000000000 / r.perSecond ≤ r.period := Nat.le_max_right ..
    have least := le_periods slow seconds
    -- one more would take longer than the second, for its period is no shorter than the rate
    have most : seconds * 1000000000 / r.period < r.perSecond + 1 := by
      rw [Nat.div_lt_iff_lt_mul r.period_pos, one, Nat.add_one_mul r.perSecond]
      have next := r.lt_mul_period_add
      omega
    rw [one, Nat.mul_one] at least
    rw [one] at most ⊢
    omega
  most fast := by rw [period_eq_one fast, Nat.div_one, Nat.mul_comm]

end Rate

def Pace.rate (p : Pace) : Beat → Rate
  | .tick => p.tickRate
  | .batch => p.batchRate

namespace Clock

def since (c : Clock) : Beat → Nat
  | .tick => c.sinceTick
  | .batch => c.sinceBatch

theorem div_carry {period : Nat} (hp : 0 < period) (since a b : Nat) :
    (since + a) / period + ((since + a) % period + b) / period = (since + (a + b)) / period := by
  have parts : since + (a + b) = (since + a) % period + b + period * ((since + a) / period) := by
    have whole := Nat.mod_add_div (since + a) period
    omega
  rw [parts, Nat.add_mul_div_left _ _ hp, Nat.add_comm]

variable {pace : Pace} {c : Clock} {span : Nat}

theorem Within.since_lt (h : c.Within pace) (b : Beat) : c.since b < (pace.rate b).period := by
  cases b with
  | tick => exact h.tick
  | batch => exact h.batch

theorem since_later (c : Clock) (pace : Pace) (span : Nat) (b : Beat) :
    (c.later pace span).since b = (c.since b + span) % (pace.rate b).period := by
  cases b <;> rfl

theorem later_zero (h : c.Within pace) : c.later pace 0 = c := by
  rw [later, Nat.add_zero, Nat.add_zero, Nat.mod_eq_of_lt h.tick, Nat.mod_eq_of_lt h.batch]

theorem later_later (c : Clock) (pace : Pace) (a b : Nat) :
    (c.later pace a).later pace b = c.later pace (a + b) := by
  simp only [later, Nat.mod_add_mod, Nat.add_assoc]

theorem Planned.times_eq {agenda : List Appointment} (p : Planned pace c span agenda) (b : Beat) :
    Appointment.times b agenda = dues (pace.rate b).period (c.since b) span := by
  cases b with
  | tick => exact p.ticks
  | batch => exact p.batches

theorem Planned.count_eq {agenda : List Appointment} (p : Planned pace c span agenda) (b : Beat) :
    (agenda.map (·.beat)).count b = (c.since b + span) / (pace.rate b).period := by
  calc (agenda.map (·.beat)).count b
      = (Appointment.times b agenda).length := by
        simp [Appointment.times, List.count, List.countP_eq_length_filter, List.filter_map,
          Function.comp_def, beq_eq_decide]
    _ = (c.since b + span) / (pace.rate b).period := by simp [p.times_eq, dues]

end Clock

namespace Session

def beatsIn (s : Session) : List (Keypad × Slice) → List (Keypad × Beat)
  | [] => []
  | (keys, .advance span) :: xs => (s.due span).map (keys, ·) ++ (s.advance keys span).beatsIn xs
  | (_, .togglePause) :: xs => s.togglePause.beatsIn xs

def carryOut (s : Session) (beats : List (Keypad × Beat)) : Session :=
  beats.foldl (fun s x => s.beat x.1 x.2) s

variable {s t : Session}

theorem carryOut_append (s : Session) (bs cs : List (Keypad × Beat)) :
    s.carryOut (bs ++ cs) = (s.carryOut bs).carryOut cs := List.foldl_append

theorem carryOut_map (s : Session) (keys : Keypad) (bs : List Beat) :
    s.carryOut (bs.map (keys, ·)) = bs.foldl (beat keys) s := List.foldl_map

theorem carryOut_reclock (s : Session) (clock : Clock) (bs : List (Keypad × Beat)) :
    (s.reclock clock).carryOut bs = (s.carryOut bs).reclock clock := by
  induction bs generalizing s with
  | nil => rfl
  | cons b bs ih =>
    simp only [carryOut, List.foldl_cons] at ih ⊢
    rw [beat_reclock, ih]

theorem InStep.carryOut (h : InStep s t) (bs : List (Keypad × Beat)) :
    InStep (s.carryOut bs) (t.carryOut bs) := by
  induction bs generalizing s t with
  | nil => exact h
  | cons b bs ih => exact ih (h.beat b.1 b.2)

theorem InStep.reclock (h : InStep s t) (clock : Clock) : InStep (s.reclock clock) (t.reclock clock) :=
  ⟨h.machine, h.dice, h.pace, h.running, rfl, h.screens⟩

theorem advance_eq_due (running : s.console.running = true)
    (hw : s.console.clock.Within s.console.pace) (keys : Keypad) (span : Nat) :
    let counted := if s.console.paused then 0 else span
    let clock := s.console.clock.later s.console.pace counted
    (s.advance keys span).console.clock = clock ∧
    (s.advance keys span).awaken = ((s.due span).foldl (beat keys) s.awaken).reclock clock ∧
    ∀ b, (s.due span).count b =
      (s.console.clock.since b + counted) / (s.console.pace.rate b).period := by
  intro counted clock
  have awake : s.awaken.awake = true := by simp [Session.awake, awaken, running]
  obtain ⟨due, advanced⟩ := awaken_advance hw keys span
  obtain ⟨agenda, planned, passed⟩ := Clock.exists_planned_pass hw counted #[]
  have passed : s.awaken.console.clock.pass s.awaken.console.pace counted #[]
      = (clock, #[] ++ agenda.map (·.beat)) := passed
  rw [due_of_awake awake, passed] at due
  rw [advance_eq_reclock awake, passed, due_of_awake awake, passed, ← due] at advanced
  refine ⟨congrArg (fun t => t.console.clock) advanced, advanced, fun b => ?_⟩
  rw [due]
  simpa using planned.count_eq b

theorem count_beatsIn (s : Session) (running : s.console.running = true)
    (hw : s.console.clock.Within s.console.pace) (xs : List (Keypad × Slice)) (b : Beat) :
    ((s.beatsIn xs).map Prod.snd).count b =
      (s.console.clock.since b + Slice.awake s.console.paused (xs.map Prod.snd))
        / (s.console.pace.rate b).period := by
  induction xs generalizing s with
  | nil => exact (Nat.div_eq_of_lt (hw.since_lt b)).symm
  | cons x xs ih =>
    match x with
    | (keys, .advance span) =>
      have rest := ih (s.advance keys span) ((s.running_advance keys span).trans running)
        (kept_within.advance s keys span hw)
      obtain ⟨clock, -, counted⟩ := advance_eq_due running hw keys span
      have now : ((s.due span).map (keys, ·)).map Prod.snd = s.due span := by
        simp [Function.comp_def]
      rw [pace_advance, paused_advance, clock, Clock.since_later] at rest
      rw [beatsIn, List.map_append, List.count_append, now, counted, rest]
      exact Clock.div_carry (s.console.pace.rate b).period_pos ..
    | (keys, .togglePause) =>
      have rest := ih s.togglePause (by simpa using running) (kept_within.togglePause s hw)
      simpa [beatsIn, Slice.awake] using rest

theorem after_slices (s : Session) (running : s.console.running = true)
    (redraw : s.console.machine.redraw = false) (hw : s.console.clock.Within s.console.pace)
    (xs : List (Keypad × Slice)) :
    InStep ((s.awaken.carryOut (s.beatsIn xs)).reclock (s.console.clock.later s.console.pace
        (Slice.awake s.console.paused (xs.map Prod.snd))))
      (s.after (xs.map fun x => (x.1, x.2.operation))) := by
  induction xs generalizing s with
  | nil => exact ⟨rfl, rfl, rfl, rfl, (Clock.later_zero hw).symm, rfl⟩
  | cons x xs ih =>
    match x with
    | (keys, .advance span) =>
      have rest := ih (s.advance keys span) ((s.running_advance keys span).trans running)
        (kept_redraw.advance s keys span redraw) (kept_within.advance s keys span hw)
      obtain ⟨clock, advanced, -⟩ := advance_eq_due running hw keys span
      rw [pace_advance, paused_advance, advanced, clock, Clock.later_later, carryOut_reclock,
        ← carryOut_map, ← carryOut_append] at rest
      exact rest
    | (keys, .togglePause) =>
      have rest := ih s.togglePause (by simpa using running) (kept_redraw.togglePause s redraw)
        (kept_within.togglePause s hw)
      simp only [console_togglePause] at rest
      have same := inStep_togglePause redraw
      exact ((same.carryOut _).reclock _).trans rest

theorem controls_reset (s : Session) :
    s.reset.1.console.clock = {} ∧ s.reset.1.console.paused = false ∧
      s.reset.1.console.pace = s.console.pace := by
  have cleared : s.refetched.console.clock = {} ∧ s.refetched.console.paused = false ∧
      s.refetched.console.pace = s.console.pace := by simp [refetched]
  rw [reset_eq]
  split
  · next program _ =>
    rcases s.refetched.console_insert program with ⟨-, hc⟩ | ⟨-, hc⟩ <;> rwa [hc]
  · exact cleared

/-- From a reset that loads a program, ticks and batches take place at their rates, however time is cut
and whatever pauses there are: a tick counts both timers down, and a batch executes its instructions and
then hands out what is new. Nothing else takes place. Not all rates have a period of whole nanoseconds:
beats may come a little early, but not so early that a second holds one more, unless the rate is high. -/
theorem rates_are_honoured (s : Session) (loads : s.console.source.fetch.1.fits = true)
    (seconds : Nat) (xs : List (Keypad × Slice))
    (whole : Slice.awake false (xs.map Prod.snd) = seconds * 1000000000) :
    let pace := s.console.pace
    let beats := s.reset.1.beatsIn xs
    pace.tickRate.Honoured seconds ((beats.map Prod.snd).count .tick) ∧
    pace.batchRate.Honoured seconds ((beats.map Prod.snd).count .batch) ∧
    let there := s.reset.1.after (xs.map fun x => (x.1, x.2.operation))
    let done := beats.foldl (fun t b => match b.2 with
      | .tick => t.countDown
      | .batch => ((cycle b.1)^[pace.batchSize] t).handOut) s.reset.1
    there.console.machine = done.console.machine ∧ there.dice = done.dice ∧
    there.screens = done.screens := by
  intro pace beats
  obtain ⟨clock, awake, samePace⟩ := s.controls_reset
  have running : s.reset.1.console.running = true := s.running_reset.trans loads
  have within := within_of_clock_eq clock
  have counted (b : Beat) : (beats.map Prod.snd).count b =
      seconds * 1000000000 / (pace.rate b).period := by
    have count := count_beatsIn s.reset.1 running within xs b
    rw [awake, whole, samePace, clock] at count
    cases b <;> simpa [Clock.since] using count
  have inStep := after_slices s.reset.1 running (kept_redraw.reset_of_clear s (by simp)) within xs
  rw [awaken_of_not_paused awake, carryOut, foldl_beat Prod.fst Prod.snd, samePace] at inStep
  rw [counted, counted]
  exact ⟨Rate.honoured_periods _ seconds, Rate.honoured_periods _ seconds,
    inStep.machine, inStep.dice, inStep.screens⟩

def hurried : Session :=
  opening (.initial {}) (.ofProgram counter)
    { Pace.standard with batchRate := ⟨3000000000, by decide⟩ } default

theorem rates_are_honoured_hurried :
    let xs := [(.released, .advance 999999999), (.released, .togglePause),
      (.released, .advance 5000000), (.released, .togglePause), (.released, .advance 1)]
    let beats := hurried.reset.1.beatsIn xs
    hurried.console.source.fetch.1.fits = true ∧
    Slice.awake false (xs.map Prod.snd) = 1 * 1000000000 ∧
    (beats.map Prod.snd).count .tick = 60 ∧ (beats.map Prod.snd).count .batch = 1000000000 ∧
    (hurried.reset.1.after (xs.map fun x => (x.1, x.2.operation))).console.machine =
      (beats.foldl (fun t b => match b.2 with
        | .tick => t.countDown
        | .batch => ((cycle b.1)^[10] t).handOut) hurried.reset.1).console.machine := by
  intro xs beats
  have loads : hurried.console.source.fetch.1.fits = true := by decide
  have whole : Slice.awake false (xs.map Prod.snd) = 1 * 1000000000 := by simp [xs, Slice.awake]
  obtain ⟨ticks, batches, machine, -⟩ := rates_are_honoured hurried loads 1 xs whole
  exact ⟨loads, whole, ticks.exact rfl (by decide), batches.most (by decide), machine⟩

end Session

end Chip8
