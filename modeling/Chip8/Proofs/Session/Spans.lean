import Chip8.Proofs.Session.Agenda

namespace Chip8

namespace Clock

variable {pace : Pace} {c : Clock} {a b : Nat}

theorem Within.untilNext_pos (h : c.Within pace) : 0 < c.untilNext pace := by
  have ht := h.tick
  have hb := h.batch
  simp only [untilNext]
  omega

theorem wait_wait (c : Clock) (a b : Nat) : (c.wait a).wait b = c.wait (a + b) := by
  simp only [wait, Nat.add_assoc]

theorem untilNext_wait (c : Clock) (pace : Pace) (a : Nat) :
    (c.wait a).untilNext pace = c.untilNext pace - a := by
  simp only [untilNext, wait]
  omega

theorem next_wait (h : a ≤ c.untilNext pace) : (c.wait a).next pace = c.next pace := by
  rw [next, next, untilNext_wait, wait_wait, Nat.add_sub_cancel' h]

theorem nextBeats_wait (h : a ≤ c.untilNext pace) :
    (c.wait a).nextBeats pace = c.nextBeats pace := by
  rw [nextBeats, nextBeats, untilNext_wait, wait_wait, Nat.add_sub_cancel' h]

theorem pass_add (pace : Pace) (c : Clock) (a b : Nat) (beats : Array Beat) :
    pass pace c (a + b) beats = pass pace (pass pace c a beats).1 b (pass pace c a beats).2 := by
  fun_induction pass pace c a beats with
  | case1 c a beats lt =>
    by_cases hb : a + b < c.untilNext pace
    · have hw : b < (c.wait a).untilNext pace := by
        rw [untilNext_wait]
        omega
      rw [pass_of_lt hb, pass_of_lt hw, wait_wait]
    · have hw : (c.wait a).untilNext pace ≤ b := by
        rw [untilNext_wait]
        omega
      have hs : b - (c.untilNext pace - a) = a + b - c.untilNext pace := by omega
      rw [pass_of_le (by omega), pass_of_le hw, next_wait (by omega), nextBeats_wait (by omega),
        untilNext_wait, hs]
  | case2 c a beats ge now ih =>
    rw [pass_of_le (by omega), show a + b - c.untilNext pace = a - c.untilNext pace + b by omega]
    exact ih

theorem pass_append (pace : Pace) (c : Clock) (span : Nat) (earlier beats : Array Beat) :
    pass pace c span (earlier ++ beats)
      = ((pass pace c span beats).1, earlier ++ (pass pace c span beats).2) := by
  fun_induction pass pace c span beats with
  | case1 c span beats lt => exact pass_of_lt lt _
  | case2 c span beats ge now ih =>
    have same : earlier ++ beats ++ c.nextBeats pace = earlier ++ (beats ++ c.nextBeats pace) := by
      apply Array.toList_inj.1
      simp
    rw [pass_of_le (by omega), same]
    exact ih

theorem pass_cut (pace : Pace) (c : Clock) (a b : Nat) :
    pass pace c (a + b) #[] = ((pass pace (pass pace c a #[]).1 b #[]).1,
      (pass pace c a #[]).2 ++ (pass pace (pass pace c a #[]).1 b #[]).2) := by
  rw [pass_add, ← pass_append, Array.append_empty]

end Clock

namespace Session

theorem showScreen_reclock (s : Session) (clock : Clock) :
    (s.reclock clock).showScreen = s.showScreen.reclock clock := by
  cases h : s.console.machine.redraw with
  | true => simp [showScreen, reclock, Machine.takeRedraw, h]
  | false => simp [showScreen, reclock, Machine.takeRedraw, h]

theorem showStatus_reclock (s : Session) (clock : Clock) :
    (s.reclock clock).showStatus = s.showStatus.reclock clock := by
  by_cases h : s.console.shown = some ⟨s.console.paused, s.console.machine.lastFault⟩
  · simp [showStatus, reclock, Console.status, h]
  · simp [showStatus, reclock, Console.status, h]

theorem present_reclock (s : Session) (clock : Clock) :
    (s.reclock clock).present = s.present.reclock clock := by
  rw [present, present, showScreen_reclock, showStatus_reclock]

theorem beat_reclock (keys : Keypad) (s : Session) (clock : Clock) (b : Beat) :
    (s.reclock clock).beat keys b = (s.beat keys b).reclock clock := by
  cases b with
  | tick => rfl
  | batch => exact present_reclock (s.cycles keys _) clock

theorem beats_reclock (keys : Keypad) (s : Session) (clock : Clock) (bs : List Beat) :
    bs.foldl (beat keys) (s.reclock clock) = (bs.foldl (beat keys) s).reclock clock := by
  induction bs generalizing s with
  | nil => rfl
  | cons b bs ih =>
    simp only [List.foldl_cons]
    rw [beat_reclock, ih]

def due (s : Session) (span : Nat) : List Beat :=
  if s.awake then (s.console.clock.pass s.console.pace span #[]).2.toList else []

variable {s : Session}

theorem due_of_not_awake (h : s.awake = false) (span : Nat) : s.due span = [] := by
  simp only [due, h, Bool.false_eq_true, if_false]

theorem due_of_awake (h : s.awake = true) (span : Nat) :
    s.due span = (s.console.clock.pass s.console.pace span #[]).2.toList := if_pos h

theorem advance_eq_reclock (h : s.awake = true) (keys : Keypad) (span : Nat) :
    s.advance keys span = ((s.due span).foldl (beat keys) s).reclock
      (s.console.clock.pass s.console.pace span #[]).1 := by
  rw [advance_of_awake h, due_of_awake h]

theorem clock_advance (h : s.awake = true) (keys : Keypad) (span : Nat) :
    (s.advance keys span).console.clock = (s.console.clock.pass s.console.pace span #[]).1 := by
  rw [advance_eq_reclock h]
  rfl

theorem pace_advance (s : Session) (keys : Keypad) (span : Nat) :
    (s.advance keys span).console.pace = s.console.pace := by
  obtain ⟨_, same⟩ := SameControls.advance s keys span
  exact same.pace

theorem paused_advance (s : Session) (keys : Keypad) (span : Nat) :
    (s.advance keys span).console.paused = s.console.paused := by
  obtain ⟨_, same⟩ := SameControls.advance s keys span
  exact same.paused

theorem awake_advance (s : Session) (keys : Keypad) (span : Nat) :
    (s.advance keys span).awake = s.awake := by
  obtain ⟨_, same⟩ := SameControls.advance s keys span
  exact same.awake

theorem due_zero (hw : s.console.clock.Within s.console.pace) : s.due 0 = [] := by
  rw [due, Clock.pass_of_lt hw.untilNext_pos]
  split <;> rfl

theorem advance_zero (hw : s.console.clock.Within s.console.pace) (keys : Keypad) :
    s.advance keys 0 = s := by
  cases h : s.awake with
  | true =>
    rw [advance_of_awake h, Clock.pass_of_lt hw.untilNext_pos]
    rfl
  | false => exact advance_of_not_awake h keys 0

theorem due_add (s : Session) (keys : Keypad) (a b : Nat) :
    s.due (a + b) = s.due a ++ (s.advance keys a).due b := by
  cases h : s.awake with
  | true =>
    have ha := (s.awake_advance keys a).trans h
    rw [due_of_awake h, due_of_awake h, due_of_awake ha, clock_advance h, pace_advance,
      Clock.pass_cut, Array.toList_append]
  | false => simp [due_of_not_awake h, advance_of_not_awake h]

theorem advance_add (s : Session) (keys : Keypad) (a b : Nat) :
    s.advance keys (a + b) = (s.advance keys a).advance keys b := by
  cases h : s.awake with
  | true =>
    have ha := (s.awake_advance keys a).trans h
    rw [advance_eq_reclock h, advance_eq_reclock ha, s.due_add keys, clock_advance h, pace_advance,
      List.foldl_append, Clock.pass_cut, advance_eq_reclock h, beats_reclock]
    rfl
  | false => simp only [advance_of_not_awake h]

end Session

end Chip8
