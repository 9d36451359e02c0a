import Chip8.Proofs.Session.Spans

namespace Chip8

theorem Rate.period_le (r : Rate) : r.period ≤ 1000000000 := by
  have h : 1000000000 / r.perSecond ≤ 1000000000 := Nat.div_le_self _ _
  simp only [period]
  omega

namespace Clock

/-- The longest span of time. Its seconds fill a word of 64 bits, and the rest is less than one. -/
def longest : Nat := 18446744073709551615 * 1000000000 + 999999999

def plus? (a b : Nat) : Option Nat := if a + b ≤ longest then some (a + b) else none

def minus? (a b : Nat) : Option Nat := if b ≤ a then some (a - b) else none

theorem plus?_of_le {a b : Nat} (h : a + b ≤ longest) : plus? a b = some (a + b) := if_pos h

theorem minus?_of_le {a b : Nat} (h : b ≤ a) : minus? a b = some (a - b) := if_pos h

def untilNext? (c : Clock) (pace : Pace) : Option Nat := do
  let untilTick ← minus? pace.tickPeriod c.sinceTick
  let untilBatch ← minus? pace.batchPeriod c.sinceBatch
  return min untilTick untilBatch

def wait? (c : Clock) (span : Nat) : Option Clock := do
  let sinceTick ← plus? c.sinceTick span
  let sinceBatch ← plus? c.sinceBatch span
  return ⟨sinceTick, sinceBatch⟩

def restart? (period since : Nat) : Option Nat :=
  if period ≤ since then minus? since period else some since

def settle? (c : Clock) (pace : Pace) : Option Clock := do
  let sinceTick ← restart? pace.tickPeriod c.sinceTick
  let sinceBatch ← restart? pace.batchPeriod c.sinceBatch
  return ⟨sinceTick, sinceBatch⟩

inductive Lap : Type
  | last : Clock → Lap
  | next : Clock → List Beat → (rest : Nat) → Lap

def lap? (pace : Pace) (c : Clock) (span : Nat) : Option Lap := do
  let next ← c.untilNext? pace
  if span < next then
    let clock ← c.wait? span
    return .last clock
  else
    let rest ← minus? span next
    let now ← c.wait? next
    let clock ← now.settle? pace
    return .next clock (now.due pace) rest

variable {pace : Pace} {c : Clock} {span : Nat}

theorem untilNext?_eq (h : c.Within pace) : c.untilNext? pace = some (c.untilNext pace) := by
  simp only [untilNext?, minus?_of_le (Nat.le_of_lt h.tick), minus?_of_le (Nat.le_of_lt h.batch)]
  rfl

theorem wait?_eq (h : c.Within pace) (hs : span ≤ c.untilNext pace) :
    c.wait? span = some (c.wait span) := by
  -- at most the rest of a period is added, and no period is longer than a second
  have ht := h.tick_le
  have hb := h.batch_le
  have tick : pace.tickPeriod ≤ 1000000000 := pace.tickRate.period_le
  have batch : pace.batchPeriod ≤ 1000000000 := pace.batchRate.period_le
  have tickSum : c.sinceTick + span ≤ longest := by
    simp only [longest]
    omega
  have batchSum : c.sinceBatch + span ≤ longest := by
    simp only [longest]
    omega
  simp only [wait?, plus?_of_le tickSum, plus?_of_le batchSum]
  rfl

theorem restart?_eq (period since : Nat) :
    restart? period since = some (if period ≤ since then since - period else since) := by
  by_cases h : period ≤ since
  · simp only [restart?, h, if_true, minus?_of_le h]
  · simp only [restart?, h, if_false]

theorem settle?_eq (c : Clock) (pace : Pace) : c.settle? pace = some (c.settle pace) := by
  simp only [settle?, restart?_eq]
  rfl

theorem lap?_of_lt (h : c.Within pace) (lt : span < c.untilNext pace) :
    c.lap? pace span = some (.last (c.wait span)) := by
  simp [lap?, untilNext?_eq h, lt, wait?_eq h (Nat.le_of_lt lt)]

theorem lap?_of_le (h : c.Within pace) (le : c.untilNext pace ≤ span) :
    c.lap? pace span
      = some (.next (c.next pace) (c.nextBeats pace) (span - c.untilNext pace)) := by
  have ge : ¬span < c.untilNext pace := by omega
  simp [lap?, untilNext?_eq h, ge, minus?_of_le le, wait?_eq h (Nat.le_refl _), settle?_eq, next,
    nextBeats]

def dueCount (pace : Pace) (c : Clock) (span : Nat) : Nat :=
  (c.sinceTick + span) / pace.tickPeriod + (c.sinceBatch + span) / pace.batchPeriod

theorem restart_div {period since span u : Nat} (hp : 0 < period) (hu : u ≤ span)
    (h : since + u ≤ period) :
    ((if period ≤ since + u then since + u - period else since + u) + (span - u)) / period
      + (if period ≤ since + u then 1 else 0) = (since + span) / period := by
  by_cases due : period ≤ since + u
  · simp only [due, if_true]
    rw [← Nat.add_div_right _ hp]
    congr 1
    omega
  · simp only [due, if_false, Nat.add_zero]
    congr 1
    omega

theorem length_nextBeats (c : Clock) (pace : Pace) :
    (c.nextBeats pace).length
      = (if pace.tickPeriod ≤ c.sinceTick + c.untilNext pace then 1 else 0)
        + (if pace.batchPeriod ≤ c.sinceBatch + c.untilNext pace then 1 else 0) := by
  by_cases tick : pace.tickPeriod ≤ c.sinceTick + c.untilNext pace <;>
    by_cases batch : pace.batchPeriod ≤ c.sinceBatch + c.untilNext pace <;>
    simp [nextBeats, due, wait, tick, batch]

theorem nextBeats_ne_nil (c : Clock) (pace : Pace) : c.nextBeats pace ≠ [] := by
  have soon : pace.tickPeriod ≤ c.sinceTick + c.untilNext pace
      ∨ pace.batchPeriod ≤ c.sinceBatch + c.untilNext pace := by
    simp only [untilNext]
    omega
  rw [← List.length_pos_iff, length_nextBeats]
  rcases soon with tick | batch
  · rw [if_pos tick]
    omega
  · rw [if_pos batch]
    omega

theorem dueCount_next (h : c.Within pace) (hs : c.untilNext pace ≤ span) :
    dueCount pace (c.next pace) (span - c.untilNext pace) + (c.nextBeats pace).length
      = dueCount pace c span := by
  have tickPos : 0 < pace.tickPeriod := pace.tickRate.period_pos
  have batchPos : 0 < pace.batchPeriod := pace.batchRate.period_pos
  rw [length_nextBeats, dueCount, dueCount, ← restart_div tickPos hs h.tick_le,
    ← restart_div batchPos hs h.batch_le]
  exact Nat.add_add_add_comm _ _ _ _

end Clock

namespace Session

/-- Lets time pass lap by lap, with the beats of each lap. There is no result if a lap has none, or
if there are more laps than allowed. -/
def laps? (keys : Keypad) : (allowed : Nat) → Session → (span : Nat) →
    Option (Session × List (List Beat))
  | 0, _, _ => none
  | allowed + 1, s, span => do
    match ← s.console.clock.lap? s.console.pace span with
    | .last clock => return (s.reclock clock, [[]])
    | .next clock beats rest =>
      let (t, laps) ← laps? keys allowed (beats.foldl (beat keys) (s.reclock clock)) rest
      return (t, beats :: laps)

def advance? (keys : Keypad) (allowed : Nat) (s : Session) (span : Nat) :
    Option (Session × List (List Beat)) :=
  if s.awake then laps? keys allowed s span else some (s, [])

def untilNext (s : Session) : Nat := s.console.clock.untilNext s.console.pace

variable {s : Session}

theorem advance_of_lt (h : s.awake = true) (keys : Keypad) {span : Nat}
    (lt : span < s.untilNext) : s.advance keys span = s.reclock (s.console.clock.wait span) := by
  rw [advance_of_awake h, Clock.pass_of_lt lt]
  rfl

theorem advance_untilNext (h : s.awake = true) (hw : s.console.clock.Within s.console.pace)
    (keys : Keypad) :
    s.advance keys s.untilNext
      = (s.console.clock.nextBeats s.console.pace).foldl (beat keys)
        (s.reclock (s.console.clock.next s.console.pace)) := by
  rw [advance_of_awake h, untilNext, Clock.pass_of_le (Nat.le_refl _), Nat.sub_self,
    Clock.pass_of_lt hw.next.untilNext_pos, beats_reclock]
  simp [Clock.wait]

theorem clock_advance_untilNext (h : s.awake = true)
    (hw : s.console.clock.Within s.console.pace) (keys : Keypad) :
    (s.advance keys s.untilNext).console.clock = s.console.clock.next s.console.pace := by
  rw [advance_untilNext h hw]
  exact (SameControls.beats keys _ _).clock

theorem laps?_of_lt (h : s.awake = true) (hw : s.console.clock.Within s.console.pace)
    (keys : Keypad) (allowed : Nat) {span : Nat} (lt : span < s.untilNext) :
    s.laps? keys (allowed + 1) span = some (s.advance keys span, [[]]) := by
  simp [laps?, Clock.lap?_of_lt hw lt, advance_of_lt h keys lt]

theorem laps?_of_le (h : s.awake = true) (hw : s.console.clock.Within s.console.pace)
    (keys : Keypad) (allowed : Nat) {span : Nat} (le : s.untilNext ≤ span) :
    s.laps? keys (allowed + 1) span
      = ((s.advance keys s.untilNext).laps? keys allowed (span - s.untilNext)).map
        fun r => (r.1, s.console.clock.nextBeats s.console.pace :: r.2) := by
  rw [advance_untilNext h hw, laps?, Clock.lap?_of_le hw le, Option.map_eq_bind]
  rfl

theorem dropLast_cons_ne_nil {lap : List Beat} {laps : List (List Beat)} (h : lap ≠ [])
    (hl : ∀ l ∈ laps.dropLast, l ≠ []) : ∀ l ∈ (lap :: laps).dropLast, l ≠ [] := by
  cases laps with
  | nil => simp
  | cons next laps =>
    intro l hmem
    rw [List.dropLast_cons_cons, List.mem_cons] at hmem
    rcases hmem with rfl | later
    · exact h
    · exact hl l later

theorem exists_laps (h : s.awake = true) (hw : s.console.clock.Within s.console.pace)
    (keys : Keypad) {allowed span : Nat}
    (enough : s.console.clock.dueCount s.console.pace span < allowed) :
    ∃ laps, s.laps? keys allowed span = some (s.advance keys span, laps) ∧
      laps.length ≤ allowed ∧ ∀ lap ∈ laps.dropLast, lap ≠ [] := by
  -- a lap uses up one of those allowed, and at least one of the beats that are to come
  induction allowed generalizing s span with
  | zero => omega
  | succ allowed ih =>
    by_cases lt : span < s.untilNext
    · exact ⟨[[]], laps?_of_lt h hw keys allowed lt, by simp, by simp⟩
    · have le : s.untilNext ≤ span := by omega
      have fires := s.console.clock.nextBeats_ne_nil s.console.pace
      have rest : s.advance keys span
          = (s.advance keys s.untilNext).advance keys (span - s.untilNext) := by
        rw [← advance_add, Nat.add_sub_cancel' le]
      have clock := clock_advance_untilNext h hw keys
      have pace := s.pace_advance keys s.untilNext
      have less : Clock.dueCount s.console.pace (s.console.clock.next s.console.pace)
          (span - s.untilNext) < allowed := by
        rw [← Clock.dueCount_next hw le] at enough
        have := List.length_pos_iff.2 fires
        simp only [untilNext]
        omega
      obtain ⟨laps, run, few, busy⟩ := ih ((s.awake_advance keys _).trans h)
        (by rw [clock, pace]; exact hw.next) (by rw [clock, pace]; exact less)
      refine ⟨s.console.clock.nextBeats s.console.pace :: laps, ?_, ?_, ?_⟩
      · rw [laps?_of_le h hw keys allowed le, run, rest]
        rfl
      · exact Nat.succ_le_succ few
      · exact dropLast_cons_ne_nil fires busy

/-- Each stream fell due less than a period ago. So whatever the span, no lap takes a longer span
from a shorter one or comes to more than the longest. There are at most as many laps as periods end
meanwhile, and one more, and in each but the last something falls due. -/
theorem advance_in_laps (reachable : s.Reachable) (keys : Keypad) (span : Nat) :
    let pace := s.console.pace
    let clock := s.console.clock
    let allowed := (clock.sinceTick + span) / pace.tickPeriod
      + (clock.sinceBatch + span) / pace.batchPeriod + 1
    clock.sinceTick < pace.tickPeriod ∧ clock.sinceBatch < pace.batchPeriod ∧
    ∃ laps, s.advance? keys allowed span = some (s.advance keys span, laps) ∧
      laps.length ≤ allowed ∧ ∀ lap ∈ laps.dropLast, lap ≠ [] := by
  intro pace clock allowed
  have hw := reachable.within
  refine ⟨hw.tick, hw.batch, ?_⟩
  cases h : s.awake with
  | true =>
    simp only [advance?, h, if_true]
    exact exists_laps h hw keys (Nat.lt_succ_self _)
  | false =>
    refine ⟨[], ?_, Nat.zero_le _, by simp⟩
    simp [advance?, h, advance_of_not_awake h]

def hasty : Session :=
  (opening (.initial {}) (.ofProgram #[0x12, 0x00])
    { batchRate := ⟨2000000000, by decide⟩, tickRate := ⟨4000000000, by decide⟩ } default).after
    [(.released, .reset)]

theorem advance_in_laps_hasty :
    hasty.Reachable ∧ hasty.awake = true ∧ Clock.longest = 18446744073709551615999999999 ∧
    ∃ laps, hasty.advance? .released 36893488147419103231999999999 Clock.longest
        = some (hasty.advance .released Clock.longest, laps) ∧
      laps.length ≤ 36893488147419103231999999999 ∧ ∀ lap ∈ laps.dropLast, lap ≠ [] :=
  have reachable : hasty.Reachable := ⟨_, _, _, _, _, rfl⟩
  ⟨reachable, rfl, rfl, (advance_in_laps reachable .released Clock.longest).2.2⟩

end Session

end Chip8
