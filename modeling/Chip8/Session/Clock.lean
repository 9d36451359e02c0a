import Chip8.Pace
/-!
# The clock of a session

Timer ticks and batches of instructions are two independent streams. The clock knows how long ago
each last fell due. Letting time pass gives the beats that fall due meanwhile, in order; of two that
fall due together the tick comes first.
-/

namespace Chip8

inductive Beat : Type
  | tick : Beat
  | batch : Beat
  deriving DecidableEq, Repr

structure Clock where
  sinceTick : Nat := 0
  sinceBatch : Nat := 0
  deriving DecidableEq, Repr

namespace Clock

def untilNext (c : Clock) (pace : Pace) : Nat :=
  min (pace.tickPeriod - c.sinceTick) (pace.batchPeriod - c.sinceBatch)

def wait (c : Clock) (span : Nat) : Clock := ⟨c.sinceTick + span, c.sinceBatch + span⟩

def due (c : Clock) (pace : Pace) : List Beat :=
  (if pace.tickPeriod ≤ c.sinceTick then [.tick] else []) ++
    (if pace.batchPeriod ≤ c.sinceBatch then [.batch] else [])

def settle (c : Clock) (pace : Pace) : Clock where
  sinceTick := if pace.tickPeriod ≤ c.sinceTick then c.sinceTick - pace.tickPeriod else c.sinceTick
  sinceBatch :=
    if pace.batchPeriod ≤ c.sinceBatch then c.sinceBatch - pace.batchPeriod else c.sinceBatch

theorem settle_wait_untilNext (c : Clock) (pace : Pace) :
    ((c.wait (c.untilNext pace)).settle pace).sinceTick
        + ((c.wait (c.untilNext pace)).settle pace).sinceBatch
      < c.sinceTick + c.sinceBatch + 2 * c.untilNext pace := by
  have ht : 0 < pace.tickPeriod := pace.tickRate.period_pos
  have hb : 0 < pace.batchPeriod := pace.batchRate.period_pos
  by_cases tick : pace.tickPeriod ≤ c.sinceTick + c.untilNext pace <;>
    by_cases batch : pace.batchPeriod ≤ c.sinceBatch + c.untilNext pace <;>
    simp only [settle, wait, tick, batch, if_true, if_false] <;>
    simp only [untilNext] at * <;> omega

def pass (pace : Pace) (c : Clock) (span : Nat) (beats : Array Beat) : Clock × Array Beat :=
  if span < c.untilNext pace then (c.wait span, beats)
  else
    let now := c.wait (c.untilNext pace)
    pass pace (now.settle pace) (span - c.untilNext pace) (beats ++ now.due pace)
termination_by 2 * span + c.sinceTick + c.sinceBatch
decreasing_by
  have := c.settle_wait_untilNext pace
  omega

end Clock

end Chip8
