namespace Chip8

structure Rate where
  perSecond : Nat
  pos : 0 < perSecond := by decide
  deriving DecidableEq

namespace Rate

/-- The nanoseconds from one occurrence to the next, rounded down, and never none at all. -/
def period (r : Rate) : Nat := max 1 (1000000000 / r.perSecond)

theorem period_pos (r : Rate) : 0 < r.period := by
  simp only [period]; omega

end Rate

structure Pace where
  batchSize : Nat := 10
  batchRate : Rate := ⟨50, by decide⟩
  tickRate : Rate := ⟨60, by decide⟩
  deriving DecidableEq

namespace Pace

def standard : Pace := {}

instance : Inhabited Pace := ⟨standard⟩

def batchPeriod (p : Pace) : Nat := p.batchRate.period

def tickPeriod (p : Pace) : Nat := p.tickRate.period

end Pace

end Chip8
