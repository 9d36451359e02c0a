import Chip8.Proofs.Machine.Loading
import Chip8.Proofs.Machine.Sprites

namespace Chip8

def Screen.Loses (before after : Screen) : Prop :=
  ∃ a < 64, ∃ b < 32, before.get a b = true ∧ after.get a b = false

instance (before after : Screen) : Decidable (before.Loses after) :=
  inferInstanceAs (Decidable (∃ a < 64, ∃ b < 32, _))

namespace Machine

/-- A bit of the sprite at I that is set, from one of its rows in memory, comes to lie at `(a, b)`. -/
def Covers (m : Machine) (x y n : UInt8) (a b : Nat) : Prop :=
  ∃ row < n.toNat, ∃ col < 8,
    m.index.toNat + row ≤ 0x0FFF ∧ m.memory.bit (m.index.toNat + row) col = true ∧
    Canvas.Lies m.dialect.spritesWrap ((m.register x).toNat % 64 + col)
      ((m.register y).toNat % 32 + row) a b

instance (m : Machine) (x y n : UInt8) (a b : Nat) : Decidable (m.Covers x y n a b) :=
  inferInstanceAs (Decidable (∃ row < n.toNat, ∃ col < 8, _))

structure Stamp where
  index : UInt16
  registers : Vector UInt8 16
  x : UInt8
  y : UInt8
  height : UInt8
  x_lt : x < 16
  y_lt : y < 16

def stamp (m : Machine) (inputs : Inputs) (s : Stamp) : Except Crash Outcome :=
  { m with index := s.index, registers := s.registers }.perform inputs (.draw s.x s.y s.height)

def Stamp.spots (s : Stamp) (m : Machine) : List (Nat × Nat) :=
  { m with index := s.index, registers := s.registers }.spots s.x s.y s.height

variable {m : Machine} {x y n : UInt8}

theorem onScreen_spots : Canvas.OnScreen (m.spots x y n) := Canvas.onScreen_spots

theorem mem_spots {a b : Nat} : (a, b) ∈ m.spots x y n ↔ m.Covers x y n a b := by
  rw [spots, Canvas.mem_spots, Covers]
  refine exists_congr fun row => and_congr_right fun _ => exists_congr fun col =>
    and_congr_right fun _ => ⟨fun ⟨set, lies⟩ => ⟨?_, set, lies⟩, fun h => h.2⟩
  by_contra outside
  rw [Memory.bit_of_le (by omega)] at set
  cases set

theorem Covers.lt {a b : Nat} (h : m.Covers x y n a b) : a < 64 ∧ b < 32 :=
  onScreen_spots _ (mem_spots.2 h)

section Small

variable (small : n.toNat ≤ 32)
include small

theorem nodup_spots : (m.spots x y n).Nodup := Canvas.nodup_spots small

theorem get_drawn (a b : Nat) :
    (m.drawn x y n).screen.get a b = (m.screen.get a b ^^ decide (m.Covers x y n a b)) := by
  rw [drawn, Canvas.get_turns onScreen_spots]
  by_cases covered : m.Covers x y n a b
  · rw [List.count_eq_one_of_mem (nodup_spots small) (mem_spots.2 covered),
      decide_eq_true covered]
    rfl
  · rw [List.count_eq_zero_of_not_mem fun h => covered (mem_spots.1 h), decide_eq_false covered]
    rfl

theorem collided_drawn : (m.drawn x y n).collided = true ↔
    ∃ a b, m.Covers x y n a b ∧ m.screen.get a b = true := by
  rw [drawn, Canvas.collided_turns onScreen_spots (nodup_spots small)]
  simp only [Bool.false_eq_true, false_or, Prod.exists, mem_spots]

theorem collided_drawn_iff_loses :
    (m.drawn x y n).collided = true ↔ m.screen.Loses (m.drawn x y n).screen := by
  rw [collided_drawn small]
  constructor
  · rintro ⟨a, b, covered, on⟩
    have off : (m.drawn x y n).screen.get a b = false := by
      rw [get_drawn small, on, decide_eq_true covered]
      rfl
    exact ⟨a, covered.lt.1, b, covered.lt.2, on, off⟩
  · rintro ⟨a, -, b, -, on, off⟩
    rw [get_drawn small, on, Bool.true_xor, Bool.not_eq_false', decide_eq_true_iff] at off
    exact ⟨a, b, off, on⟩

end Small

/-- Drawing a sprite of up to fifteen rows turns over exactly the cells that the sprite covers, by what
I, VX and VY hold before. VF tells whether a cell that was on is now off, and everything else that a
program can read stays as it is. -/
theorem sprites_turn_cells_over (m : Machine) (inputs : Inputs) {x y n : UInt8}
    (hx : x < 16) (hy : y < 16) (hn : n < 16) :
    ∃ o, m.perform inputs (.draw x y n) = .ok o ∧
      (∀ w, m.fetch = .ok (w, .draw x y n) → (m.step inputs).machine = o.machine) ∧
      (∀ a b, o.machine.screen.get a b = (m.screen.get a b ^^ decide (m.Covers x y n a b))) ∧
      (o.machine.register 15 =
        if m.screen.Loses o.machine.screen then 1 else 0) ∧
      (∀ k < 15, o.machine.register k = m.register k) ∧
      o.machine.memory = m.memory ∧ o.machine.index = m.index ∧ o.machine.stack = m.stack ∧
      o.machine.delay = m.delay ∧ o.machine.sound = m.sound := by
  have rows : n.toNat < 16 := hn
  have small : n.toNat ≤ 32 := by omega
  obtain ⟨o, lastFault, performed, after⟩ := perform_draw (m := m) (n := n) inputs hx hy
  refine ⟨o, performed, ?_, ?_⟩
  · intro w fetched
    rw [step_of_perform inputs fetched performed]
  · rw [after]
    refine ⟨get_drawn small, ?_, fun k low => register_setFlag_of_lt low, rfl, rfl, rfl, rfl, rfl⟩
    rw [register_setFlag]
    exact if_congr (collided_drawn_iff_loses small) rfl rfl

def straddling : Machine :=
  { ((initial {}).load #[0xDF, 0xF1]).machine with
    registers := Vector.replicate 16 63
    index := 0x200
    screen := Screen.blank.turn (0, 31) }

theorem straddling_holds : straddling.memory.Holds #[0xDF, 0xF1] := holds_load (by decide) {}

theorem straddling_covers (x y : UInt8) :
    straddling.Covers x y 1 0 31 ∧ straddling.Covers x y 1 63 31 := by
  have registers : ∀ k, straddling.register k = 63 := fun k => Vector.getElem_replicate _
  have bits : straddling.memory.bit 0x200 0 = true ∧ straddling.memory.bit 0x200 1 = true := by
    rw [Memory.bit, Memory.bit, straddling_holds 0x200 (by decide)]
    decide
  refine ⟨⟨0, by decide, 1, by decide, by decide, bits.2, ?_⟩,
    ⟨0, by decide, 0, by decide, by decide, bits.1, ?_⟩⟩ <;>
  · rw [registers, registers]
    decide

theorem straddling_screen :
    straddling.screen.get 0 31 = true ∧ straddling.screen.get 63 31 = false := by
  have turned : ∀ a b, straddling.screen.get a b =
      (Screen.blank.get a b ^^ decide ((0, 31) = (a, b))) :=
    Screen.get_turn Screen.blank (p := (0, 31)) (by decide) (by decide)
  rw [turned, turned, Screen.get_blank, Screen.get_blank]
  decide

theorem sprites_turn_cells_over_straddling :
    straddling.fetch = .ok (0xDFF1, .draw 15 15 1) ∧
    (straddling.step {}).machine.screen.get 0 31 = false ∧
    (straddling.step {}).machine.screen.get 63 31 = true ∧
    (straddling.step {}).machine.register 15 = 1 ∧
    (straddling.step {}).machine.register 14 = 63 := by
  have fetched : straddling.fetch = .ok (0xDFF1, .draw 15 15 1) :=
    fetch_of_holds straddling_holds rfl (by decide)
  obtain ⟨o, -, stepped, screen, flag, others, -⟩ :=
    sprites_turn_cells_over straddling {} (x := 15) (y := 15) (n := 1) (by decide) (by decide)
      (by decide)
  obtain ⟨left, right⟩ := straddling_covers 15 15
  obtain ⟨on, off⟩ := straddling_screen
  have cleared : o.machine.screen.get 0 31 = false := by
    rw [screen, on, decide_eq_true left]
    rfl
  have lit : o.machine.screen.get 63 31 = true := by
    rw [screen, off, decide_eq_true right]
    rfl
  rw [stepped _ fetched]
  refine ⟨fetched, cleared, lit, ?_, others 14 (by decide)⟩
  rw [flag, if_pos ⟨0, by decide, 31, by decide, on, cleared⟩]

theorem Stamp.onScreen_spots (s : Stamp) : Canvas.OnScreen (s.spots m) := Machine.onScreen_spots

theorem Stamp.spots_congr (s : Stamp) {m m' : Machine} (memory : m.memory = m'.memory)
    (dialect : m.dialect = m'.dialect) : s.spots m = s.spots m' := by
  simp only [spots, Machine.spots, register, memory, dialect]

theorem stamp_eq (m : Machine) (inputs : Inputs) (s : Stamp) : ∃ o, m.stamp inputs s = .ok o ∧
    o.machine.screen = ((s.spots m).foldl Canvas.turn ⟨m.screen, false⟩).screen ∧
    o.machine.memory = m.memory ∧ o.machine.dialect = m.dialect := by
  obtain ⟨o, lastFault, performed, after⟩ := perform_draw
    (m := { m with index := s.index, registers := s.registers }) (n := s.height) inputs s.x_lt s.y_lt
  refine ⟨o, performed, ?_⟩
  rw [after]
  exact ⟨rfl, rfl, rfl⟩

theorem stamps_comm (m : Machine) (inputs inputs' : Inputs) (s t : Stamp) : ∃ o p o' p',
    m.stamp inputs s = .ok o ∧ o.machine.stamp inputs' t = .ok p ∧
    m.stamp inputs' t = .ok o' ∧ o'.machine.stamp inputs s = .ok p' ∧
    p.machine.screen = p'.machine.screen := by
  obtain ⟨o, first, screen, memory, dialect⟩ := m.stamp_eq inputs s
  obtain ⟨p, second, screens, -⟩ := o.machine.stamp_eq inputs' t
  obtain ⟨o', first', screen', memory', dialect'⟩ := m.stamp_eq inputs' t
  obtain ⟨p', second', screens', -⟩ := o'.machine.stamp_eq inputs s
  refine ⟨o, p, o', p', first, second, first', second', ?_⟩
  rw [screens, screens', screen, screen', t.spots_congr memory dialect, s.spots_congr memory' dialect']
  exact Canvas.turns_comm s.onScreen_spots t.onScreen_spots ⟨m.screen, false⟩ false false

/-- What a draw changes does not change which cells the next one turns over, unless it finds its
coordinates in VF. -/
theorem spots_drawn (hx : x < 15) (hy : y < 15) (screen : Screen) (redraw : Bool) (pc : UInt16)
    (lastFault : Option Fault) (flag : Bool) :
    ({ m with screen, redraw, pc, lastFault }.setFlag flag).spots x y n = m.spots x y n := by
  rw [spots, register_setFlag_of_lt hx, register_setFlag_of_lt hy]
  rfl

structure Twice (m : Machine) (x y n : UInt8) (once twice : Machine) : Prop where
  screen_once : once.screen = (m.drawn x y n).screen
  screen_twice : twice.screen = (once.drawn x y n).screen
  flag_once : once.register 15 = if (m.drawn x y n).collided then 1 else 0
  flag_twice : twice.register 15 = if (once.drawn x y n).collided then 1 else 0
  spots : once.spots x y n = m.spots x y n

theorem perform_draw_twice (m : Machine) (inputs inputs' : Inputs) (n : UInt8) (hx : x < 15)
    (hy : y < 15) : ∃ once twice, m.perform inputs (.draw x y n) = .ok once ∧
      once.machine.perform inputs' (.draw x y n) = .ok twice ∧
      m.Twice x y n once.machine twice.machine := by
  have hx' : x < 16 := UInt8.lt_trans hx (by decide)
  have hy' : y < 16 := UInt8.lt_trans hy (by decide)
  obtain ⟨once, _, first, after⟩ := perform_draw (m := m) (n := n) inputs hx' hy'
  obtain ⟨twice, _, second, after'⟩ := perform_draw (m := once.machine) (n := n) inputs' hx' hy'
  refine ⟨once, twice, first, second, ?_, ?_, ?_, ?_, ?_⟩
  · rw [after]
    rfl
  · rw [after']
    rfl
  · rw [after, register_setFlag]
  · rw [after', register_setFlag]
  · rw [after]
    exact spots_drawn hx hy _ _ _ _ _

namespace Twice

variable {once twice : Machine} (h : m.Twice x y n once twice)
include h

theorem screen : twice.screen = m.screen := by
  rw [h.screen_twice, drawn, h.spots, h.screen_once]
  exact Canvas.turns_twice onScreen_spots ⟨m.screen, false⟩ false

theorem covers (a b : Nat) : once.Covers x y n a b ↔ m.Covers x y n a b := by
  rw [← mem_spots, ← mem_spots, h.spots]

theorem collided_once (small : n.toNat ≤ 32) : once.register 15 = 1 ↔
    ∃ a b, m.Covers x y n a b ∧ m.screen.get a b = true := by
  rw [h.flag_once, ← collided_drawn small]
  cases (m.drawn x y n).collided <;> decide

theorem collided_twice (small : n.toNat ≤ 32) : twice.register 15 = 1 ↔
    ∃ a b, m.Covers x y n a b ∧ m.screen.get a b = false := by
  have on : ∀ a b, m.Covers x y n a b → (once.screen.get a b = true ↔ m.screen.get a b = false) := by
    intro a b covered
    rw [h.screen_once, get_drawn small, decide_eq_true covered, Bool.xor_true, Bool.not_eq_true']
  have collided : twice.register 15 = 1 ↔
      ∃ a b, once.Covers x y n a b ∧ once.screen.get a b = true := by
    rw [h.flag_twice, ← collided_drawn small]
    cases (once.drawn x y n).collided <;> decide
  rw [collided]
  refine exists_congr fun a => exists_congr fun b => ?_
  rw [h.covers]
  exact and_congr_right (on a b)

end Twice

/-- The same draw twice in a row leaves the screen as it was, whatever its height is, and any two draws
leave the same screen in either order. The first of two equal draws of up to fifteen rows collides if
and only if it covers a cell that was on, and the second if and only if it covers one that was off. -/
theorem draws_cancel_and_commute (m : Machine) (inputs inputs' : Inputs) {x y : UInt8}
    (hx : x < 15) (hy : y < 15) (n : UInt8) :
    (∃ once twice, m.perform inputs (.draw x y n) = .ok once ∧
      once.machine.perform inputs' (.draw x y n) = .ok twice ∧
      twice.machine.screen = m.screen ∧
      (n ≤ 15 →
        (once.machine.register 15 = 1 ↔ ∃ a b, m.Covers x y n a b ∧ m.screen.get a b = true) ∧
        (twice.machine.register 15 = 1 ↔ ∃ a b, m.Covers x y n a b ∧ m.screen.get a b = false) ∧
        (once.machine.register 15 = 0 ∧ twice.machine.register 15 = 0 →
          ∀ a b, ¬ m.Covers x y n a b))) ∧
    ∀ s t : Stamp, ∃ o p o' p',
      m.stamp inputs s = .ok o ∧ o.machine.stamp inputs' t = .ok p ∧
      m.stamp inputs' t = .ok o' ∧ o'.machine.stamp inputs s = .ok p' ∧
      p.machine.screen = p'.machine.screen := by
  obtain ⟨once, twice, first, second, both⟩ := m.perform_draw_twice inputs inputs' n hx hy
  refine ⟨⟨once, twice, first, second, both.screen, fun height => ?_⟩, m.stamps_comm inputs inputs'⟩
  have rows : n.toNat ≤ 15 := height
  have small : n.toNat ≤ 32 := by omega
  refine ⟨both.collided_once small, both.collided_twice small, ?_⟩
  rintro ⟨clear, clear'⟩ a b covered
  cases before : m.screen.get a b with
  | true =>
    have collided := (both.collided_once small).2 ⟨a, b, covered, before⟩
    rw [clear] at collided
    exact absurd collided (by decide)
  | false =>
    have collided := (both.collided_twice small).2 ⟨a, b, covered, before⟩
    rw [clear'] at collided
    exact absurd collided (by decide)

theorem draws_cancel_and_commute_straddling :
    ∃ once twice, straddling.perform {} (.draw 0 1 1) = .ok once ∧
      once.machine.perform {} (.draw 0 1 1) = .ok twice ∧
      twice.machine.screen = straddling.screen ∧
      once.machine.register 15 = 1 ∧ twice.machine.register 15 = 1 := by
  obtain ⟨⟨once, twice, first, second, screen, flags⟩, -⟩ :=
    draws_cancel_and_commute straddling {} {} (x := 0) (y := 1) (by decide) (by decide) 1
  obtain ⟨collided, collided', -⟩ := flags (by decide)
  obtain ⟨left, right⟩ := straddling_covers 0 1
  obtain ⟨on, off⟩ := straddling_screen
  exact ⟨once, twice, first, second, screen, collided.2 ⟨0, 31, left, on⟩,
    collided'.2 ⟨63, 31, right, off⟩⟩

end Machine

end Chip8
