import Chip8.Proofs.Machine.Cycles
import Chip8.Proofs.Machine.Registers

namespace Chip8

theorem toNat_sub (v s : UInt8) : (v - s).toNat = (256 + v.toNat - s.toNat) % 256 := by
  have byte := s.toNat_lt
  rw [UInt8.toNat_sub]
  omega

theorem toNat_shiftRight_one (s : UInt8) : (s >>> 1).toNat = s.toNat / 2 := by
  rw [UInt8.toNat_shiftRight]
  exact Nat.shiftRight_eq_div_pow s.toNat 1

theorem toNat_shiftLeft_one (s : UInt8) : (s <<< 1).toNat = 2 * s.toNat % 256 := by
  rw [UInt8.toNat_shiftLeft]
  exact congrArg (· % 256) ((Nat.shiftLeft_eq ..).trans (Nat.mul_comm ..))

namespace Machine

structure Flagged (m m' : Machine) (x : UInt8) (result : Nat) (flag : Bool) : Prop where
  vf : m'.register 15 = if flag then 1 else 0
  vx : x ≠ 15 → (m'.register x).toNat = result
  others : ∀ k < 16, k ≠ x → k ≠ 15 → m'.register k = m.register k

variable {m : Machine} {op : Arith} {x y s : UInt8} {result : Nat} {flag : Bool} (inputs : Inputs)

theorem flagged_setFlag (hx : x.toNat < 16) (value : UInt8) :
    m.Flagged ({ m with registers := m.registers.set x.toNat value hx }.setFlag flag) x value.toNat
      flag where
  vf := register_setFlag
  vx other := by rw [register_setFlag_of_ne hx other, register_set hx hx, if_pos rfl]
  others k hk apart other := by rw [register_setFlag_of_ne hk other, register_set hx hk, if_neg apart]

theorem perform_flagged (hx : x < 16) (hy : y < 16)
    (operand : m.register (op.source m.dialect x y) = s)
    (flagged : op.flag? (m.register x) s = some flag)
    (value : (op.result (m.register x) s).toNat = result) :
    ∃ o, m.perform inputs (.arith op x y) = .ok o ∧ m.Flagged o.machine x result flag := by
  have executed : m.execute inputs (.arith op x y) = .ok
      { machine := { m with registers := m.registers.set x.toNat (op.result (m.register x) s) hx }.setFlag
          flag } := by
    simp only [execute, arith, getV_of_lt (Arith.source_lt hx hy), getV_of_lt hx, setV_of_lt hx, operand, bind,
      Except.bind, flagged]
    rfl
  obtain ⟨lastFault, settled⟩ := settle_machine _
  refine ⟨_, perform_of_execute inputs executed, ?_⟩
  rw [settled, ← value]
  exact { flagged_setFlag (m := m) hx _ with }

theorem source_of_shift (shift : op.isShift = true) :
    m.register (op.source m.dialect x y) =
      if m.dialect.shiftReadsY then m.register y else m.register x := by
  rw [Arith.source, shift]
  cases m.dialect.shiftReadsY <;> rfl

/-- After a sum VF tells of a carry, after a difference that there was no borrow, and after a shift
which bit was shifted out. VX holds the result, unless it is VF itself, and no other register has
changed. -/
theorem arithmetic_leaves_flags (m : Machine) (inputs : Inputs) {x y : UInt8} (hx : x < 16)
    (hy : y < 16) :
    let v := (m.register x).toNat
    let w := (m.register y).toNat
    let s := if m.dialect.shiftReadsY then w else v
    (∃ o, m.perform inputs (.arith .add x y) = .ok o ∧
      m.Flagged o.machine x ((v + w) % 256) (255 < v + w)) ∧
    (∃ o, m.perform inputs (.arith .sub x y) = .ok o ∧
      m.Flagged o.machine x ((256 + v - w) % 256) (w ≤ v)) ∧
    (∃ o, m.perform inputs (.arith .subFrom x y) = .ok o ∧
      m.Flagged o.machine x ((256 + w - v) % 256) (v ≤ w)) ∧
    (∃ o, m.perform inputs (.arith .shiftRight x y) = .ok o ∧
      m.Flagged o.machine x (s / 2) (s.testBit 0)) ∧
    (∃ o, m.perform inputs (.arith .shiftLeft x y) = .ok o ∧
      m.Flagged o.machine x (2 * s % 256) (s.testBit 7)) := by
  intro v w s
  have shifted : (if m.dialect.shiftReadsY then m.register y else m.register x).toNat = s :=
    apply_ite UInt8.toNat ..
  refine ⟨perform_flagged inputs hx hy rfl rfl (UInt8.toNat_add ..),
    perform_flagged inputs hx hy rfl rfl (toNat_sub ..),
    perform_flagged inputs hx hy rfl rfl (toNat_sub ..), ?_, ?_⟩
  · refine perform_flagged inputs hx hy (source_of_shift rfl) ?_ ?_
    · rw [Arith.flag?, shifted]
    · rw [Arith.result, toNat_shiftRight_one, shifted]
  · refine perform_flagged inputs hx hy (source_of_shift rfl) ?_ ?_
    · rw [Arith.flag?, shifted]
    · rw [Arith.result, toNat_shiftLeft_one, shifted]

def doubling : Machine :=
  { initial { shiftReadsY := true } with
    registers := #v[200, 0, 0, 0, 0, 0, 0, 0, 0, 0, 0, 0, 0, 0, 0, 200] }

theorem arithmetic_leaves_flags_doubling :
    (∃ o, doubling.perform {} (.arith .add 0 15) = .ok o ∧
      (o.machine.register 0).toNat = 144 ∧ o.machine.register 15 = 1) ∧
    (∃ o, doubling.perform {} (.arith .sub 15 0) = .ok o ∧
      o.machine.register 0 = 200 ∧ o.machine.register 15 = 1) ∧
    (∃ o, doubling.perform {} (.arith .shiftLeft 1 0) = .ok o ∧
      (o.machine.register 1).toNat = 144 ∧ o.machine.register 15 = 1) := by
  obtain ⟨⟨a, added, sum⟩, -⟩ :=
    arithmetic_leaves_flags doubling {} (x := 0) (y := 15) (by decide) (by decide)
  obtain ⟨-, ⟨b, subtracted, difference⟩, -⟩ :=
    arithmetic_leaves_flags doubling {} (x := 15) (y := 0) (by decide) (by decide)
  obtain ⟨-, -, -, -, c, shifted, twice⟩ :=
    arithmetic_leaves_flags doubling {} (x := 1) (y := 0) (by decide) (by decide)
  exact ⟨⟨a, added, sum.vx (by decide), sum.vf⟩,
    ⟨b, subtracted, difference.others 0 (by decide) (by decide) (by decide), difference.vf⟩,
    ⟨c, shifted, twice.vx (by decide), twice.vf⟩⟩

end Machine

end Chip8
