import Chip8.Machine.Step

namespace Chip8

namespace Machine

variable {m m' : Machine} {x k value : UInt8} {flag : Bool}

theorem getV_of_lt (h : x < 16) : m.getV x = .ok (m.register x) := by
  have hx : x.toNat < 16 := h
  rw [getV_eq _ hx, register]
  simp [Nat.mod_eq_of_lt hx]

theorem register_of_getV (h : m.getV x = .ok value) : m.register x = value := by
  rw [getV] at h
  split at h
  · next found =>
    cases h
    obtain ⟨hx, found⟩ := Vector.getElem?_eq_some_iff.1 found
    simpa only [register, Nat.mod_eq_of_lt hx] using found
  · cases h

theorem setV_of_lt (h : x < 16) (value : UInt8) :
    m.setV x value = .ok { m with registers := m.registers.set x.toNat value h } := dif_pos h

theorem lt_of_setV (h : m.setV x value = .ok m') : x < 16 := by
  rw [setV] at h
  split at h
  · assumption
  · cases h

theorem register_of_lt (h : k.toNat < 16) : m.register k = m.registers[k.toNat] := by
  simp only [register, Nat.mod_eq_of_lt h]

theorem register_set (hx : x.toNat < 16) (hk : k < 16) :
    Machine.register { m with registers := m.registers.set x.toNat value hx } k =
      if k = x then value else m.register k := by
  have hk : k.toNat < 16 := hk
  rw [register_of_lt hk, register_of_lt hk, Vector.getElem_set]
  simp only [UInt8.toNat_inj, eq_comm]

@[simp] theorem register_setFlag : (m.setFlag flag).register 15 = if flag then 1 else 0 :=
  Vector.getElem_set_self (by decide)

theorem register_setFlag_of_lt (h : k < 15) : (m.setFlag flag).register k = m.register k := by
  have low : k.toNat < 15 := h
  exact Vector.getElem_set_ne (by decide) _ (by omega)

theorem register_setFlag_of_ne (hk : k < 16) (other : k ≠ 15) :
    (m.setFlag flag).register k = m.register k :=
  register_setFlag_of_lt (show k < 15 by grind)

end Machine

end Chip8
