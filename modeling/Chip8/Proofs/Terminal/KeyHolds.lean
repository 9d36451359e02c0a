import Chip8.Terminal.KeyHolds

namespace Chip8.Terminal

namespace KeyHolds

def pressed? (h : KeyHolds) (key : UInt8) : Option Nat := h.pressedAt[key.toNat]?.getD none

@[simp] theorem pressed?_fresh (timeout : Nat) (key : UInt8) :
    ({ timeout } : KeyHolds).pressed? key = none := by
  simp only [pressed?, Vector.getElem?_replicate]
  split <;> rfl

theorem pressed?_of_le (h : KeyHolds) {key : UInt8} (hk : 16 ≤ key.toNat) :
    h.pressed? key = none := by
  simp [pressed?, Vector.getElem?_eq_none hk]

@[simp] theorem timeout_push (h : KeyHolds) (pressed : UInt8) (now : Nat) :
    (h.push pressed now).timeout = h.timeout := rfl

@[simp] theorem timeout_popExpired (h : KeyHolds) (now : Nat) :
    (h.popExpired now).2.timeout = h.timeout := rfl

theorem pressed?_push (h : KeyHolds) (pressed key : UInt8) (now : Nat) :
    (h.push pressed now).pressed? key =
      if pressed = key ∧ key.toNat < 16 then some now else h.pressed? key := by
  simp only [pressed?, push, Vector.getElem?_setIfInBounds, UInt8.toNat_inj]
  by_cases hk : pressed = key
  · subst hk
    by_cases hlt : pressed.toNat < 16 <;> simp [hlt]
  · simp [hk]

theorem isExpired_iff (h : KeyHolds) (now : Nat) (p : Option Nat) :
    h.isExpired now p = true ↔ ∃ pressed, p = some pressed ∧ h.timeout ≤ now - pressed := by
  cases p <;> simp [isExpired]

theorem pressed?_popExpired (h : KeyHolds) (now : Nat) (key : UInt8) :
    (h.popExpired now).2.pressed? key =
      (h.pressed? key).filter fun pressed => now - pressed < h.timeout := by
  simp only [pressed?, popExpired, Vector.getElem?_map]
  cases h.pressedAt[key.toNat]? with
  | none => rfl
  | some p =>
    cases p with
    | none => rfl
    | some pressed =>
      by_cases hlt : now - pressed < h.timeout
      · simp [isExpired, Option.filter, Nat.not_le.mpr hlt, hlt]
      · simp [isExpired, Option.filter, Nat.not_lt.mp hlt, hlt]

theorem mem_expired (h : KeyHolds) (now : Nat) (key : UInt8) :
    key ∈ (h.popExpired now).1 ↔
      ∃ pressed, h.pressed? key = some pressed ∧ h.timeout ≤ now - pressed := by
  rw [← isExpired_iff]
  simp only [popExpired, expired, List.mem_map, List.mem_filter, List.mem_range]
  constructor
  · rintro ⟨k, ⟨hk, hexp⟩, rfl⟩
    have hto : (UInt8.ofNat k).toNat = k := UInt8.toNat_ofNat_of_lt (Nat.lt_trans hk (by decide))
    simpa [pressed?, hto] using hexp
  · intro hexp
    have hlt : key.toNat < 16 := by
      refine Nat.lt_of_not_le fun hge => ?_
      rw [h.pressed?_of_le hge] at hexp
      cases hexp
    exact ⟨key.toNat, ⟨hlt, hexp⟩, UInt8.ofNat_toNat⟩

end KeyHolds

end Chip8.Terminal
