namespace Chip8

/-- `n / d`, rounded to the nearest whole number, and to the even one of two. -/
def roundDiv (n d : Nat) : Nat :=
  let twice := 2 * (n % d)
  if twice < d ∨ (twice = d ∧ n / d % 2 = 0) then n / d else n / d + 1

theorem roundDiv_mul (q d : Nat) (pos : 0 < d) : roundDiv (q * d) d = q := by
  simp [roundDiv, pos]

theorem roundDiv_near (n d : Nat) (pos : 0 < d) :
    2 * n ≤ 2 * (roundDiv n d * d) + d ∧ 2 * (roundDiv n d * d) ≤ 2 * n + d := by
  have split := Nat.div_add_mod n d
  have rest := Nat.mod_lt n pos
  have comm := Nat.mul_comm d (n / d)
  simp only [roundDiv]
  split
  · omega
  · rw [Nat.add_mul]; omega

end Chip8
