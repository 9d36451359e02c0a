import Chip8.Proofs.Machine.Copies
import Chip8.Proofs.Machine.Registers
import Mathlib.Data.Nat.Digits.Lemmas

namespace Chip8

/-- Digits are the decimal numeral of a number, the most significant one first. Only zero begins with a
zero. -/
structure Numeral (digits : List UInt8) (value : Nat) : Prop where
  digit : ∀ d ∈ digits, d ≤ 9
  spells : Nat.ofDigits 10 (digits.reverse.map UInt8.toNat) = value
  first : digits.head? = some 0 → value = 0

theorem map_toNat_decimalDigits {value : UInt8} (positive : value.toNat ≠ 0) :
    (decimalDigits value).toList.reverse.map UInt8.toNat = Nat.digits 10 value.toNat := by
  rw [decimalDigits]
  split
  · next one =>
    have one : value.toNat < 10 := one
    rw [Nat.digits_of_lt 10 _ positive one]
    rfl
  · next more =>
    have more : 10 ≤ value.toNat := Nat.le_of_not_lt more
    rw [Nat.digits_def' (by decide) (by omega)]
    split
    · next two =>
      have two : value.toNat < 100 := two
      rw [Nat.digits_of_lt 10 _ (by omega) (by omega)]
      rfl
    · next three =>
      have three : 100 ≤ value.toNat := Nat.le_of_not_lt three
      have := value.toNat_lt
      have first : (value / 100).toNat = value.toNat / 10 / 10 := by
        rw [UInt8.toNat_div, Nat.div_div_eq_div_mul]
        rfl
      rw [Nat.digits_def' (by decide) (by omega), Nat.digits_of_lt 10 _ (by omega) (by omega), ← first]
      rfl

theorem numeral_decimalDigits (value : UInt8) : Numeral (decimalDigits value).toList value.toNat := by
  by_cases positive : value.toNat = 0
  · obtain rfl : value = 0 := UInt8.toNat_inj.1 positive
    exact ⟨List.forall_mem_singleton.2 (by decide), by decide, fun _ => rfl⟩
  · have digits := map_toNat_decimalDigits positive
    refine ⟨?_, ?_, ?_⟩
    · intro d hd
      have digit : d.toNat ∈ Nat.digits 10 value.toNat := by
        rw [← digits]
        exact List.mem_map_of_mem (List.mem_reverse.2 hd)
      exact Nat.le_of_lt_succ (Nat.digits_lt_base (by decide) digit)
    · rw [digits, Nat.ofDigits_digits]
    · intro zero
      have last : (Nat.digits 10 value.toNat).getLast? = some 0 := by
        rw [← digits, List.getLast?_map, List.getLast?_reverse, zero]
        rfl
      rw [List.getLast?_eq_some_getLast (Nat.digits_ne_nil_iff_ne_zero.2 positive)] at last
      exact absurd (Option.some.inj last) (Nat.getLast_digit_ne_zero 10 positive)

theorem size_decimalDigits (value : UInt8) :
    (decimalDigits value).size = (Nat.toDigits 10 value.toNat).length := by
  rw [decimalDigits]
  split
  · next one =>
    have one : value.toNat < 10 := one
    rw [Nat.toDigits_of_lt_base one]
    rfl
  · next more =>
    have more : 10 ≤ value.toNat := Nat.le_of_not_lt more
    rw [Nat.toDigits_of_base_le (by decide) more, List.length_append]
    split
    · next two =>
      have two : value.toNat < 100 := two
      rw [Nat.toDigits_of_lt_base (by omega)]
      rfl
    · next three =>
      have three : 100 ≤ value.toNat := Nat.le_of_not_lt three
      have := value.toNat_lt
      rw [Nat.toDigits_of_base_le (by decide) (by omega), Nat.toDigits_of_lt_base (by omega)]
      rfl

namespace Machine

variable {m : Machine} {x : UInt8} (inputs : Inputs)

theorem perform_storeDecimal_of_copy (hx : x < 16) {memory : Memory}
    (copied : m.memory.copy m.index.toNat (decimalDigits (m.register x)) = .ok memory) :
    m.perform inputs (.storeDecimal x) = .ok ⟨{ m with memory, pc := m.pc + 2 }, none, []⟩ := by
  apply perform_of_execute (e := { machine := { m with memory } })
  simp only [execute, getV_of_lt hx, copied, bind, Except.bind]
  rfl

theorem perform_storeDecimal_of_misfit (hx : x < 16) {misfit : Memory.Misfit}
    (refused : m.memory.copy m.index.toNat (decimalDigits (m.register x)) = .error misfit) :
    m.perform inputs (.storeDecimal x) = .ok
      ⟨{ m with pc := m.pc + 2, lastFault := some misfit.fault }, some misfit.fault,
        [.misfit misfit, .fault misfit.fault]⟩ := by
  apply perform_of_execute inputs
    (e := { machine := m, fault := some misfit.fault, notes := [.misfit misfit] })
  simp only [execute, getV_of_lt hx, refused, bind, Except.bind]
  rfl

/-- FX33 writes the decimal numeral of VX from I on if there is room for all of its digits. Every byte
elsewhere is as before, also behind a numeral that is shorter than an earlier one, and so is the rest of the
machine. If there is no room, no byte is written, the fault is reported, and the program goes on all the
same. -/
theorem numerals_are_written_whole (m : Machine) (inputs : Inputs) {x : UInt8} (hx : x < 16) :
    let start := m.index.toNat
    let length := (Nat.toDigits 10 (m.register x).toNat).length
    (start + length ≤ 4096 → ∃ memory digits,
      m.perform inputs (.storeDecimal x) = .ok ⟨{ m with memory, pc := m.pc + 2 }, none, []⟩ ∧
      digits.length = length ∧ Numeral digits (m.register x).toNat ∧
      m.memory.Written memory start digits) ∧
    (4096 < start + length →
      let fault : Fault := .memoryOutOfBounds (max start 4096)
      m.perform inputs (.storeDecimal x) = .ok
        ⟨{ m with pc := m.pc + 2, lastFault := some fault }, some fault,
          [.misfit ⟨length, start⟩, .fault fault]⟩) := by
  intro start length
  have size : (decimalDigits (m.register x)).size = length := size_decimalDigits _
  refine ⟨fun fits => ?_, fun large => ?_⟩
  · obtain ⟨memory, copied⟩ := m.memory.exists_copy (size.symm ▸ fits)
    exact ⟨memory, _, perform_storeDecimal_of_copy inputs hx copied, size, numeral_decimalDigits _,
      Memory.written_copy copied⟩
  · intro fault
    rw [← size] at large ⊢
    exact perform_storeDecimal_of_misfit inputs hx (Memory.copy_of_lt large)

def overwriting : Machine :=
  { initial {} with
    memory := (Memory.initial.put 0x0FFE 2).put 0x0FFF 5
    registers := #v[0, 7, 123, 0, 0, 0, 0, 0, 0, 0, 0, 0, 0, 0, 0, 0]
    index := 0x0FFE }

theorem numerals_are_written_whole_overwriting :
    (∃ o, overwriting.perform {} (.storeDecimal 1) = .ok o ∧ o.fault = none ∧
      o.machine.memory.read 0x0FFE = .ok 7 ∧ o.machine.memory.read 0x0FFF = .ok 5) ∧
    ∃ o, overwriting.perform {} (.storeDecimal 2) = .ok o ∧
      o.fault = some (.memoryOutOfBounds 0x1000) ∧ o.machine.memory = overwriting.memory ∧
      o.machine.pc = 0x202 := by
  constructor
  · obtain ⟨fits, -⟩ := numerals_are_written_whole overwriting {} (x := 1) (by decide)
    obtain ⟨memory, digits, performed, length, numeral, written⟩ := fits (by decide)
    obtain ⟨d, rfl⟩ := List.length_eq_one_iff.1 (length.trans (by decide))
    have spells : Nat.ofDigits 10 [d.toNat] = 7 := numeral.spells
    obtain rfl : d = 7 := UInt8.toNat_inj.1 (Nat.ofDigits_singleton.symm.trans spells)
    have left : overwriting.memory.read 0x0FFF = .ok 5 := by
      rw [overwriting, Memory.read_put_self (by decide)]
    exact ⟨_, performed, rfl, written.inside 0 (by decide),
      (written.outside 0x0FFF (.inr (Nat.le_refl _))).trans left⟩
  · obtain ⟨-, large⟩ := numerals_are_written_whole overwriting {} (x := 2) (by decide)
    exact ⟨_, large (by decide), rfl, rfl, rfl⟩

end Machine

end Chip8
