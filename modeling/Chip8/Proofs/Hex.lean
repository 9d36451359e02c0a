import Chip8.Hex

namespace Chip8.Hex

/-- The value of a hexadecimal digit. Both cases of a letter agree in their last five bits. -/
def digitValue (c : Char) : Nat := if c.toNat < 58 then c.toNat - 48 else c.toNat % 32 + 9

def value (ds : List Char) : Nat := ds.foldl (fun n d => 16 * n + digitValue d) 0

theorem value_concat (ds : List Char) (d : Char) :
    value (ds ++ [d]) = 16 * value ds + digitValue d := by
  simp [value]

theorem value_zeros (count : Nat) (ds : List Char) :
    value (List.replicate count '0' ++ ds) = value ds := by
  induction count with
  | zero => rfl
  | succ count ih => exact ih

theorem digitValue_digitChar : ∀ d < 16, digitValue d.digitChar = d := by decide

theorem digitValue_toUpper_digitChar : ∀ d < 16, digitValue d.digitChar.toUpper = d := by decide

theorem forall_mem_toDigits {base : Nat} {P : Char → Prop} (hbase : 1 < base)
    (h : ∀ d < base, P d.digitChar) (n : Nat) : ∀ c ∈ Nat.toDigits base n, P c := by
  induction n using Nat.strongRecOn with
  | ind n ih =>
    rw [Nat.toDigits_eq_if hbase]
    split
    · next small => simpa using h n small
    · next large =>
      have positive : 0 < n := by omega
      intro c hc
      rcases List.mem_append.1 hc with first | last
      · exact ih (n / base) (Nat.div_lt_self positive hbase) c first
      · rw [List.mem_singleton.1 last]
        exact h (n % base) (Nat.mod_lt _ (Nat.zero_lt_of_lt hbase))

theorem forall_mem_digits {P : Char → Prop} (h : ∀ d < 16, P d.digitChar) (width n : Nat) :
    ∀ c ∈ digits width n, P c := by
  intro c hc
  rcases List.mem_append.1 hc with zero | digit
  · rw [List.eq_of_mem_replicate zero]
    exact h 0 (by decide)
  · exact forall_mem_toDigits (by decide) h n c digit

theorem value_map_toDigits {f : Char → Char} (h : ∀ d < 16, digitValue (f d.digitChar) = d) (n : Nat) :
    value ((Nat.toDigits 16 n).map f) = n := by
  induction n using Nat.strongRecOn with
  | ind n ih =>
    rw [Nat.toDigits_eq_if (by decide)]
    split
    · next small => simpa [value] using h n small
    · next large =>
      rw [List.map_append, List.map_singleton, value_concat, ih (n / 16) (by omega),
        h (n % 16) (Nat.mod_lt _ (by decide))]
      omega

theorem value_digits (width n : Nat) : value (digits width n) = n := by
  have read := value_map_toDigits (f := id) digitValue_digitChar n
  rw [List.map_id] at read
  exact (value_zeros _ _).trans read

theorem value_map_toUpper_digits (width n : Nat) : value ((digits width n).map Char.toUpper) = n := by
  have zero : '0'.toUpper = '0' := by decide
  rw [digits, List.map_append, List.map_replicate, zero, value_zeros]
  exact value_map_toDigits digitValue_toUpper_digitChar n

theorem length_digits (width n : Nat) :
    (digits width n).length = max width (Nat.toDigits 16 n).length := by
  simp only [digits, List.length_append, List.length_replicate]
  omega

theorem length_digits_byte (b : UInt8) : (digits 2 b.toNat).length = 2 := by
  rw [length_digits]
  exact Nat.max_eq_left ((Nat.length_toDigits_le_iff (by decide) (by decide)).2 b.toNat_lt)

theorem toList_marked (width n : Nat) : (marked width n).toList = '0' :: 'x' :: digits width n := by
  rw [marked, lower, String.toList_append]
  exact congrArg (['0', 'x'] ++ ·) String.toList_ofList

def read (text : String) : Nat := value (text.toList.drop 2)

theorem read_marked (width n : Nat) : read (marked width n) = n := by
  rw [read, toList_marked]
  exact value_digits width n

theorem marked_injective (width : Nat) : Function.Injective (marked width) := by
  intro n n' same
  rw [← read_marked width n, same, read_marked]

theorem toList_upper (width n : Nat) : (upper width n).toList = (digits width n).map Char.toUpper :=
  String.toList_ofList

theorem value_upper (width n : Nat) : value (upper width n).toList = n := by
  rw [toList_upper, value_map_toUpper_digits]

theorem length_upper_byte (b : UInt8) : (upper 2 b.toNat).toList.length = 2 := by
  rw [toList_upper, List.length_map, length_digits_byte]

end Chip8.Hex
