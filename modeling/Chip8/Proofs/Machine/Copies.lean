import Chip8.Proofs.Machine.Transfers

namespace Chip8

namespace Memory

def writeAll (m : Memory) (address : Nat) : List UInt8 → Except Fault Memory
  | [] => .ok m
  | byte :: bytes => do
    let m ← m.write address byte
    m.writeAll (address + 1) bytes

structure Written (m m' : Memory) (address : Nat) (bytes : List UInt8) : Prop where
  inside : ∀ k (h : k < bytes.length), m'.read (address + k) = .ok bytes[k]
  outside : ∀ i, i < address ∨ address + bytes.length ≤ i → m'.read i = m.read i

def less? (a b : USize) : Option USize := if b ≤ a then some (a - b) else none

/-- Whether a block overruns memory, found out with the words that hold its address and its length. The
address is looked at first: beyond the end of memory there is no room to be found. -/
def overruns? (address length : USize) : Option Bool :=
  if 4096 < address then some true
  else (less? 4096 address).map fun room => decide (room < length)

variable {m m' : Memory} {address : Nat} {byte : UInt8} {bytes : List UInt8} {block : Array UInt8}

theorem toNat_size : (4096 : USize).toNat = 4096 :=
  USize.toNat_ofNat_of_lt (Nat.lt_of_lt_of_le (by decide) USize.le_size)

theorem overruns?_eq (address length : USize) :
    overruns? address length = some (decide (4096 < address.toNat + length.toNat)) := by
  by_cases beyond : 4096 < address
  · have far := USize.lt_iff_toNat_lt.1 beyond
    rw [toNat_size] at far
    rw [overruns?, if_pos beyond, decide_eq_true (by omega)]
  · have le : address ≤ 4096 := USize.not_lt.1 beyond
    have near := USize.le_iff_toNat_le.1 le
    rw [toNat_size] at near
    have same : 4096 - address < length ↔ 4096 < address.toNat + length.toNat := by
      rw [USize.lt_iff_toNat_lt, USize.toNat_sub_of_le _ _ le, toNat_size]
      omega
    rw [overruns?, if_neg beyond, less?, if_pos le, Option.map_some, decide_eq_decide.2 same]

theorem read_put_self (h : address < 4096) : (m.put address byte).read address = .ok byte :=
  read_of_getElem? (getElem?_put_self m byte h)

theorem read_put_of_ne {i : Nat} (h : i ≠ address) : (m.put address byte).read i = m.read i :=
  read_congr (getElem?_put_of_ne m byte h)

theorem ext_read (h : ∀ i < 4096, m.read i = m'.read i) : m = m' := by
  obtain ⟨cells⟩ := m
  obtain ⟨cells'⟩ := m'
  congr 1
  apply Vector.ext
  intro i hi
  have same := h i hi
  rw [read_of_lt _ hi, read_of_lt _ hi] at same
  exact Except.ok.inj same

theorem Written.unique {a b : Memory} (ha : m.Written a address bytes) (hb : m.Written b address bytes) :
    a = b := by
  apply ext_read
  intro i _
  by_cases apart : i < address ∨ address + bytes.length ≤ i
  · rw [ha.outside i apart, hb.outside i apart]
  · have place : address + (i - address) = i := by omega
    rw [← place, ha.inside _ (by omega), hb.inside _ (by omega)]

theorem Written.cons (inside : address < 4096)
    (h : (m.put address byte).Written m' (address + 1) bytes) : m.Written m' address (byte :: bytes) where
  inside k hk := by
    cases k with
    | zero => exact (h.outside address (by omega)).trans (read_put_self inside)
    | succ k =>
      rw [show address + (k + 1) = address + 1 + k by omega]
      exact h.inside k (Nat.lt_of_succ_lt_succ hk)
  outside i apart := by
    rw [List.length_cons] at apart
    rw [h.outside i (by omega)]
    exact read_put_of_ne (by omega)

theorem written_writeAll (h : m.writeAll address bytes = .ok m') : m.Written m' address bytes := by
  induction bytes generalizing m address with
  | nil =>
    cases h
    exact ⟨nofun, fun _ _ => rfl⟩
  | cons byte bytes ih =>
    by_cases inside : address < 4096
    · rw [writeAll, write_of_lt _ _ inside] at h
      exact (ih h).cons inside
    · rw [writeAll, write_of_le _ _ (Nat.le_of_not_lt inside)] at h
      cases h

theorem exists_writeAll (fits : address + bytes.length ≤ 4096) :
    ∃ m', m.writeAll address bytes = .ok m' := by
  induction bytes generalizing m address with
  | nil => exact ⟨m, rfl⟩
  | cons byte bytes ih =>
    rw [List.length_cons] at fits
    rw [writeAll, write_of_lt _ _ (by omega)]
    exact ih (by omega)

theorem writeAll_of_lt (some : bytes ≠ []) (large : 4096 < address + bytes.length) :
    m.writeAll address bytes = .error (.memoryOutOfBounds (max address 4096)) := by
  induction bytes generalizing m address with
  | nil => exact absurd rfl some
  | cons byte bytes ih =>
    rw [List.length_cons] at large
    by_cases inside : address < 4096
    · rw [writeAll, write_of_lt _ _ inside]
      have more : bytes ≠ [] := by
        rintro rfl
        rw [List.length_nil] at large
        omega
      have rest : (m.put address byte).writeAll (address + 1) bytes
          = .error (.memoryOutOfBounds (max (address + 1) 4096)) := ih more (by omega)
      rwa [show max (address + 1) 4096 = max address 4096 by omega] at rest
    · have outside := Nat.le_of_not_lt inside
      rw [writeAll, write_of_le _ _ outside, Nat.max_eq_left outside]
      rfl

theorem written_copy (h : m.copy address block = .ok m') : m.Written m' address block.toList := by
  constructor
  · intro k hk
    have hk : k < block.size := hk
    apply read_of_getElem?
    rw [getElem?_copy h, if_pos (by omega), Nat.add_sub_cancel_left, Array.getElem?_eq_getElem hk]
    rfl
  · intro i apart
    rw [Array.length_toList] at apart
    apply read_congr
    rw [getElem?_copy h, if_neg (by omega)]

theorem succeeds_copy_iff : Succeeds (m.copy address block) ↔ address + block.size ≤ 4096 := by
  constructor
  · rintro ⟨m', copied⟩
    apply Nat.le_of_not_lt
    intro large
    cases (copy_of_lt (m := m) large).symm.trans copied
  · exact exists_copy

theorem writeAll_of_copy (h : m.copy address block = .ok m') :
    m.writeAll address block.toList = .ok m' := by
  obtain ⟨m'', all⟩ := exists_writeAll (m := m) (succeeds_copy_iff.1 ⟨m', h⟩)
  rw [all, (written_writeAll all).unique (written_copy h)]

theorem eq_misfit {misfit : Misfit} (h : m.copy address block = .error misfit) :
    4096 < address + block.size ∧ misfit = ⟨block.size, address⟩ := by
  unfold copy at h
  split at h
  · cases h
  · next large =>
    cases h
    exact ⟨Nat.lt_of_not_le large, rfl⟩

/-- A block is copied if and only if its place begins no later than memory ends and ends no later, which can
be told without a difference below zero. Then memory is what writing byte after byte makes of it. Otherwise
nothing is written, and the fault is the one on which writing byte after byte would stop, or the address of
a block of no bytes. So a program is loaded if and only if it has at most 3584 bytes. It is then written to
its place and nowhere else, and a larger one changes nothing and is reported with its size. -/
theorem copies_are_all_or_nothing (m : Memory) (address : Nat) (block : Array UInt8) :
    (Succeeds (m.copy address block) ↔ address ≤ 4096 ∧ address + block.size ≤ 4096) ∧
    (∀ a n : USize, a.toNat = address → n.toNat = block.size →
      ∃ beyond, overruns? a n = some beyond ∧
        (beyond = false ↔ Succeeds (m.copy address block))) ∧
    (∀ m', m.copy address block = .ok m' →
      m.writeAll address block.toList = .ok m' ∧ m.Written m' address block.toList) ∧
    (∀ misfit, m.copy address block = .error misfit →
      misfit.fault = .memoryOutOfBounds (max address 4096) ∧
      (block ≠ #[] → m.writeAll address block.toList = .error misfit.fault)) ∧
    ∀ (machine : Machine) (program : Array UInt8),
      let fault : Fault := .programTooLarge program.size 3584
      ((machine.load program).fault = none ↔ program.size ≤ 3584) ∧
      (program.size ≤ 3584 → ∃ memory,
        machine.load program = ⟨{ machine with memory }, none, [.loaded program.size]⟩ ∧
        machine.memory.Written memory 0x200 program.toList) ∧
      (3584 < program.size → machine.load program = ⟨{ machine with lastFault := some fault },
        some fault, [.misfit ⟨program.size, 0x200⟩, .fault fault]⟩) := by
  refine ⟨?_, ?_, ?_, ?_, ?_⟩
  · rw [succeeds_copy_iff]
    exact ⟨fun fits => ⟨by omega, fits⟩, And.right⟩
  · intro a n start length
    refine ⟨_, overruns?_eq a n, ?_⟩
    rw [decide_eq_false_iff_not, Nat.not_lt, start, length, succeeds_copy_iff]
  · intro m' copied
    exact ⟨writeAll_of_copy copied, written_copy copied⟩
  · intro misfit refused
    obtain ⟨large, rfl⟩ := eq_misfit refused
    refine ⟨rfl, fun some => writeAll_of_lt ?_ large⟩
    exact fun none => some (Array.toList_eq_nil_iff.1 none)
  · intro machine program fault
    refine ⟨Machine.fault_load_eq_none_iff, fun small => ?_, Machine.load_of_lt⟩
    obtain ⟨memory, copied, loaded⟩ := Machine.load_of_le (m := machine) small
    exact ⟨memory, loaded, written_copy copied⟩

theorem copies_are_all_or_nothing_brimming :
    (∃ memory, initial.copy 0x0FFE #[1, 2] = .ok memory ∧
      initial.writeAll 0x0FFE [1, 2] = .ok memory ∧ memory.read 0x0FFF = .ok 2) ∧
    initial.writeAll 0x0FFF [1, 2] = .error (.memoryOutOfBounds 0x1000) ∧
    Succeeds (initial.copy 0x1000 #[]) ∧ ¬ Succeeds (initial.copy 0x1001 #[]) ∧
    (Machine.load {} (Array.replicate 3585 0)).fault = some (.programTooLarge 3585 3584) := by
  obtain ⟨fits, -, written, -⟩ := copies_are_all_or_nothing initial 0x0FFE #[1, 2]
  obtain ⟨-, -, -, refused, -⟩ := copies_are_all_or_nothing initial 0x0FFF #[1, 2]
  obtain ⟨ends, -⟩ := copies_are_all_or_nothing initial 0x1000 #[]
  obtain ⟨beyond, -, -, -, loads⟩ := copies_are_all_or_nothing initial 0x1001 #[]
  obtain ⟨memory, copied⟩ := fits.2 (by decide)
  obtain ⟨all, bytes⟩ := written memory copied
  obtain ⟨fault, stops⟩ := refused _ (copy_of_lt (by decide))
  obtain ⟨-, -, large⟩ := loads {} (Array.replicate 3585 0)
  refine ⟨⟨memory, copied, all, bytes.inside 1 (by decide)⟩, ?_, ends.2 (by decide), ?_, ?_⟩
  · exact (stops (by decide)).trans (congrArg Except.error fault)
  · exact fun copied => absurd (beyond.1 copied) (by decide)
  · rw [large (by rw [Array.size_replicate]; decide), Array.size_replicate]

end Memory

end Chip8
