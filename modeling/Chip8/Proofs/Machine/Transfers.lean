import Chip8.Proofs.Machine.Cycles

namespace Chip8

namespace Memory

def put (m : Memory) (address : Nat) (byte : UInt8) : Memory :=
  if h : address < 4096 then ⟨m.cells.set address byte h⟩ else m

variable (m : Memory) {address i : Nat} (byte : UInt8)

theorem write_of_lt (h : address < 4096) : m.write address byte = .ok (m.put address byte) := by
  rw [write, put, dif_pos h, dif_pos h]

theorem write_of_le (h : 4096 ≤ address) :
    m.write address byte = .error (.memoryOutOfBounds address) := dif_neg (Nat.not_lt.2 h)

theorem put_of_le (h : 4096 ≤ address) : m.put address byte = m := dif_neg (Nat.not_lt.2 h)

theorem getElem?_put_self (h : address < 4096) : (m.put address byte).cells[address]? = some byte := by
  rw [put, dif_pos h]
  exact Vector.getElem?_set_self h

theorem getElem?_put_of_ne (h : i ≠ address) : (m.put address byte).cells[i]? = m.cells[i]? := by
  rw [put]
  split
  · next lt => exact Vector.getElem?_set_ne lt h.symm
  · rfl

theorem read_of_lt (h : i < 4096) : m.read i = .ok m.cells[i] := by
  rw [read, Vector.getElem?_eq_getElem h]

theorem read_of_le (h : 4096 ≤ i) : m.read i = .error (.memoryOutOfBounds i) := by
  rw [read, Vector.getElem?_eq_none h]

theorem read_congr {m m' : Memory} (h : m'.cells[i]? = m.cells[i]?) : m'.read i = m.read i := by
  rw [read, h, read]

end Memory

namespace Machine

def indexAfter (m : Machine) (count : Nat) : UInt16 :=
  if m.dialect.transferMovesIndex then m.index + UInt16.ofNat count else m.index

def slot (m : Machine) (k : Nat) : Nat :=
  if m.dialect.transferMovesIndex then (m.indexAfter (k + 1)).toNat else m.index.toNat + k

def stored (m : Machine) : Nat → Memory
  | 0 => m.memory
  | k + 1 => (m.stored k).put (m.slot k) (m.register (UInt8.ofNat k))

def loaded (m : Machine) : Nat → Vector UInt8 16
  | 0 => m.registers
  | k + 1 =>
    match m.memory.read (m.slot k) with
    | .ok value => (m.loaded k).setIfInBounds k value
    | .error _ => m.loaded k

def storing (m : Machine) (count : Nat) : Machine :=
  { m with index := m.indexAfter count, memory := m.stored count }

def loading (m : Machine) (count : Nat) : Machine :=
  { m with index := m.indexAfter count, registers := m.loaded count }

def slotFault (m : Machine) (k : Nat) : Option Fault :=
  if m.slot k < 4096 then none else some (.memoryOutOfBounds (m.slot k))

def misplaced (m : Machine) : Nat → Option Fault
  | 0 => none
  | k + 1 => m.misplaced k <|> m.slotFault k

variable {m m' : Machine} {k : Nat}

theorem indexAfter_of_stays (stays : m.dialect.transferMovesIndex = false) (count : Nat) :
    m.indexAfter count = m.index := by
  simp [indexAfter, stays]

theorem indexAfter_of_moves (moves : m.dialect.transferMovesIndex = true) (count : Nat) :
    m.indexAfter count = m.index + UInt16.ofNat count := if_pos moves

theorem aim_eq (dialect : m'.dialect = m.dialect) (index : m'.index = m.indexAfter k) :
    m'.aim k = (m.slot k, { m' with index := m.indexAfter (k + 1) }) := by
  cases moves : m'.dialect.transferMovesIndex with
  | true =>
    have moves' := dialect ▸ moves
    have next : m'.index + 1 = m.indexAfter (k + 1) := by
      rw [index, indexAfter_of_moves moves', indexAfter_of_moves moves', UInt16.ofNat_add,
        UInt16.add_assoc]
      rfl
    simp [aim, slot, moves, moves', next]
  | false =>
    have stays := dialect ▸ moves
    rw [indexAfter_of_stays stays] at index
    simp only [aim, slot, moves, stays, indexAfter_of_stays stays, ← index, Bool.false_eq_true,
      if_false]

/-- If one move after the other leads from state to state, so does the transfer. -/
theorem transfer_eq {move : Machine → UInt8 → Except Crash (Machine × Option Fault)}
    {state : Nat → Machine} {bound : Nat}
    (moved : ∀ k < bound, move (state k) (UInt8.ofNat k) = .ok (state (k + 1), m.slotFault k))
    (first count : Nat) (h : first + count ≤ bound) :
    transfer move (state first) (m.misplaced first) ((List.range' first count).map UInt8.ofNat)
      = .ok (state (first + count), m.misplaced (first + count)) := by
  induction count generalizing first with
  | zero => rfl
  | succ count ih =>
    have rest := ih (first + 1) (by omega)
    rw [Nat.add_assoc, Nat.add_comm 1 count] at rest
    rw [List.range'_succ, List.map_cons, transfer, moved first (by omega)]
    exact rest

theorem transfer_upTo {move : Machine → UInt8 → Except Crash (Machine × Option Fault)}
    {state : Nat → Machine}
    (moved : ∀ k < 16, move (state k) (UInt8.ofNat k) = .ok (state (k + 1), m.slotFault k))
    {x : UInt8} (h : x < 16) :
    transfer move (state 0) none (upTo x)
      = .ok (state (x.toNat + 1), m.misplaced (x.toNat + 1)) := by
  have hx : x.toNat < 16 := h
  have whole := transfer_eq moved 0 (x.toNat + 1) (by omega)
  rw [Nat.zero_add] at whole
  rw [upTo, List.range_eq_range']
  exact whole

theorem toNat_ofNat_register (h : k < 16) : (UInt8.ofNat k).toNat = k := by
  rw [UInt8.toNat_ofNat']
  omega

theorem getV_ofNat (h : k < 16) : m.getV (UInt8.ofNat k) = .ok (m.register (UInt8.ofNat k)) := by
  have hk := toNat_ofNat_register h
  rw [getV_eq _ (by omega), register]
  simp [hk, Nat.mod_eq_of_lt h]

theorem setV_ofNat (h : k < 16) (value : UInt8) : m.setV (UInt8.ofNat k) value =
    .ok { m with registers := m.registers.setIfInBounds k value } := by
  have hk := toNat_ofNat_register h
  have set : m.registers.setIfInBounds k value = m.registers.set k value := by
    ext i hi
    rw [Vector.getElem_setIfInBounds, Vector.getElem_set]
  simp [setV, hk, h, set]

theorem indexAfter_zero (m : Machine) : m.indexAfter 0 = m.index := by
  rw [indexAfter]
  split
  · exact UInt16.add_zero m.index
  · rfl

theorem storing_zero (m : Machine) : m.storing 0 = m := by
  rw [storing, indexAfter_zero, stored]

theorem loading_zero (m : Machine) : m.loading 0 = m := by
  rw [loading, indexAfter_zero, loaded]

theorem storeRegister_storing (h : k < 16) :
    (m.storing k).storeRegister (UInt8.ofNat k) = .ok (m.storing (k + 1), m.slotFault k) := by
  have aimed : (m.storing k).aim k = (m.slot k, { m.storing k with index := m.indexAfter (k + 1) }) :=
    aim_eq rfl rfl
  have byte : Machine.getV { m.storing k with index := m.indexAfter (k + 1) } (UInt8.ofNat k)
      = .ok (m.register (UInt8.ofNat k)) := getV_ofNat h
  rw [storeRegister, toNat_ofNat_register h, aimed]
  dsimp only
  rw [byte]
  dsimp only [bind, Except.bind]
  by_cases inside : m.slot k < 4096
  · rw [show (m.storing k).memory = m.stored k from rfl, Memory.write_of_lt _ _ inside, slotFault,
      if_pos inside]
    rfl
  · have outside := Nat.le_of_not_lt inside
    rw [show (m.storing k).memory = m.stored k from rfl, Memory.write_of_le _ _ outside, slotFault,
      if_neg inside, storing, storing, stored, Memory.put_of_le _ _ outside]
    rfl

theorem loadRegister_loading (h : k < 16) :
    (m.loading k).loadRegister (UInt8.ofNat k) = .ok (m.loading (k + 1), m.slotFault k) := by
  have aimed : (m.loading k).aim k = (m.slot k, { m.loading k with index := m.indexAfter (k + 1) }) :=
    aim_eq rfl rfl
  rw [loadRegister, toNat_ofNat_register h, aimed]
  dsimp only
  by_cases inside : m.slot k < 4096
  · have found := Memory.read_of_lt m.memory inside
    rw [show (m.loading k).memory = m.memory from rfl, found, slotFault, if_pos inside]
    dsimp only
    rw [setV_ofNat h, loading, loading, loaded, found]
    rfl
  · have missing := Memory.read_of_le m.memory (Nat.le_of_not_lt inside)
    rw [show (m.loading k).memory = m.memory from rfl, missing, slotFault, if_neg inside, loading,
      loading, loaded, missing]
    rfl

theorem storeRegisters_eq {x : UInt8} (h : x < 16) :
    m.storeRegisters x = .ok (m.storing (x.toNat + 1), m.misplaced (x.toNat + 1)) := by
  have moved := transfer_upTo (fun k hk => m.storeRegister_storing hk) h
  rwa [storing_zero] at moved

theorem loadRegisters_eq {x : UInt8} (h : x < 16) :
    m.loadRegisters x = .ok (m.loading (x.toNat + 1), m.misplaced (x.toNat + 1)) := by
  have moved := transfer_upTo (fun k hk => m.loadRegister_loading hk) h
  rwa [loading_zero] at moved

theorem slot_of_stays (stays : m.dialect.transferMovesIndex = false) (k : Nat) :
    m.slot k = m.index.toNat + k := by
  simp [slot, stays]

theorem toNat_indexAfter_of_moves (moves : m.dialect.transferMovesIndex = true) (count : Nat) :
    (m.indexAfter count).toNat = (m.index.toNat + count) % 65536 := by
  rw [indexAfter_of_moves moves, UInt16.toNat_add, UInt16.toNat_ofNat']
  omega

theorem slot_of_moves (moves : m.dialect.transferMovesIndex = true) (k : Nat) :
    m.slot k = (m.index.toNat + (k + 1)) % 65536 := by
  rw [slot, if_pos moves, toNat_indexAfter_of_moves moves]

theorem slot_ne {j : Nat} (hj : j < k) (hk : k < 16) : m.slot j ≠ m.slot k := by
  cases moves : m.dialect.transferMovesIndex with
  | true =>
    rw [slot_of_moves moves, slot_of_moves moves]
    omega
  | false =>
    rw [slot_of_stays moves, slot_of_stays moves]
    omega

theorem getElem?_stored_of_ne {count address : Nat} (h : ∀ k < count, address ≠ m.slot k) :
    (m.stored count).cells[address]? = m.memory.cells[address]? := by
  induction count with
  | zero => rfl
  | succ count ih =>
    rw [stored, Memory.getElem?_put_of_ne _ _ (h count (by omega))]
    exact ih fun k hk => h k (by omega)

theorem getElem?_stored_slot {count : Nat} (hk : k < count) (hc : count ≤ 16)
    (inside : m.slot k < 4096) :
    (m.stored count).cells[m.slot k]? = some (m.register (UInt8.ofNat k)) := by
  induction count with
  | zero => omega
  | succ count ih =>
    rw [stored]
    by_cases last : k = count
    · rw [← last, Memory.getElem?_put_self _ _ inside]
    · rw [Memory.getElem?_put_of_ne _ _ (slot_ne (by omega) (by omega))]
      exact ih (by omega) (by omega)

variable {w : Word} {x : UInt8} (inputs : Inputs)

theorem perform_storeRegisters (h : x < 16) :
    ∃ o lastFault, m.perform inputs (.storeRegisters x) = .ok o ∧
      o.machine = { m.storing (x.toNat + 1) with pc := m.pc + 2, lastFault } := by
  have executed : m.execute inputs (.storeRegisters x) =
      .ok { machine := m.storing (x.toNat + 1), fault := m.misplaced (x.toNat + 1) } := by
    rw [execute, storeRegisters_eq h]
    rfl
  obtain ⟨lastFault, settled⟩ := settle_machine _
  exact ⟨_, lastFault, perform_of_execute inputs executed, settled⟩

theorem perform_loadRegisters (h : x < 16) :
    ∃ o lastFault, m.perform inputs (.loadRegisters x) = .ok o ∧
      o.machine = { m.loading (x.toNat + 1) with pc := m.pc + 2, lastFault } := by
  have executed : m.execute inputs (.loadRegisters x) =
      .ok { machine := m.loading (x.toNat + 1), fault := m.misplaced (x.toNat + 1) } := by
    rw [execute, loadRegisters_eq h]
    rfl
  obtain ⟨lastFault, settled⟩ := settle_machine _
  exact ⟨_, lastFault, perform_of_execute inputs executed, settled⟩

theorem step_storeRegisters (fetched : m.fetch = .ok (w, .storeRegisters x)) :
    ∃ lastFault, (m.step inputs).machine =
      { m.storing (x.toNat + 1) with pc := m.pc + 2, lastFault } := by
  obtain ⟨o, lastFault, performed, stored⟩ :=
    perform_storeRegisters (m := m) inputs (inRange_of_fetch fetched)
  rw [step_of_perform inputs fetched performed]
  exact ⟨lastFault, stored⟩

theorem step_loadRegisters (fetched : m.fetch = .ok (w, .loadRegisters x)) :
    ∃ lastFault, (m.step inputs).machine =
      { m.loading (x.toNat + 1) with pc := m.pc + 2, lastFault } := by
  obtain ⟨o, lastFault, performed, loaded⟩ :=
    perform_loadRegisters (m := m) inputs (inRange_of_fetch fetched)
  rw [step_of_perform inputs fetched performed]
  exact ⟨lastFault, loaded⟩

end Machine

end Chip8
