import Chip8.Proofs.Machine.Alterations
/-!
# What can go wrong

A fault arises where there is nothing to fetch or no such instruction, where a return finds no address,
where an instruction visits an address outside of memory, and where a program does not fit. Each is
reported once: it is the result, the machine keeps it, and there is one warning.
-/

namespace Chip8

def Memory.outside (addresses : List Nat) : Option Fault :=
  (addresses.find? fun address => size ≤ address).map .memoryOutOfBounds

namespace Note

def OfInstruction : Note → Prop
  | .misfit _ => True
  | .skipping _ => True
  | .returning _ => True
  | .calling _ _ => True
  | .gotKey _ => True
  | .delaySet _ => True
  | .soundSet _ => True
  | _ => False

def warning? (n : Note) : Option String := if n.level = .warn then some n.text else none

def warnings (notes : List Note) : List String := notes.filterMap warning?

theorem warnings_append (ns ms : List Note) : warnings (ns ++ ms) = warnings ns ++ warnings ms :=
  List.filterMap_append

theorem warning?_of_instruction {n : Note} (h : n.OfInstruction) : n.warning? = none := by
  cases n <;> first | rfl | exact h.elim

end Note

namespace Machine

def visits (m : Machine) : Instruction → List Nat
  | .draw _ _ n => List.range' m.index.toNat n.toNat
  | .storeDecimal x => List.range' m.index.toNat (decimalDigits (m.register x)).size
  | .storeRegisters x => (List.range (x.toNat + 1)).map m.slot
  | .loadRegisters x => (List.range (x.toNat + 1)).map m.slot
  | _ => []

def mishap (m : Machine) : Instruction → Option Fault
  | .ret => if m.stack.isEmpty then some (.stackUnderflow m.pc) else none
  | i => Memory.outside (m.visits i)

def failure (m : Machine) : Option Fault :=
  match m.fetch with
  | .error fault => some fault
  | .ok (_, i) => m.mishap i

def refusal (program : Array UInt8) : Option Fault :=
  if program.size ≤ 3584 then none else some (.programTooLarge program.size 3584)

end Machine

theorem Memory.outside_cons_of_lt {address : Nat} (h : address < 4096) (addresses : List Nat) :
    outside (address :: addresses) = outside addresses := by
  have inside : ¬ size ≤ address := Nat.not_le.2 h
  simp [outside, inside]

theorem Memory.outside_cons_of_le {address : Nat} (h : 4096 ≤ address) (addresses : List Nat) :
    outside (address :: addresses) = some (.memoryOutOfBounds address) := by
  have beyond : size ≤ address := h
  simp [outside, beyond]

theorem Memory.outside_append (xs ys : List Nat) : outside (xs ++ ys) = (outside xs).or (outside ys) := by
  simp only [outside, List.find?_append]
  cases List.find? _ xs <;> rfl

theorem Memory.outside_range' (address length : Nat) :
    outside (List.range' address length) = if length = 0 ∨ address + length ≤ 4096 then none
      else some (.memoryOutOfBounds (max address 4096)) := by
  induction length generalizing address with
  | zero => simp [outside]
  | succ length ih =>
    rw [List.range'_succ]
    by_cases inside : address < 4096
    · rw [outside_cons_of_lt inside, ih]
      by_cases last : length = 0
      · simp [last, show address + 1 ≤ 4096 from inside]
      · rw [show max (address + 1) 4096 = max address 4096 by omega]
        simp [last, Nat.add_assoc, Nat.add_comm 1]
    · rw [outside_cons_of_le (by omega), if_neg (by omega), Nat.max_eq_left (by omega)]

theorem Canvas.fault_drawSprite {c c' : Canvas} {memory : Memory} {wrap : Bool} {x y address rows : Nat}
    {fault : Option Fault} (h : c.drawSprite memory wrap x y address rows = .ok (c', fault)) :
    fault = Memory.outside (List.range' address rows) := by
  induction rows generalizing c y address with
  | zero =>
    cases h
    rfl
  | succ rows ih =>
    rw [List.range'_succ]
    by_cases inside : address < 4096
    · rw [drawSprite, Memory.read_of_lt _ inside] at h
      obtain ⟨next, -, h⟩ := bind_eq_ok.1 h
      rw [Memory.outside_cons_of_lt inside]
      exact ih h
    · rw [drawSprite, Memory.read_of_le _ (by omega)] at h
      cases h
      rw [Memory.outside_cons_of_le (by omega)]

theorem size_decimalDigits_pos (value : UInt8) : 0 < (decimalDigits value).size := by
  rw [decimalDigits]
  split
  · exact Nat.succ_pos _
  · split <;> exact Nat.succ_pos _

namespace Machine

variable {m m' : Machine} {x y : UInt8}

theorem draw_fault {n : UInt8} {fault : Option Fault} (h : m.draw x y n = .ok (m', fault)) :
    fault = m.mishap (.draw x y n) := by
  simp only [draw, bind_eq_ok] at h
  obtain ⟨vx, -, vy, -, ⟨canvas, found⟩, drawn, h⟩ := h
  cases h
  exact Canvas.fault_drawSprite drawn

theorem misplaced_eq_outside (count : Nat) :
    m.misplaced count = Memory.outside ((List.range count).map m.slot) := by
  induction count with
  | zero => rfl
  | succ count ih =>
    have last : m.slotFault count = Memory.outside [m.slot count] := by
      rw [slotFault]
      split
      · next inside => rw [Memory.outside_cons_of_lt inside]; rfl
      · next beyond => rw [Memory.outside_cons_of_le (Nat.le_of_not_lt beyond)]
    rw [misplaced, ih, last, List.range_succ, List.map_append, Memory.outside_append]
    exact Option.orElse_eq_or

theorem map_slot_eq_range' {start count : Nat} (h : ∀ k < count, m.slot k = start + k) :
    (List.range count).map m.slot = List.range' start count := by
  rw [← Nat.add_zero start, ← List.map_add_range', ← List.range_eq_range']
  exact List.map_congr_left fun k hk => h k (List.mem_range.1 hk)

theorem outside_digits (value : UInt8) :
    Memory.outside (List.range' m.index.toNat (decimalDigits value).size) =
      match m.memory.copy m.index.toNat (decimalDigits value) with
      | .ok _ => none
      | .error misfit => some misfit.fault := by
  have pos := size_decimalDigits_pos value
  rw [Memory.outside_range', Memory.copy]
  split
  · next fits => rw [dif_pos (by omega)]
  · next large =>
    rw [dif_neg (by omega)]
    rfl

variable {i : Instruction} {e : Effect} {inputs : Inputs}

/-- The fault of an effect is the mishap that is due, and it is not reported yet. -/
theorem execute_unreported (range : i.Executable) (h : m.execute inputs i = .ok e) :
    e.fault = m.mishap i ∧ ∀ n ∈ e.notes, n.OfInstruction := by
  cases i with
  | clearScreen | jump nnn | setIndex nnn =>
    cases h
    exact ⟨rfl, by simp⟩
  | ret =>
    simp only [execute] at h
    split at h
    · next stack =>
      cases h
      exact ⟨by simp [mishap, stack], by simp [Note.OfInstruction]⟩
    · next stack =>
      cases h
      exact ⟨by simp [mishap, stack], by simp⟩
  | call nnn =>
    cases h
    exact ⟨rfl, by simp [Note.OfInstruction]⟩
  | skip c =>
    obtain ⟨holds, -, h⟩ := bind_eq_ok.1 h
    split at h
    · cases h
      exact ⟨rfl, by simp [Note.OfInstruction]⟩
    · cases h
      exact ⟨rfl, by simp⟩
  | setConst x nn | arith op x y | jumpOffset x nnn | random x nn | readDelay x | addIndex x
  | pointGlyph x =>
    obtain ⟨done, -, h⟩ := bind_eq_ok.1 h
    cases h
    exact ⟨rfl, by simp⟩
  | addConst x nn =>
    obtain ⟨v, -, h⟩ := bind_eq_ok.1 h
    obtain ⟨done, -, h⟩ := bind_eq_ok.1 h
    cases h
    exact ⟨rfl, by simp⟩
  | draw x y n =>
    obtain ⟨done, drawn, h⟩ := bind_eq_ok.1 h
    cases h
    exact ⟨draw_fault drawn, by simp⟩
  | waitKey x =>
    simp only [execute] at h
    split at h
    · obtain ⟨done, -, h⟩ := bind_eq_ok.1 h
      cases h
      exact ⟨rfl, by simp [Note.OfInstruction]⟩
    · cases h
      exact ⟨rfl, by simp⟩
  | setDelay x | setSound x =>
    obtain ⟨value, -, h⟩ := bind_eq_ok.1 h
    cases h
    exact ⟨rfl, by simp [Note.OfInstruction]⟩
  | storeDecimal x =>
    have value : m.getV x = .ok (m.register x) := getV_of_lt range
    simp only [mishap, visits, outside_digits]
    simp only [execute, value] at h
    dsimp only [bind, Except.bind] at h
    cases copied : m.memory.copy m.index.toNat (decimalDigits (m.register x)) with
    | ok memory =>
      rw [copied] at h
      cases h
      exact ⟨rfl, by simp⟩
    | error misfit =>
      rw [copied] at h
      cases h
      exact ⟨rfl, by simp [Note.OfInstruction]⟩
  | storeRegisters x =>
    simp only [execute, storeRegisters_eq range] at h
    cases h
    exact ⟨misplaced_eq_outside _, by simp⟩
  | loadRegisters x =>
    simp only [execute, loadRegisters_eq range] at h
    cases h
    exact ⟨misplaced_eq_outside _, by simp⟩

end Machine

/-- What an operation on a machine comes to reports the fault, if there is one, and nothing else: it
is the result, the machine keeps it, and there is one warning. -/
structure Outcome.Reports (o : Outcome) (m : Machine) (found : Option Fault) : Prop where
  fault : o.fault = found
  lastFault : o.machine.lastFault = found.or m.lastFault
  warnings : Note.warnings o.notes = found.toList.map Fault.message

namespace Machine

variable {m : Machine} {i : Instruction} (inputs : Inputs)

theorem reports_report {notes : List Note} (quiet : Note.warnings notes = []) (fault : Option Fault) :
    (m.report notes fault).Reports m fault := by
  cases fault with
  | none => exact ⟨rfl, rfl, quiet⟩
  | some f =>
    refine ⟨rfl, rfl, ?_⟩
    rw [report, Note.warnings_append, quiet]
    rfl

theorem perform_reports (range : i.Executable) :
    ∃ o, m.perform inputs i = .ok o ∧ o.Reports m (m.mishap i) := by
  obtain ⟨e, executed⟩ := m.succeeds_execute inputs range
  obtain ⟨fault, notes⟩ := execute_unreported range executed
  have quiet : Note.warnings e.notes = [] :=
    List.filterMap_eq_nil_iff.2 fun n hn => Note.warning?_of_instruction (notes n hn)
  have reports := reports_report (m := { e.machine with pc := e.flow.follow e.machine.pc }) quiet
    e.fault
  refine ⟨e.settle, perform_of_execute inputs executed, fault ▸ reports.fault, ?_,
    fault ▸ reports.warnings⟩
  rw [← lastFault_execute inputs range executed, ← fault]
  exact reports.lastFault

theorem step_reports (m : Machine) (inputs : Inputs) : (m.step inputs).Reports m m.failure := by
  cases fetched : m.fetch with
  | error fault =>
    rw [step_of_fetch_error inputs fetched, failure, fetched]
    exact ⟨rfl, rfl, rfl⟩
  | ok found =>
    obtain ⟨w, i⟩ := found
    obtain ⟨o, performed, reports⟩ := perform_reports (m := m) inputs
      (inRange_of_fetch fetched).executable
    rw [step_of_perform inputs fetched performed, failure, fetched]
    exact ⟨reports.fault, reports.lastFault, reports.warnings⟩

theorem load_reports (m : Machine) (program : Array UInt8) :
    (m.load program).Reports m (refusal program) := by
  rcases Nat.lt_or_ge 3584 program.size with large | small
  · rw [load_of_lt large, refusal, if_neg (Nat.not_le.2 large)]
    exact reports_report rfl _
  · obtain ⟨memory, -, loaded⟩ := load_of_le (m := m) small
    rw [loaded, refusal, if_pos small]
    exact ⟨rfl, rfl, rfl⟩

end Machine

end Chip8
