import Chip8.Machine.Run
import Chip8.Proofs.Machine.Mishaps

namespace Chip8

inductive Deed : Type
  | load : (program : Array UInt8) → Deed
  | step : Deed
  | execute : Instruction → Deed
  | tick : Deed
  | takeRedraw : Deed
  | reset : Deed

inductive Request : Type
  | single : Deed → Request
  | batch : (count : Nat) → Request
  | executeAll : List Instruction → Request

inductive Entry : Type
  | fault : Fault → Entry
  | reset : Entry
  deriving DecidableEq, Repr

namespace Entry

def fault? : Entry → Option Fault
  | .fault f => some f
  | .reset => none

def faults (entries : List Entry) : List Fault := entries.filterMap fault?

theorem faults_append (xs ys : List Entry) : faults (xs ++ ys) = faults xs ++ faults ys :=
  List.filterMap_append

def kept (before : Option Fault) (entries : List Entry) : Option Fault :=
  (entries.getLast?.map fault?).getD before

theorem kept_append (before : Option Fault) (xs ys : List Entry) :
    kept before (xs ++ ys) = kept (kept before xs) ys := by
  simp only [kept, List.getLast?_append]
  cases ys.getLast? <;> rfl

end Entry

def Deed.Executable : Deed → Prop
  | .execute i => i.Executable
  | _ => True

namespace Request

def deeds : Request → List Deed
  | .single d => [d]
  | .batch count => List.replicate count .step
  | .executeAll is => is.map .execute

def Executable (q : Request) : Prop := ∀ d ∈ q.deeds, d.Executable

/-- Whoever asks is told the first fault, but nothing of a batch. -/
def reply (entries : List Entry) : Request → Option Fault
  | .batch _ => none
  | _ => (Entry.faults entries).head?

end Request

def workload (requests : List (Keypad × Request)) : List (Keypad × Deed) :=
  requests.flatMap fun q => q.2.deeds.map (q.1, ·)

def Machine.entries (m : Machine) : Deed → List Entry
  | .load program => (refusal program).toList.map .fault
  | .step => m.failure.toList.map .fault
  | .execute i => (m.mishap i).toList.map .fault
  | .tick => []
  | .takeRedraw => []
  | .reset => [.reset]

namespace Run

def deed (keys : Keypad) (r : Run) : Deed → Except Crash (Run × Option Fault)
  | .load program => return r.load program
  | .step => return r.step keys
  | .execute i => r.execute keys i
  | .tick => return (r.tick, none)
  | .takeRedraw => return (r.takeRedraw.2, none)
  | .reset => return (r.reset, none)

def deeds (r : Run) : List (Keypad × Deed) → Except Crash Run
  | [] => .ok r
  | d :: ds => do (← r.deed d.1 d.2).1.deeds ds

def serve (keys : Keypad) (r : Run) : Request → Except Crash (Run × Option Fault)
  | .single d => r.deed keys d
  | .batch count => return (r.batch keys count, none)
  | .executeAll is => r.executeAll keys is

def serveAll (r : Run) : List (Keypad × Request) → Except Crash Run
  | [] => .ok r
  | q :: qs => do (← r.serve q.1 q.2).1.serveAll qs

def journal (r : Run) : List (Keypad × Deed) → List Entry
  | [] => []
  | d :: ds => r.machine.entries d.2 ++ match r.deed d.1 d.2 with
    | .ok (next, _) => next.journal ds
    | .error _ => []

def warnings (r : Run) : List String := Note.warnings r.notes.toList

/-- The entries tell how the faults kept and the warnings given differ between two runs. -/
structure Accounts (r r' : Run) (entries : List Entry) : Prop where
  lastFault : r'.machine.lastFault = Entry.kept r.machine.lastFault entries
  warnings : r'.warnings = r.warnings ++ (Entry.faults entries).map Fault.message

namespace Accounts

variable {r r' r'' : Run}

theorem refl (r : Run) : Accounts r r [] := ⟨rfl, by simp [Entry.faults]⟩

theorem trans {xs ys : List Entry} (h : Accounts r r' xs) (k : Accounts r' r'' ys) :
    Accounts r r'' (xs ++ ys) where
  lastFault := by rw [k.lastFault, h.lastFault, Entry.kept_append]
  warnings := by rw [k.warnings, h.warnings, Entry.faults_append, List.map_append, List.append_assoc]

theorem accept {o : Outcome} {found : Option Fault} (h : o.Reports r.machine found) :
    Accounts r (r.accept o) (found.toList.map .fault) := by
  constructor
  · rw [Run.accept, h.lastFault]
    cases found <;> rfl
  · have grown : (r.accept o).warnings = r.warnings ++ Note.warnings o.notes := by
      simp [Run.warnings, Run.accept, Note.warnings_append]
    rw [grown, h.warnings]
    cases found <;> rfl

end Accounts

variable {r : Run}

theorem head?_faults_map (found : Option Fault) :
    (Entry.faults (found.toList.map .fault)).head? = found := by
  cases found <;> rfl

theorem deed_accounts (keys : Keypad) {d : Deed} (range : d.Executable) : ∃ r' fault,
    r.deed keys d = .ok (r', fault) ∧ Accounts r r' (r.machine.entries d) ∧
      fault = (Entry.faults (r.machine.entries d)).head? := by
  cases d with
  | load program =>
    have reports := r.machine.load_reports program
    exact ⟨_, _, rfl, .accept reports, reports.fault.trans (head?_faults_map _).symm⟩
  | step =>
    have reports := r.machine.step_reports ⟨keys, r.dice.top⟩
    have accounts := Accounts.accept reports
    exact ⟨_, _, rfl, ⟨accounts.lastFault, accounts.warnings⟩,
      reports.fault.trans (head?_faults_map _).symm⟩
  | execute i =>
    obtain ⟨o, performed, reports⟩ := Machine.perform_reports (m := r.machine)
      ⟨keys, r.dice.top⟩ range
    have accounts := Accounts.accept reports
    refine ⟨{ r.accept o with dice := r.dice.next }, o.fault, ?_,
      ⟨accounts.lastFault, accounts.warnings⟩, reports.fault.trans (head?_faults_map _).symm⟩
    rw [deed, Run.execute, performed]
    rfl
  | tick => exact ⟨_, _, rfl, ⟨rfl, (List.append_nil _).symm⟩, rfl⟩
  | takeRedraw => exact ⟨_, _, rfl, ⟨rfl, (List.append_nil _).symm⟩, rfl⟩
  | reset =>
    have quiet : r.reset.warnings = r.warnings := by
      rw [warnings, reset, Array.toList_push, Note.warnings_append]
      exact List.append_nil _
    exact ⟨_, _, rfl, ⟨rfl, quiet.trans (List.append_nil _).symm⟩, rfl⟩

theorem deeds_accounts {ds : List (Keypad × Deed)} (range : ∀ d ∈ ds, d.2.Executable) :
    ∃ r', r.deeds ds = .ok r' ∧ Accounts r r' (r.journal ds) := by
  induction ds generalizing r with
  | nil => exact ⟨r, rfl, .refl r⟩
  | cons d ds ih =>
    rw [List.forall_mem_cons] at range
    obtain ⟨next, fault, done, first, -⟩ := deed_accounts (r := r) d.1 range.1
    obtain ⟨r', rest, accounts⟩ := ih (r := next) range.2
    refine ⟨r', ?_, ?_⟩
    · rw [deeds, done]
      exact rest
    · rw [journal, done]
      exact first.trans accounts

theorem deeds_append (xs ys : List (Keypad × Deed)) :
    r.deeds (xs ++ ys) = r.deeds xs >>= fun r => r.deeds ys := by
  induction xs generalizing r with
  | nil => rfl
  | cons d xs ih =>
    rw [List.cons_append, deeds, deeds]
    cases r.deed d.1 d.2 with
    | error crash => rfl
    | ok done => exact ih

theorem deeds_batch (keys : Keypad) (count : Nat) :
    r.deeds ((List.replicate count Deed.step).map (keys, ·)) = .ok (r.batch keys count) := by
  induction count generalizing r with
  | zero => rfl
  | succ count ih => exact ih (r := (r.step keys).1)

theorem executeAll_eq (keys : Keypad) {is : List Instruction}
    (range : ∀ i ∈ is, i.Executable) : ∃ r',
    let work := (is.map Deed.execute).map (keys, ·)
    r.executeAll keys is = .ok (r', (Entry.faults (r.journal work)).head?) ∧
      r.deeds work = .ok r' := by
  induction is generalizing r with
  | nil => exact ⟨r, rfl, rfl⟩
  | cons i is ih =>
    rw [List.forall_mem_cons] at range
    obtain ⟨next, fault, done, -, first⟩ := deed_accounts (r := r) (d := .execute i) keys range.1
    obtain ⟨r', rest, worked⟩ := ih (r := next) range.2
    have executed : r.execute keys i = .ok (next, fault) := done
    refine ⟨r', ?_, ?_⟩
    · rw [executeAll, executed]
      dsimp only [bind, Except.bind]
      rw [rest, List.map_cons, List.map_cons, journal, done, Entry.faults_append, List.head?_append,
        ← first]
      exact congrArg (fun reply => Except.ok (r', reply)) Option.orElse_eq_or
    · simp only [List.map_cons, deeds, done]
      exact worked

theorem serve_eq (keys : Keypad) {q : Request} (range : q.Executable) : ∃ r',
    let work := q.deeds.map (keys, ·)
    r.serve keys q = .ok (r', q.reply (r.journal work)) ∧ r.deeds work = .ok r' := by
  cases q with
  | single d =>
    obtain ⟨r', fault, done, -, first⟩ := deed_accounts (r := r) keys
      (range d List.mem_cons_self)
    have journaled : r.journal [(keys, d)] = r.machine.entries d := by
      rw [journal, done]
      exact List.append_nil _
    have worked : r.deeds [(keys, d)] = .ok r' := by
      rw [deeds, done]
      rfl
    refine ⟨r', ?_, worked⟩
    rw [serve, done, first, ← journaled]
    rfl
  | batch count => exact ⟨r.batch keys count, rfl, deeds_batch keys count⟩
  | executeAll is =>
    exact executeAll_eq keys fun i hi => range (.execute i) (List.mem_map_of_mem hi)

theorem serveAll_eq {qs : List (Keypad × Request)} (range : ∀ q ∈ qs, q.2.Executable) :
    r.serveAll qs = r.deeds (workload qs) := by
  induction qs generalizing r with
  | nil => rfl
  | cons q qs ih =>
    rw [List.forall_mem_cons] at range
    obtain ⟨next, served, worked⟩ := serve_eq (r := r) q.1 range.1
    rw [serveAll, served, workload, List.flatMap_cons, deeds_append, worked]
    exact ih range.2

theorem entries_eq_nil {m : Machine} {d : Deed} (goesOn : d ≠ .reset)
    (h : (Entry.faults (m.entries d)).head? = none) : m.entries d = [] := by
  cases d with
  | load program | step | execute i =>
    rw [Machine.entries, head?_faults_map] at h
    rw [Machine.entries, h]
    rfl
  | tick | takeRedraw => rfl
  | reset => exact absurd rfl goesOn

/-- No fault is lost and none is invented. Whatever is asked for, one thing after the other is done,
each cycle and each instruction, whatever goes wrong on the way. The machine keeps the last fault
since it was reset, and the warnings are all faults in order. Each request is answered with its first
fault, a batch with none. What does not fault gives no warning and leaves alone the fault that was
kept. -/
theorem every_fault_is_accounted_for (dialect : Dialect) (dice : Dice)
    (requests : List (Keypad × Request)) (range : ∀ q ∈ requests, q.2.Executable) :
    let r : Run := { machine := .initial dialect, dice }
    let entries := r.journal (workload requests)
    (∃ r', r.serveAll requests = .ok r' ∧ r.deeds (workload requests) = .ok r' ∧
      r'.machine.lastFault = entries.getLast?.bind Entry.fault? ∧
      r'.warnings = (Entry.faults entries).map Fault.message) ∧
    (∀ (r : Run) keys q, q.Executable → ∃ r',
      let work := q.deeds.map (keys, ·)
      r.serve keys q = .ok (r', q.reply (r.journal work)) ∧ r.deeds work = .ok r' ∧
        Accounts r r' (r.journal work)) ∧
    (∀ (r : Run) keys d, d.Executable → d ≠ .reset → ∀ r', r.deed keys d = .ok (r', none) →
      r'.machine.lastFault = r.machine.lastFault ∧ r'.warnings = r.warnings) := by
  intro r entries
  refine ⟨?_, fun r keys q range => ?_, fun r keys d range goesOn r' done => ?_⟩
  · have whole : ∀ d ∈ workload requests, d.2.Executable := by
      simp only [workload, List.mem_flatMap, List.mem_map]
      rintro d ⟨q, hq, deed, hd, rfl⟩
      exact range q hq deed hd
    obtain ⟨r', worked, accounts⟩ := deeds_accounts (r := r) whole
    refine ⟨r', (serveAll_eq range).trans worked, worked, ?_, ?_⟩
    · rw [accounts.lastFault]
      change Entry.kept none entries = _
      rw [Entry.kept]
      cases entries.getLast? <;> rfl
    · rw [accounts.warnings]
      rfl
  · obtain ⟨r', served, worked⟩ := serve_eq (r := r) keys range
    have whole : ∀ d ∈ q.deeds.map (keys, ·), d.2.Executable := by
      simp only [List.mem_map]
      rintro d ⟨deed, hd, rfl⟩
      exact range deed hd
    obtain ⟨r'', worked', accounts⟩ := deeds_accounts (r := r) whole
    cases worked.symm.trans worked'
    exact ⟨r', served, worked, accounts⟩
  · obtain ⟨_, _, done', accounts, first⟩ := deed_accounts (r := r) keys range
    cases done.symm.trans done'
    rw [entries_eq_nil goesOn first.symm] at accounts
    exact ⟨accounts.lastFault, accounts.warnings.trans (List.append_nil _)⟩

theorem every_fault_is_accounted_for_thrice :
    let r : Run := { machine := .initial {} }
    let requests : List (Keypad × Request) := [
      (.released, .executeAll [.setIndex 0xFFF, .ret, .storeRegisters 1]),
      (.released, .single .reset),
      (.released, .single (.execute .ret))]
    ∃ r', r.serveAll requests = .ok r' ∧
      r'.machine.lastFault = some (.stackUnderflow 0x200) ∧
      r'.warnings = ["return with an empty call stack at 0x202",
        "memory access out of bounds at 0x1000", "return with an empty call stack at 0x200"] := by
  intro r requests
  have range : ∀ q ∈ requests, q.2.Executable := by
    simp [requests, Request.Executable, Request.deeds, Deed.Executable, Instruction.Executable]
  have journaled : r.journal (workload requests) = [.fault (.stackUnderflow 0x202),
      .fault (.memoryOutOfBounds 0x1000), .reset, .fault (.stackUnderflow 0x200)] := by
    decide
  obtain ⟨⟨r', served, -, lastFault, warnings⟩, -, -⟩ :=
    every_fault_is_accounted_for {} default requests range
  rw [journaled] at lastFault warnings
  exact ⟨r', served, lastFault, warnings.trans (by decide)⟩

end Run

end Chip8
