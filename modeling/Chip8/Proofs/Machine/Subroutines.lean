import Chip8.Proofs.Instruction.Patterns
import Chip8.Proofs.Machine.Frames
import Chip8.Proofs.Machine.Pulses

namespace Chip8

namespace Machine

variable {m : Machine} {w : Word} {nnn target back : UInt16} {stack base : List UInt16}
  (inputs : Inputs)

theorem step_call (fetched : m.fetch = .ok (w, .call nnn)) :
    (m.step inputs).machine = { m with stack := (m.pc + 2) :: m.stack, pc := nnn } := by
  rw [step_of_execute inputs fetched rfl]
  rfl

theorem step_ret (fetched : m.fetch = .ok (w, .ret)) (called : m.stack = target :: stack) :
    (m.step inputs).machine = { m with stack, pc := target } := by
  have executed : m.execute inputs .ret = .ok {
      machine := { m with stack }, flow := .goto target, notes := [.returning target] } := by
    rw [execute, called]
    rfl
  rw [step_of_execute inputs fetched executed]
  rfl

def strand (m : Machine) : Machine :=
  { m with pc := m.pc + 2, lastFault := some (.stackUnderflow m.pc) }

theorem perform_ret_of_nil (empty : m.stack = []) : m.perform inputs .ret =
    .ok ⟨m.strand, some (.stackUnderflow m.pc), [.fault (.stackUnderflow m.pc)]⟩ := by
  have executed : m.execute inputs .ret =
      .ok { machine := m, fault := some (.stackUnderflow m.pc) } := by
    rw [execute, empty]
    rfl
  exact perform_of_execute inputs executed

theorem step_ret_of_nil (fetched : m.fetch = .ok (w, .ret)) (empty : m.stack = []) :
    (m.step inputs).machine = m.strand := by
  rw [step_of_perform inputs fetched (perform_ret_of_nil inputs empty)]

theorem decode_of_fetch {i : Instruction} (fetched : m.fetch = .ok (w, i)) :
    Instruction.decode w = some i := by
  unfold fetch at fetched
  split at fetched
  · cases fetched
  · split at fetched
    · cases fetched
    · next decoded =>
      cases fetched
      exact decoded

theorem pulse_nested (p : Pulse) (nested : back :: base <:+ m.stack) :
    back :: base <:+ (m.pulse p).stack ∨
    ((∃ inputs, p = .step inputs) ∧ m.fetch = .ok (0x00EE, .ret) ∧
      (m.pulse p).stack = base ∧ (m.pulse p).pc = back) := by
  cases p with
  | tick => exact .inl nested
  | step inputs =>
    cases fetched : m.fetch with
    | error fault =>
      left
      rwa [pulse, step_of_fetch_error inputs fetched]
    | ok found =>
      obtain ⟨w, i⟩ := found
      by_cases nests : i.Nests
      · cases i with
        | call nnn =>
          left
          rw [pulse, step_call inputs fetched]
          exact nested.trans (List.suffix_cons ..)
        | ret =>
          have opcode : 0x00EE = w := Instruction.encode_of_decode (decode_of_fetch fetched)
          obtain ⟨above, called⟩ := nested
          cases above with
          | nil =>
            right
            rw [pulse, step_ret inputs fetched called.symm]
            exact ⟨⟨inputs, rfl⟩, by rw [opcode], rfl, rfl⟩
          | cons target above =>
            left
            rw [pulse, step_ret inputs fetched called.symm]
            exact ⟨above, rfl⟩
        | _ => exact nests.elim
      · left
        rwa [pulse, (step_spares fetched).stack nests]

/-- As long as there are more addresses on the stack than before the call, that of the call is
there, and so are those from before. -/
theorem pulses_nested {ps : List Pulse} (nested : back :: base <:+ m.stack)
    (deeper : ∀ qs, qs <+: ps → base.length < (m.pulses qs).stack.length) :
    back :: base <:+ (m.pulses ps).stack := by
  induction ps generalizing m with
  | nil => exact nested
  | cons p ps ih =>
    have next : base.length < (m.pulse p).stack.length := deeper [p] ⟨ps, rfl⟩
    rcases pulse_nested p nested with nested' | ⟨-, -, stack, -⟩
    · exact ih nested' fun qs ⟨rest, h⟩ => deeper (p :: qs) ⟨rest, by rw [← h]; rfl⟩
    · rw [stack] at next
      exact absurd next (Nat.lt_irrefl _)

/-- Calls nest. A call puts its return address on top of the stack. As long as the stack is deeper than
before the call, the addresses from before and the return address are at its bottom, whatever steps and
ticks there are. The first of them after which it is no deeper is the step of a return, which leaves
the stack as it was before the call and goes on behind it. A return without an address to return to
is passed over. -/
theorem calls_nest (m : Machine) (inputs : Inputs) {w : Word} {nnn : UInt16}
    (fetched : m.fetch = .ok (w, .call nnn)) :
    let back := m.pc + 2
    let entered := (m.step inputs).machine
    entered.stack = back :: m.stack ∧ entered.pc = nnn ∧
    (∀ ps, (∀ qs, qs <+: ps → m.stack.length < (entered.pulses qs).stack.length) →
      back :: m.stack <:+ (entered.pulses ps).stack ∧
      ∀ p, (entered.pulses (ps ++ [p])).stack.length ≤ m.stack.length →
        (∃ inputs, p = .step inputs) ∧ (entered.pulses ps).fetch = .ok (0x00EE, .ret) ∧
        (entered.pulses (ps ++ [p])).stack = m.stack ∧ (entered.pulses (ps ++ [p])).pc = back) ∧
    (∀ (m : Machine) inputs, m.stack = [] →
      m.strand.stack = [] ∧
      m.perform inputs .ret =
        .ok ⟨m.strand, some (.stackUnderflow m.pc), [.fault (.stackUnderflow m.pc)]⟩ ∧
      (m.fetch = .ok (0x00EE, .ret) → (m.step inputs).machine = m.strand)) := by
  intro back entered
  have called : entered = { m with stack := back :: m.stack, pc := nnn } := step_call inputs fetched
  refine ⟨by rw [called], by rw [called], fun ps deeper => ?_,
    fun m inputs empty => ⟨empty, perform_ret_of_nil inputs empty,
      fun fetched => step_ret_of_nil inputs fetched empty⟩⟩
  have nested : back :: m.stack <:+ entered.stack := called ▸ List.suffix_rfl
  have inside := pulses_nested nested deeper
  refine ⟨inside, fun p low => ?_⟩
  rw [pulses_concat] at low ⊢
  rcases pulse_nested p inside with deeper | returned
  · exact absurd (deeper.length_le.trans low) (Nat.not_succ_le_self _)
  · exact returned

def nesting : Machine :=
  { ((initial {}).load #[0x22, 0x06, 0, 0, 0, 0, 0x22, 0x08, 0x00, 0xEE]).machine with
    stack := [], pc := 0x200 }

theorem calls_nest_twice :
    let entered := (nesting.step {}).machine
    let ps := [.step {}, .tick, .step {}]
    nesting.fetch = .ok (0x2206, .call 0x206) ∧
    (∀ qs, qs <+: ps → 0 < (entered.pulses qs).stack.length) ∧
    (entered.pulses [.step {}]).stack = [0x208, 0x202] ∧
    (entered.pulses ps).fetch = .ok (0x00EE, .ret) ∧
    (entered.pulses (ps ++ [.step {}])).stack = [] ∧
    (entered.pulses (ps ++ [.step {}])).pc = 0x202 := by
  intro entered ps
  have holds : nesting.memory.Holds #[0x22, 0x06, 0, 0, 0, 0, 0x22, 0x08, 0x00, 0xEE] :=
    holds_load (by decide) {}
  have outer : nesting.fetch = .ok (0x2206, .call 0x206) :=
    fetch_of_holds (p := 0x200) holds rfl (by decide)
  have first : entered.pulses [] = { nesting with stack := [0x202], pc := 0x206 } := by
    rw [pulses_nil]
    exact step_call {} outer
  have inner : (entered.pulses []).fetch = .ok (0x2208, .call 0x208) := by
    rw [first]
    exact fetch_of_holds (m := { nesting with stack := [0x202], pc := 0x206 })
      (p := 0x206) holds rfl (by decide)
  have second : entered.pulses [.step {}] =
      { nesting with stack := [0x208, 0x202], pc := 0x208 } := by
    rw [← List.nil_append [_], pulses_concat, pulse, step_call {} inner, first]
    rfl
  have third : entered.pulses [.step {}, .tick] =
      tick { nesting with stack := [0x208, 0x202], pc := 0x208 } := by
    rw [← List.singleton_append, pulses_concat, second]
    rfl
  have returns : (entered.pulses [.step {}, .tick]).fetch = .ok (0x00EE, .ret) := by
    rw [third]
    exact fetch_of_holds (m := tick { nesting with stack := [0x208, 0x202], pc := 0x208 })
      (p := 0x208) holds rfl (by decide)
  have calledTwice : (entered.pulses [.step {}, .tick]).stack = 0x208 :: [0x202] := by
    rw [third]
    rfl
  have split : ps = [.step {}, .tick] ++ [.step {}] := rfl
  have fourth : entered.pulses ps =
      { tick { nesting with pc := 0x208 } with stack := [0x202] } := by
    rw [split, pulses_concat, pulse, step_ret {} returns calledTwice, third]
    rfl
  have again : (entered.pulses ps).fetch = .ok (0x00EE, .ret) := by
    rw [fourth]
    exact fetch_of_holds (m := { tick { nesting with pc := 0x208 } with stack := [0x202] })
      (p := 0x208) holds rfl (by decide)
  have calledOnce : (entered.pulses ps).stack = 0x202 :: [] := by rw [fourth]
  have ended : (entered.pulses (ps ++ [.step {}])).stack = [] := by
    rw [pulses_concat, pulse, step_ret {} again calledOnce]
  have deeper : ∀ qs, qs <+: ps → 0 < (entered.pulses qs).stack.length := by
    intro qs h
    simp only [ps, List.prefix_cons_iff, List.prefix_nil] at h
    rcases h with rfl | ⟨_, rfl, rfl | ⟨_, rfl, rfl | ⟨_, rfl, rfl⟩⟩⟩
    · rw [first]; decide
    · rw [second]; decide
    · rw [third]; decide
    · rw [fourth]; decide
  obtain ⟨-, -, run, -⟩ := calls_nest nesting {} outer
  obtain ⟨-, returned⟩ := run ps deeper
  obtain ⟨-, fetched, stack, pc⟩ := returned (.step {}) (by rw [ended]; exact Nat.zero_le _)
  exact ⟨outer, deeper, by rw [second], fetched, stack, pc⟩

end Machine

end Chip8
