import Chip8.Proofs.Machine.Registers
import Chip8.Proofs.Machine.Transfers
import Mathlib.Data.List.Basic
/-!
# What instructions do not look at

Three instructions look at a timer, a few at the dialect, and none at the fault that is kept or at the
redraw mark. All others do the same to a machine that has been altered there.
-/

namespace Chip8

structure Alteration where
  delay : UInt8 → UInt8 := id
  sound : UInt8 → UInt8 := id
  lastFault : Option Fault → Option Fault := id
  dialect : Dialect → Dialect := id
  marks : Bool := false

def Alteration.KeepsTime (a : Alteration) : Prop := a.delay = id ∧ a.sound = id

def Instruction.Untimed : Instruction → Prop
  | .readDelay _ => False
  | .setDelay _ => False
  | .setSound _ => False
  | _ => True

inductive Toggle : Type
  | shiftReadsY : Toggle
  | jumpAddsV0 : Toggle
  | transferMovesIndex : Toggle
  | spritesWrap : Toggle
  deriving DecidableEq, Repr

def Dialect.isSet (d : Dialect) : Toggle → Bool
  | .shiftReadsY => d.shiftReadsY
  | .jumpAddsV0 => d.jumpAddsV0
  | .transferMovesIndex => d.transferMovesIndex
  | .spritesWrap => d.spritesWrap

namespace Canvas

variable {x y : Nat}

theorem place?_of_lt (hx : x < 64) (hy : y < 32) (wrap : Bool) :
    place? wrap x y = some (x, y) := by
  have hw : x < Screen.width := hx
  have hh : y < Screen.height := hy
  cases wrap with
  | true => simp [place?, Nat.mod_eq_of_lt hw, Nat.mod_eq_of_lt hh]
  | false => simp [place?, hw, hh]

theorem flip_of_lt (hx : x < 64) (hy : y < 32) (c : Canvas) (wrap wrap' : Bool) :
    c.flip wrap x y = c.flip wrap' x y := by
  rw [flip, place?_of_lt hx hy, flip, place?_of_lt hx hy]

theorem drawRow_of_lt (hx : x ≤ 56) (hy : y < 32) (c : Canvas) (wrap wrap' : Bool) (byte : UInt8) :
    c.drawRow wrap x y byte = c.drawRow wrap' x y byte := by
  rw [drawRow, drawRow, List.foldlM_eq_foldl, List.foldlM_eq_foldl]
  apply List.foldl_ext
  intro c col hcol
  have hc : col < 8 := List.mem_range.1 hcol
  simp only [flip_of_lt (show x + col < 64 by omega) hy _ wrap wrap']

theorem drawSprite_of_lt (hx : x ≤ 56) {rows : Nat} (hy : y + rows ≤ 32) (c : Canvas)
    (memory : Memory) (wrap wrap' : Bool) (address : Nat) :
    c.drawSprite memory wrap x y address rows = c.drawSprite memory wrap' x y address rows := by
  induction rows generalizing c y address with
  | zero => rfl
  | succ rows ih =>
    rw [drawSprite, drawSprite]
    split
    · rfl
    · rw [drawRow_of_lt hx (by omega) c wrap wrap']
      congr 1
      funext c
      exact ih (by omega) c (address + 1)

end Canvas

def Machine.alter (a : Alteration) (m : Machine) : Machine :=
  { m with
    delay := a.delay m.delay
    sound := a.sound m.sound
    lastFault := a.lastFault m.lastFault
    dialect := a.dialect m.dialect
    redraw := a.marks || m.redraw }

def Effect.alter (a : Alteration) (e : Effect) : Effect :=
  { e with machine := e.machine.alter a }

def Outcome.alter (a : Alteration) (o : Outcome) : Outcome :=
  { o with machine := o.machine.alter a }

namespace Machine

/-- The instruction can come to something else if the toggle is set than if it is not. -/
def Sensitive (m : Machine) : Instruction → Toggle → Prop
  | .arith .shiftRight x y, .shiftReadsY => m.register x ≠ m.register y
  | .arith .shiftLeft x y, .shiftReadsY => m.register x ≠ m.register y
  | .jumpOffset x _, .jumpAddsV0 => m.register x ≠ m.register 0
  | .storeRegisters _, .transferMovesIndex => True
  | .loadRegisters _, .transferMovesIndex => True
  | .draw x y n, .spritesWrap =>
    56 < (m.register x).toNat % 64 ∨ 32 < (m.register y).toNat % 32 + n.toNat
  | _, _ => False

def Indifferent (m : Machine) (d : Dialect) (i : Instruction) : Prop :=
  ∀ t, d.isSet t ≠ m.dialect.isSet t → ¬ m.Sensitive i t

theorem indifferent_self (m : Machine) (i : Instruction) : m.Indifferent m.dialect i :=
  fun _ differs => absurd rfl differs

variable {m : Machine} {a : Alteration} {x y n : UInt8}

theorem Indifferent.isSet {d : Dialect} {i : Instruction} (h : m.Indifferent d i) {t : Toggle}
    (sensitive : m.Sensitive i t) : d.isSet t = m.dialect.isSet t :=
  Decidable.byContradiction fun differs => h t differs sensitive

theorem painted_alter (m : Machine) (screen : Screen) :
    { m.alter a with screen, redraw := true } = { m with screen, redraw := true }.alter a := by
  rw [alter, alter, Bool.or_true]

theorem getV_alter (x : UInt8) : (m.alter a).getV x = m.getV x := rfl

theorem setV_alter (x value : UInt8) :
    (m.alter a).setV x value = (m.setV x value).map (alter a) := by
  simp only [setV]
  split <;> rfl

theorem test_alter (keys : Keypad) (c : Condition) :
    (m.alter a).test keys c = m.test keys c := by
  cases c <;> rfl

theorem arith_alter {op : Arith} (hx : x < 16) (hy : y < 16)
    (h : m.Indifferent (a.dialect m.dialect) (.arith op x y)) :
    (m.alter a).arith op x y = (m.arith op x y).map (alter a) := by
  -- what is shifted is the same unless the register that supplies it matters
  have source : m.getV (op.source (a.dialect m.dialect) x y) = m.getV (op.source m.dialect x y) := by
    by_cases same : m.register x = m.register y
    · have hv : m.getV x = m.getV y := by rw [getV_of_lt hx, getV_of_lt hy, same]
      simp only [Arith.source]
      split <;> split <;> simp [hv]
    · cases op with
      | shiftRight =>
        have set : (a.dialect m.dialect).shiftReadsY = m.dialect.shiftReadsY :=
          h.isSet (t := .shiftReadsY) same
        rw [Arith.source, Arith.source, set]
      | shiftLeft =>
        have set : (a.dialect m.dialect).shiftReadsY = m.dialect.shiftReadsY :=
          h.isSet (t := .shiftReadsY) same
        rw [Arith.source, Arith.source, set]
      | _ => rfl
  simp only [arith, show (m.alter a).dialect = a.dialect m.dialect from rfl, getV_alter, source,
    setV_alter]
  cases m.getV (op.source m.dialect x y) with
  | error crash => rfl
  | ok s =>
    cases m.getV x with
    | error crash => rfl
    | ok v =>
      dsimp only [bind, Except.bind]
      cases m.setV x (op.result v s) with
      | error crash => rfl
      | ok done =>
        dsimp only [Except.map]
        cases op.flag? v s <;> rfl

theorem addIndex_alter (x : UInt8) :
    (m.alter a).addIndex x = (m.addIndex x).map (alter a) := by
  simp only [addIndex, getV_alter]
  cases m.getV x with
  | error crash => rfl
  | ok v =>
    by_cases small : m.index.toNat + v.toNat < Memory.size
    · dsimp only [bind, Except.bind]
      rw [if_pos small]
      exact if_pos small
    · dsimp only [bind, Except.bind]
      rw [if_neg small]
      exact if_neg small

theorem offsetTarget_alter {nnn : UInt16} (hx : x < 16)
    (h : m.Indifferent (a.dialect m.dialect) (.jumpOffset x nnn)) :
    (m.alter a).offsetTarget x nnn = m.offsetTarget x nnn := by
  have offset : m.getV (if (a.dialect m.dialect).jumpAddsV0 then 0 else x)
      = m.getV (if m.dialect.jumpAddsV0 then 0 else x) := by
    by_cases same : m.register x = m.register 0
    · have hv : m.getV x = m.getV 0 := by rw [getV_of_lt hx, getV_of_lt (by decide), same]
      split <;> split <;> simp [hv]
    · have set : (a.dialect m.dialect).jumpAddsV0 = m.dialect.jumpAddsV0 :=
        h.isSet (t := .jumpAddsV0) same
      rw [set]
  simp only [offsetTarget, show (m.alter a).dialect = a.dialect m.dialect from rfl, getV_alter,
    offset]

theorem draw_alter (hx : x < 16) (hy : y < 16)
    (h : m.Indifferent (a.dialect m.dialect) (.draw x y n)) :
    (m.alter a).draw x y n = (m.draw x y n).map fun done => (done.1.alter a, done.2) := by
  have drawn : Canvas.drawSprite ⟨m.screen, false⟩ m.memory (a.dialect m.dialect).spritesWrap
        ((m.register x).toNat % 64) ((m.register y).toNat % 32) m.index.toNat n.toNat
      = Canvas.drawSprite ⟨m.screen, false⟩ m.memory m.dialect.spritesWrap
        ((m.register x).toNat % 64) ((m.register y).toNat % 32) m.index.toNat n.toNat := by
    by_cases edge : m.Sensitive (.draw x y n) .spritesWrap
    · have set : (a.dialect m.dialect).spritesWrap = m.dialect.spritesWrap :=
        h.isSet (t := .spritesWrap) edge
      rw [set]
    · simp only [Sensitive, not_or, Nat.not_lt] at edge
      exact Canvas.drawSprite_of_lt edge.1 edge.2 ..
  have column : m.getV x = .ok (m.register x) := getV_of_lt hx
  have row : m.getV y = .ok (m.register y) := getV_of_lt hy
  simp only [draw, getV_alter, column, row]
  change (Canvas.drawSprite ⟨m.screen, false⟩ m.memory (a.dialect m.dialect).spritesWrap
    ((m.register x).toNat % 64) ((m.register y).toNat % 32) m.index.toNat n.toNat >>= _)
    = Except.map _ (Canvas.drawSprite ⟨m.screen, false⟩ m.memory m.dialect.spritesWrap
      ((m.register x).toNat % 64) ((m.register y).toNat % 32) m.index.toNat n.toNat >>= _)
  rw [drawn]
  cases Canvas.drawSprite ⟨m.screen, false⟩ m.memory m.dialect.spritesWrap
    ((m.register x).toNat % 64) ((m.register y).toNat % 32) m.index.toNat n.toNat with
  | error crash => rfl
  | ok done =>
    have painted := painted_alter (a := a) m done.1.screen
    exact congrArg (fun m => Except.ok (m.setFlag done.1.collided, done.2)) painted

section Transfers

variable (moves : (a.dialect m.dialect).transferMovesIndex = m.dialect.transferMovesIndex)
include moves

theorem indexAfter_alter (count : Nat) : (m.alter a).indexAfter count = m.indexAfter count := by
  simp only [indexAfter, alter, moves]

theorem slot_alter (k : Nat) : (m.alter a).slot k = m.slot k := by
  simp only [slot, indexAfter_alter moves]
  simp only [alter, moves]

theorem stored_alter (count : Nat) : (m.alter a).stored count = m.stored count := by
  induction count with
  | zero => rfl
  | succ count ih =>
    rw [stored, stored, ih, slot_alter moves]
    rfl

theorem loaded_alter (count : Nat) : (m.alter a).loaded count = m.loaded count := by
  induction count with
  | zero => rfl
  | succ count ih =>
    rw [loaded, loaded, ih, slot_alter moves]
    rfl

theorem misplaced_alter (count : Nat) : (m.alter a).misplaced count = m.misplaced count := by
  induction count with
  | zero => rfl
  | succ count ih => rw [misplaced, misplaced, ih, slotFault, slotFault, slot_alter moves]

theorem storeRegisters_alter (hx : x < 16) : (m.alter a).storeRegisters x =
    (m.storeRegisters x).map fun done => (done.1.alter a, done.2) := by
  rw [storeRegisters_eq hx, storeRegisters_eq hx, misplaced_alter moves, storing, stored_alter moves,
    indexAfter_alter moves]
  rfl

theorem loadRegisters_alter (hx : x < 16) : (m.alter a).loadRegisters x =
    (m.loadRegisters x).map fun done => (done.1.alter a, done.2) := by
  rw [loadRegisters_eq hx, loadRegisters_eq hx, misplaced_alter moves, loading, loaded_alter moves,
    indexAfter_alter moves]
  rfl

end Transfers

variable (inputs : Inputs) {i : Instruction}

theorem execute_alter (range : i.Executable) (time : i.Untimed ∨ a.KeepsTime)
    (h : m.Indifferent (a.dialect m.dialect) i) :
    (m.alter a).execute inputs i = (m.execute inputs i).map (Effect.alter a) := by
  cases i with
  | clearScreen =>
    rw [execute, painted_alter]
    rfl
  | ret =>
    simp only [execute, show (m.alter a).stack = m.stack from rfl]
    split <;> rfl
  | jump nnn => rfl
  | call nnn => rfl
  | skip c =>
    simp only [execute, test_alter]
    cases m.test inputs.keys c with
    | error crash => rfl
    | ok holds => cases holds <;> rfl
  | setConst x nn =>
    simp only [execute, setV_alter]
    cases m.setV x nn <;> rfl
  | addConst x nn =>
    simp only [execute, getV_alter, setV_alter]
    cases m.getV x with
    | error crash => rfl
    | ok v =>
      dsimp only [bind, Except.bind]
      cases m.setV x (v + nn) <;> rfl
  | arith op x y =>
    simp only [execute, arith_alter range.1 range.2 h]
    cases m.arith op x y <;> rfl
  | setIndex nnn => rfl
  | jumpOffset x nnn =>
    simp only [execute, offsetTarget_alter range.1 h]
    cases m.offsetTarget x nnn <;> rfl
  | random x nn =>
    simp only [execute, setV_alter]
    cases m.setV x (inputs.random &&& nn) <;> rfl
  | draw x y n =>
    simp only [execute, draw_alter range.1 range.2 h]
    cases m.draw x y n <;> rfl
  | readDelay x =>
    obtain ⟨delay, -⟩ := time.resolve_left id
    simp only [execute, setV_alter, show (m.alter a).delay = m.delay by rw [alter, delay, id]]
    cases m.setV x m.delay <;> rfl
  | waitKey x =>
    simp only [execute, setV_alter]
    split
    · next key _ => cases m.setV x key <;> rfl
    · rfl
  | setDelay x =>
    obtain ⟨delay, -⟩ := time.resolve_left id
    simp only [execute, getV_alter]
    cases m.getV x with
    | error crash => rfl
    | ok v => simp [alter, Effect.alter, delay, bind, Except.bind, Except.map, pure, Except.pure]
  | setSound x =>
    obtain ⟨-, sound⟩ := time.resolve_left id
    simp only [execute, getV_alter]
    cases m.getV x with
    | error crash => rfl
    | ok v => simp [alter, Effect.alter, sound, bind, Except.bind, Except.map, pure, Except.pure]
  | addIndex x =>
    simp only [execute, addIndex_alter]
    cases m.addIndex x <;> rfl
  | pointGlyph x =>
    simp only [execute, pointGlyph_eq, getV_alter]
    cases m.getV x <;> rfl
  | storeDecimal x =>
    simp only [execute, getV_alter]
    cases m.getV x with
    | error crash => rfl
    | ok v =>
      dsimp only [bind, Except.bind]
      simp only [show (m.alter a).memory = m.memory from rfl,
        show (m.alter a).index = m.index from rfl]
      cases m.memory.copy m.index.toNat (decimalDigits v) <;> rfl
  | storeRegisters x =>
    have moves := h.isSet (t := .transferMovesIndex) trivial
    simp only [execute, storeRegisters_alter moves range]
    cases m.storeRegisters x <;> rfl
  | loadRegisters x =>
    have moves := h.isSet (t := .transferMovesIndex) trivial
    simp only [execute, loadRegisters_alter moves range]
    cases m.loadRegisters x <;> rfl

theorem lastFault_execute {e : Effect} (range : i.Executable) (h : m.execute inputs i = .ok e) :
    e.machine.lastFault = m.lastFault := by
  -- to put in the fault that is there alters nothing, neither before nor after
  have same := execute_alter (m := m) inputs (a := { lastFault := fun _ => m.lastFault }) range
    (.inr ⟨rfl, rfl⟩) (m.indifferent_self i)
  rw [h] at same
  have effect := Except.ok.inj (h.symm.trans same)
  exact congrArg (fun e => e.machine.lastFault) effect

theorem fetch_alter : (m.alter a).fetch = m.fetch := rfl

section Reports

variable (silent : a.lastFault = id)
include silent

theorem report_alter (m : Machine) (notes : List Note) (fault : Option Fault) :
    (m.alter a).report notes fault = (m.report notes fault).alter a := by
  cases fault with
  | none => rfl
  | some f => simp [report, Outcome.alter, alter, silent]

theorem perform_alter (range : i.Executable) (time : i.Untimed ∨ a.KeepsTime)
    (h : m.Indifferent (a.dialect m.dialect) i) :
    (m.alter a).perform inputs i = (m.perform inputs i).map (Outcome.alter a) := by
  rw [perform, execute_alter inputs range time h, perform]
  cases m.execute inputs i with
  | error crash => rfl
  | ok e =>
    have reported := report_alter silent { e.machine with pc := e.flow.follow e.machine.pc }
      e.notes e.fault
    exact congrArg Except.ok reported

/-- Whatever a cycle comes to, a fault included, it comes to on the altered machine. -/
theorem step_alter (h : ∀ w i, m.fetch = .ok (w, i) →
    (i.Untimed ∨ a.KeepsTime) ∧ m.Indifferent (a.dialect m.dialect) i) :
    (m.alter a).step inputs = (m.step inputs).alter a := by
  cases fetched : m.fetch with
  | error fault =>
    have failed : (m.alter a).fetch = .error fault := fetch_alter.trans fetched
    rw [step_of_fetch_error inputs fetched, step_of_fetch_error inputs failed]
    exact report_alter silent { m with pc := m.pc + 2 } [] (some fault)
  | ok found =>
    obtain ⟨w, i⟩ := found
    obtain ⟨time, indifferent⟩ := h w i fetched
    have range : i.Executable := (inRange_of_fetch fetched).executable
    obtain ⟨o, performed⟩ := m.succeeds_perform inputs range
    have altered := perform_alter inputs silent range time indifferent
    have refetched : (m.alter a).fetch = .ok (w, i) := fetch_alter.trans fetched
    rw [performed] at altered
    rw [step_of_perform inputs fetched performed, step_of_perform inputs refetched altered]
    rfl

end Reports

theorem dialect_step (m : Machine) (inputs : Inputs) :
    (m.step inputs).machine.dialect = m.dialect := by
  have same := step_alter (m := m) (a := { dialect := fun _ => m.dialect }) inputs rfl
    fun w i _ => ⟨.inr ⟨rfl, rfl⟩, m.indifferent_self i⟩
  exact congrArg (fun o => o.machine.dialect) same

def marked (m : Machine) : Machine := { m with redraw := true }

theorem step_marked (m : Machine) (inputs : Inputs) :
    m.marked.step inputs = { m.step inputs with machine := (m.step inputs).machine.marked } :=
  step_alter inputs (a := { marks := true }) rfl fun _ i _ => ⟨.inr ⟨rfl, rfl⟩, m.indifferent_self i⟩

end Machine

end Chip8
