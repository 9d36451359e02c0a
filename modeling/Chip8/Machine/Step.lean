import Chip8.Machine.Execute
/-!
# Steps

An instruction that names registers and addresses which there are can always be executed. A word of a
program only ever holds such an instruction, so a cycle always has an outcome. `step` is that outcome.
-/

namespace Chip8

theorem bind_eq_ok {ε α β : Type} {e : Except ε α} {f : α → Except ε β} {b : β} :
    e >>= f = .ok b ↔ ∃ a, e = .ok a ∧ f a = .ok b := by
  cases e with
  | ok a =>
    constructor
    · intro h
      exact ⟨a, rfl, h⟩
    · rintro ⟨_, ha, h⟩
      cases ha
      exact h
  | error error =>
    constructor
    · intro h
      cases h
    · rintro ⟨_, ha, -⟩
      cases ha

def Succeeds {ε α : Type} (e : Except ε α) : Prop := ∃ a, e = .ok a

namespace Succeeds

variable {ε α β : Type}

theorem ok (a : α) : Succeeds (.ok a : Except ε α) := ⟨a, rfl⟩

theorem not_error {error : ε} : ¬ Succeeds (.error error : Except ε α) := fun ⟨_, h⟩ => nomatch h

def value : (e : Except ε α) → Succeeds e → α
  | .ok a, _ => a
  | .error _, h => (not_error h).elim

theorem eq_ok_value : (e : Except ε α) → (h : Succeeds e) → e = .ok (value e h)
  | .ok _, _ => rfl
  | .error _, h => (not_error h).elim

theorem bind {e : Except ε α} {f : α → Except ε β} (he : Succeeds e) (hf : ∀ a, Succeeds (f a)) :
    Succeeds (e >>= f) := by
  obtain ⟨a, rfl⟩ := he
  exact hf a

theorem foldlM {f : β → α → Except ε β} (hf : ∀ b a, Succeeds (f b a)) (l : List α) (b : β) :
    Succeeds (l.foldlM f b) := by
  induction l generalizing b with
  | nil => exact ok b
  | cons a l ih => exact (hf b a).bind fun b => ih b

end Succeeds

namespace Canvas

theorem lt_of_place? {wrap : Bool} {x y px py : Nat} (h : place? wrap x y = some (px, py)) :
    px < 64 ∧ py < 32 := by
  unfold place? at h
  split at h
  · cases h
    exact ⟨Nat.mod_lt _ (by decide), Nat.mod_lt _ (by decide)⟩
  · split at h
    · cases h
      assumption
    · cases h

theorem succeeds_flip (c : Canvas) (wrap : Bool) (x y : Nat) : Succeeds (c.flip wrap x y) := by
  unfold flip
  split
  · exact .ok _
  · next px py h =>
    have hp := lt_of_place? h
    simp only [Screen.flip?, hp, and_self, dite_true]
    exact .ok _

theorem succeeds_drawRow (c : Canvas) (wrap : Bool) (x y : Nat) (byte : UInt8) :
    Succeeds (c.drawRow wrap x y byte) := by
  apply Succeeds.foldlM
  intro c col
  split
  · exact c.succeeds_flip wrap (x + col) y
  · exact .ok c

theorem succeeds_drawSprite (c : Canvas) (memory : Memory) (wrap : Bool) (x y address rows : Nat) :
    Succeeds (c.drawSprite memory wrap x y address rows) := by
  induction rows generalizing c y address with
  | zero => exact .ok _
  | succ rows ih =>
    unfold drawSprite
    split
    · exact .ok _
    · exact (c.succeeds_drawRow wrap x y _).bind fun c => ih c (y + 1) (address + 1)

end Canvas

namespace Machine

variable (m : Machine) (inputs : Inputs)

theorem getV_eq {x : UInt8} (h : x.toNat < 16) : m.getV x = .ok m.registers[x.toNat] := by
  simp only [getV, Vector.getElem?_eq_getElem h]

theorem succeeds_getV {x : UInt8} (h : x < 16) : Succeeds (m.getV x) := ⟨_, m.getV_eq h⟩

theorem succeeds_setV {x : UInt8} (h : x < 16) (value : UInt8) : Succeeds (m.setV x value) := by
  simp only [setV, show x.toNat < 16 from h, dite_true]
  exact .ok _

theorem succeeds_test {c : Condition} (h : c.InRange) : Succeeds (m.test inputs.keys c) := by
  cases c with
  | equalsConst x nn => exact (m.succeeds_getV h).bind fun _ => .ok _
  | differsConst x nn => exact (m.succeeds_getV h).bind fun _ => .ok _
  | equalsRegister x y =>
    exact (m.succeeds_getV h.1).bind fun _ => (m.succeeds_getV h.2).bind fun _ => .ok _
  | differsRegister x y =>
    exact (m.succeeds_getV h.1).bind fun _ => (m.succeeds_getV h.2).bind fun _ => .ok _
  | keyHeld x => exact (m.succeeds_getV h).bind fun _ => .ok _
  | keyReleased x => exact (m.succeeds_getV h).bind fun _ => .ok _

theorem succeeds_arith (op : Arith) {x y : UInt8} (hx : x < 16) (hy : y < 16) :
    Succeeds (m.arith op x y) :=
  (m.succeeds_getV (Arith.source_lt hx hy)).bind fun _ => (m.succeeds_getV hx).bind fun _ =>
    (m.succeeds_setV hx _).bind fun _ => .ok _

theorem succeeds_addIndex {x : UInt8} (h : x < 16) : Succeeds (m.addIndex x) :=
  (m.succeeds_getV h).bind fun v => by
    dsimp only
    split
    · exact .ok _
    · exact .ok _

theorem succeeds_draw {x y : UInt8} (hx : x < 16) (hy : y < 16) (n : UInt8) :
    Succeeds (m.draw x y n) :=
  (m.succeeds_getV hx).bind fun _ => (m.succeeds_getV hy).bind fun _ =>
    (Canvas.succeeds_drawSprite _ _ _ _ _ _ _).bind fun _ => .ok _

theorem pointGlyph_eq (x : UInt8) : m.pointGlyph x = do
    return { m with index := UInt16.ofNat ((← m.getV x).toNat % 16 * 5) } := by
  rw [pointGlyph]
  congr 1
  funext v
  exact if_pos (show v.toNat % 16 * 5 < 65536 by omega)

theorem succeeds_pointGlyph {x : UInt8} (h : x < 16) : Succeeds (m.pointGlyph x) := by
  rw [pointGlyph_eq]
  exact (m.succeeds_getV h).bind fun _ => .ok _

theorem offset_lt (dialect : Dialect) {x : UInt8} (hx : x < 16) :
    (if dialect.jumpAddsV0 then 0 else x) < 16 := by
  split
  · decide
  · exact hx

theorem succeeds_offsetTarget {x : UInt8} {nnn : UInt16} (hx : x < 16) (hn : nnn < 0x1000) :
    Succeeds (m.offsetTarget x nnn) := by
  refine (m.succeeds_getV (offset_lt m.dialect hx)).bind fun offset => ?_
  -- an address of twelve bits and a byte never add up to more than sixteen bits
  have ho := offset.toNat_lt
  have ha : nnn.toNat < 4096 := hn
  rw [if_pos (by omega)]
  exact .ok _

theorem succeeds_storeRegister {k : UInt8} (h : k < 16) : Succeeds (m.storeRegister k) := by
  refine ((m.aim k.toNat).2.succeeds_getV h).bind fun value => ?_
  dsimp only
  split
  · exact .ok _
  · exact .ok _

theorem succeeds_loadRegister {k : UInt8} (h : k < 16) : Succeeds (m.loadRegister k) := by
  simp only [loadRegister]
  split
  · exact ((m.aim k.toNat).2.succeeds_setV h _).bind fun _ => .ok _
  · exact .ok _

theorem succeeds_transfer {move : Machine → UInt8 → Except Crash (Machine × Option Fault)}
    (ks : List UInt8) (fault : Option Fault) (h : ∀ m, ∀ k ∈ ks, Succeeds (move m k)) :
    Succeeds (m.transfer move fault ks) := by
  induction ks generalizing m fault with
  | nil => exact .ok _
  | cons k ks ih =>
    exact (h m k (by simp)).bind fun done =>
      ih done.1 (fault <|> done.2) fun m j hj => h m j (by simp [hj])

theorem lt_of_mem_upTo {x k : UInt8} (hx : x < 16) (h : k ∈ upTo x) : k < 16 := by
  obtain ⟨j, hj, rfl⟩ := List.mem_map.1 h
  have hj := List.mem_range.1 hj
  have hx : x.toNat < 16 := hx
  rw [UInt8.lt_iff_toNat_lt, UInt8.toNat_ofNat']
  show j % 256 < 16
  omega

theorem succeeds_execute {i : Instruction} (h : i.Executable) :
    Succeeds (m.execute inputs i) := by
  cases i with
  | clearScreen => exact .ok _
  | ret =>
    dsimp only [execute]
    split
    · exact .ok _
    · exact .ok _
  | jump nnn => exact .ok _
  | call nnn => exact .ok _
  | skip c =>
    refine (m.succeeds_test inputs h).bind fun holds => ?_
    split
    · exact .ok _
    · exact .ok _
  | setConst x nn => exact (m.succeeds_setV h nn).bind fun _ => .ok _
  | addConst x nn =>
    exact (m.succeeds_getV h).bind fun v => (m.succeeds_setV h (v + nn)).bind fun _ => .ok _
  | arith op x y => exact (m.succeeds_arith op h.1 h.2).bind fun _ => .ok _
  | setIndex nnn => exact .ok _
  | jumpOffset x nnn => exact (m.succeeds_offsetTarget h.1 h.2).bind fun _ => .ok _
  | random x nn => exact (m.succeeds_setV h _).bind fun _ => .ok _
  | draw x y n => exact (m.succeeds_draw h.1 h.2 n).bind fun _ => .ok _
  | readDelay x => exact (m.succeeds_setV h m.delay).bind fun _ => .ok _
  | waitKey x =>
    dsimp only [execute]
    split
    · exact (m.succeeds_setV h _).bind fun _ => .ok _
    · exact .ok _
  | setDelay x => exact (m.succeeds_getV h).bind fun _ => .ok _
  | setSound x => exact (m.succeeds_getV h).bind fun _ => .ok _
  | addIndex x => exact (m.succeeds_addIndex h).bind fun _ => .ok _
  | pointGlyph x => exact (m.succeeds_pointGlyph h).bind fun _ => .ok _
  | storeDecimal x =>
    refine (m.succeeds_getV h).bind fun v => ?_
    split
    · exact .ok _
    · exact .ok _
  | storeRegisters x =>
    exact (m.succeeds_transfer _ none fun m k hk =>
      m.succeeds_storeRegister (lt_of_mem_upTo h hk)).bind fun _ => .ok _
  | loadRegisters x =>
    exact (m.succeeds_transfer _ none fun m k hk =>
      m.succeeds_loadRegister (lt_of_mem_upTo h hk)).bind fun _ => .ok _

theorem succeeds_perform {i : Instruction} (h : i.Executable) :
    Succeeds (m.perform inputs i) :=
  (m.succeeds_execute inputs h).bind fun _ => .ok _

theorem inRange_of_fetch {m : Machine} {opcode : Word} {i : Instruction}
    (h : m.fetch = .ok (opcode, i)) : i.InRange := by
  unfold fetch at h
  split at h
  · cases h
  · split at h
    · cases h
    · next hd =>
      cases h
      exact Instruction.inRange_of_decode hd

theorem succeeds_cycle : Succeeds (m.cycle inputs) := by
  unfold cycle
  split
  · exact .ok _
  · next hf => exact (m.succeeds_perform inputs (inRange_of_fetch hf).executable).bind fun _ => .ok _

def step (m : Machine) (inputs : Inputs) : Outcome :=
  Succeeds.value (m.cycle inputs) (m.succeeds_cycle inputs)

theorem cycle_eq : m.cycle inputs = .ok (m.step inputs) :=
  Succeeds.eq_ok_value (m.cycle inputs) (m.succeeds_cycle inputs)

end Machine

end Chip8
