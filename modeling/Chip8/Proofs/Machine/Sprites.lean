import Chip8.Proofs.Machine.Mishaps
import Mathlib.Data.List.Nodup
import Mathlib.Data.Nat.Bits

namespace Chip8

namespace Screen

def turn (s : Screen) (p : Nat × Nat) : Screen := (s.flip? p.1 p.2).getD s

variable (s : Screen) {a b : Nat}

theorem get_of_not_lt (h : ¬ (a < 64 ∧ b < 32)) : s.get a b = false := dif_neg h

theorem get_turn {p : Nat × Nat} (hx : p.1 < 64) (hy : p.2 < 32) (a b : Nat) :
    (s.turn p).get a b = (s.get a b ^^ decide (p = (a, b))) := by
  obtain ⟨x, y⟩ := p
  have hx : x < 64 := hx
  have hy : y < 32 := hy
  by_cases on : a < 64 ∧ b < 32
  · rw [turn, flip?, dif_pos ⟨hx, hy⟩, Option.getD_some, get, get, dif_pos on, dif_pos on,
      Vector.getElem_set]
    by_cases same : x = a ∧ y = b
    · obtain ⟨rfl, rfl⟩ := same
      simp
    · have apart : 64 * y + x ≠ 64 * b + a := by omega
      simp [apart, same]
  · have apart : ¬ (x = a ∧ y = b) := by
      rintro ⟨rfl, rfl⟩
      exact on ⟨hx, hy⟩
    simp [get_of_not_lt _ on, apart]

theorem get_blank (a b : Nat) : blank.get a b = false := by
  simp [get, blank]

theorem ext_get {s t : Screen} (h : ∀ a b, s.get a b = t.get a b) : s = t := by
  obtain ⟨cells⟩ := s
  obtain ⟨cells'⟩ := t
  congr 1
  apply Vector.ext
  intro i hi
  have on : i % 64 < 64 ∧ i / 64 < 32 := by omega
  have place : 64 * (i / 64) + i % 64 = i := by omega
  have same := h (i % 64) (i / 64)
  simpa [get, on, place] using same

end Screen

def Memory.bit (m : Memory) (address col : Nat) : Bool :=
  match m.read address with
  | .ok byte => byte.toNat.testBit (7 - col)
  | .error _ => false

theorem Memory.bit_of_le {m : Memory} {address : Nat} (h : 4096 ≤ address) (col : Nat) :
    m.bit address col = false := by
  rw [bit, read_of_le _ h]

namespace Canvas

def turn (c : Canvas) (p : Nat × Nat) : Canvas :=
  ⟨c.screen.turn p, c.collided || c.screen.get p.1 p.2⟩

/-- Column `x` of row `y` comes to lie at `(a, b)`, round the edges or else not beyond them. -/
def Lies (wrap : Bool) (x y a b : Nat) : Prop :=
  if wrap then a = x % 64 ∧ b = y % 32 else a = x ∧ b = y ∧ a < 64 ∧ b < 32

instance (wrap : Bool) (x y a b : Nat) : Decidable (Lies wrap x y a b) :=
  inferInstanceAs (Decidable (if wrap then _ else _))

theorem place?_eq_some_iff {wrap : Bool} {x y : Nat} {p : Nat × Nat} :
    place? wrap x y = some p ↔ Lies wrap x y p.1 p.2 := by
  obtain ⟨a, b⟩ := p
  cases wrap with
  | true => simp [place?, Lies, Screen.width, Screen.height, eq_comm]
  | false =>
    have cut : place? false x y = if x < 64 ∧ y < 32 then some (x, y) else none := rfl
    rw [cut]
    simp only [Lies, Bool.false_eq_true, if_false]
    by_cases on : x < 64 ∧ y < 32
    · simp only [if_pos on, Option.some.injEq, Prod.mk.injEq]
      omega
    · simp only [if_neg on, reduceCtorEq, false_iff]
      omega

theorem Lies.inj {wrap : Bool} {x y a b col col' row row' : Nat}
    (h : Lies wrap (x + col) (y + row) a b) (h' : Lies wrap (x + col') (y + row') a b)
    (hc : col < 8) (hc' : col' < 8) (hr : row < 32) (hr' : row' < 32) : col = col' ∧ row = row' := by
  cases wrap with
  | true =>
    simp only [Lies, if_true] at h h'
    omega
  | false =>
    simp only [Lies, Bool.false_eq_true, if_false] at h h'
    omega

def rowSpots (wrap : Bool) (x y : Nat) (bit : Nat → Bool) : List (Nat × Nat) :=
  (List.range 8).filterMap fun col => if bit col then place? wrap (x + col) y else none

def spots (memory : Memory) (wrap : Bool) (x y address rows : Nat) : List (Nat × Nat) :=
  (List.range rows).flatMap fun row => rowSpots wrap x (y + row) (memory.bit (address + row))

theorem flip_eq (c : Canvas) (wrap : Bool) (x y : Nat) :
    c.flip wrap x y = .ok ((place? wrap x y).elim c c.turn) := by
  unfold flip
  split
  · next cut =>
    rw [cut]
    rfl
  · next px py found =>
    have on := lt_of_place? found
    simp only [found, Option.elim, turn, Screen.turn, Screen.flip?, on, and_self, dite_true,
      Option.getD_some]

theorem drawRow_eq (c : Canvas) (wrap : Bool) (x y : Nat) (byte : UInt8) :
    c.drawRow wrap x y byte =
      .ok ((rowSpots wrap x y fun col => byte.toNat.testBit (7 - col)).foldl turn c) := by
  rw [drawRow, rowSpots, List.foldl_filterMap]
  refine Eq.trans ?_ List.foldlM_pure
  congr 1
  funext c col
  split
  · rw [flip_eq]
    cases place? wrap (x + col) y <;> rfl
  · rfl

section Spots

variable {memory : Memory} {wrap : Bool} {x y address rows : Nat} {p : Nat × Nat}

theorem spots_succ : spots memory wrap x y address (rows + 1) =
    rowSpots wrap x y (memory.bit address) ++ spots memory wrap x (y + 1) (address + 1) rows := by
  rw [spots, List.range_succ_eq_map, List.flatMap_cons, List.flatMap_map, spots]
  simp only [Nat.succ_eq_add_one, Nat.add_zero, Nat.add_assoc, Nat.add_comm 1]

theorem mem_rowSpots {bit : Nat → Bool} : p ∈ rowSpots wrap x y bit ↔
    ∃ col < 8, bit col = true ∧ Lies wrap (x + col) y p.1 p.2 := by
  simp [rowSpots, place?_eq_some_iff]

theorem mem_spots : p ∈ spots memory wrap x y address rows ↔ ∃ row < rows, ∃ col < 8,
    memory.bit (address + row) col = true ∧ Lies wrap (x + col) (y + row) p.1 p.2 := by
  simp [spots, mem_rowSpots]

theorem spots_of_outside (h : 4096 ≤ address) : spots memory wrap x y address rows = [] := by
  apply List.eq_nil_iff_forall_not_mem.2
  intro p hp
  obtain ⟨row, -, col, -, set, -⟩ := mem_spots.1 hp
  rw [Memory.bit_of_le (by omega)] at set
  cases set

theorem drawSprite_eq (c : Canvas) : ∃ fault, c.drawSprite memory wrap x y address rows =
    .ok ((spots memory wrap x y address rows).foldl turn c, fault) := by
  induction rows generalizing c y address with
  | zero => exact ⟨none, rfl⟩
  | succ rows ih =>
    rw [drawSprite]
    by_cases inside : address < 4096
    · have read := memory.read_of_lt inside
      have bits : memory.bit address = fun col => memory.cells[address].toNat.testBit (7 - col) := by
        funext col
        rw [Memory.bit, read]
      rw [read, spots_succ, List.foldl_append, bits]
      dsimp only
      rw [drawRow_eq]
      exact ih _
    · -- from here on no row has cells, so that it makes no difference to end the sprite
      have outside := Nat.le_of_not_lt inside
      rw [memory.read_of_le outside, spots_of_outside outside]
      exact ⟨_, rfl⟩

theorem nodup_rowSpots (bit : Nat → Bool) : (rowSpots wrap x y bit).Nodup := by
  rw [List.Nodup, rowSpots, List.pairwise_filterMap]
  apply List.nodup_range.pairwise_of_forall_ne
  intro col hc col' hc' differ p set p' set' same
  have lies : Lies wrap (x + col) (y + 0) p.1 p.2 :=
    place?_eq_some_iff.1 (Option.ite_none_right_eq_some.1 set).2
  have lies' : Lies wrap (x + col') (y + 0) p.1 p.2 :=
    place?_eq_some_iff.1 (same ▸ (Option.ite_none_right_eq_some.1 set').2)
  exact differ (lies.inj lies' (List.mem_range.1 hc) (List.mem_range.1 hc') (by decide) (by decide)).1

theorem nodup_spots (small : rows ≤ 32) : (spots memory wrap x y address rows).Nodup := by
  apply List.nodup_flatMap.2
  refine ⟨fun row _ => nodup_rowSpots _, List.nodup_range.pairwise_of_forall_ne ?_⟩
  intro row hr row' hr' differ p hp hp'
  obtain ⟨col, hc, -, lies⟩ := mem_rowSpots.1 hp
  obtain ⟨col', hc', -, lies'⟩ := mem_rowSpots.1 hp'
  have := List.mem_range.1 hr
  have := List.mem_range.1 hr'
  exact differ (lies.inj lies' hc hc' (by omega) (by omega)).2

end Spots

def OnScreen (ps : List (Nat × Nat)) : Prop := ∀ p ∈ ps, p.1 < 64 ∧ p.2 < 32

theorem onScreen_spots {memory : Memory} {wrap : Bool} {x y address rows : Nat} :
    OnScreen (spots memory wrap x y address rows) := by
  intro p hp
  obtain ⟨row, -, col, -, -, lies⟩ := mem_spots.1 hp
  exact lt_of_place? (place?_eq_some_iff.2 lies)

section Turns

variable {ps qs : List (Nat × Nat)}

/-- A cell is turned over as often as it is in the list. -/
theorem get_turns (on : OnScreen ps) (c : Canvas) (a b : Nat) :
    (ps.foldl turn c).screen.get a b = (c.screen.get a b ^^ (ps.count (a, b)).bodd) := by
  induction ps generalizing c with
  | nil => simp
  | cons p ps ih =>
    obtain ⟨first, rest⟩ := List.forall_mem_cons.1 on
    rw [List.foldl_cons, ih rest, turn, Screen.get_turn _ first.1 first.2, List.count_cons,
      Nat.bodd_add]
    by_cases same : p = (a, b)
    · simp [same, Bool.xor_comm]
    · simp [same]

theorem turns_twice (on : OnScreen ps) (c : Canvas) (collided : Bool) :
    (ps.foldl turn ⟨(ps.foldl turn c).screen, collided⟩).screen = c.screen := by
  apply Screen.ext_get
  intro a b
  rw [get_turns on, get_turns on, Bool.xor_assoc, Bool.xor_self, Bool.xor_false]

theorem turns_comm (hp : OnScreen ps) (hq : OnScreen qs) (c : Canvas) (e f : Bool) :
    (qs.foldl turn ⟨(ps.foldl turn c).screen, e⟩).screen =
      (ps.foldl turn ⟨(qs.foldl turn c).screen, f⟩).screen := by
  apply Screen.ext_get
  intro a b
  rw [get_turns hq, get_turns hp, get_turns hp, get_turns hq, Bool.xor_right_comm]

theorem collided_turns (on : OnScreen ps) (once : ps.Nodup) (c : Canvas) :
    (ps.foldl turn c).collided = true ↔
      c.collided = true ∨ ∃ p ∈ ps, c.screen.get p.1 p.2 = true := by
  induction ps generalizing c with
  | nil => simp
  | cons p ps ih =>
    obtain ⟨first, rest⟩ := List.forall_mem_cons.1 on
    obtain ⟨new, once⟩ := List.nodup_cons.1 once
    -- what comes later in the list is still as it was before
    have kept : ∀ q ∈ ps, (c.turn p).screen.get q.1 q.2 = c.screen.get q.1 q.2 := by
      intro q hq
      have apart : p ≠ (q.1, q.2) := fun same => new (same ▸ hq)
      rw [turn, Screen.get_turn _ first.1 first.2, decide_eq_false apart, Bool.xor_false]
    have later : (∃ q ∈ ps, (c.turn p).screen.get q.1 q.2 = true) ↔
        ∃ q ∈ ps, c.screen.get q.1 q.2 = true :=
      exists_congr fun q => and_congr_right fun hq => by rw [kept q hq]
    rw [List.foldl_cons, ih rest once, later, turn, Bool.or_eq_true, or_assoc]
    simp only [List.mem_cons, exists_eq_or_imp]

end Turns

end Canvas

namespace Machine

variable {m : Machine} {x y n : UInt8}

def spots (m : Machine) (x y n : UInt8) : List (Nat × Nat) :=
  Canvas.spots m.memory m.dialect.spritesWrap ((m.register x).toNat % 64)
    ((m.register y).toNat % 32) m.index.toNat n.toNat

def drawn (m : Machine) (x y n : UInt8) : Canvas := (m.spots x y n).foldl Canvas.turn ⟨m.screen, false⟩

theorem draw_eq (hx : x < 16) (hy : y < 16) : ∃ fault, m.draw x y n =
    .ok ({ m with screen := (m.drawn x y n).screen, redraw := true }.setFlag (m.drawn x y n).collided,
      fault) := by
  obtain ⟨fault, drawn⟩ : ∃ fault, Canvas.drawSprite ⟨m.screen, false⟩ m.memory m.dialect.spritesWrap
      ((m.register x).toNat % 64) ((m.register y).toNat % 32) m.index.toNat n.toNat =
        .ok (m.drawn x y n, fault) := Canvas.drawSprite_eq _
  refine ⟨fault, ?_⟩
  rw [draw, getV_of_lt hx, getV_of_lt hy]
  dsimp only [bind, Except.bind]
  rw [show Screen.width = 64 from rfl, show Screen.height = 32 from rfl, drawn]
  rfl

theorem perform_draw (inputs : Inputs) (hx : x < 16) (hy : y < 16) :
    ∃ o lastFault, m.perform inputs (.draw x y n) = .ok o ∧
      o.machine = { m with
        screen := (m.drawn x y n).screen, redraw := true, pc := m.pc + 2, lastFault }.setFlag
          (m.drawn x y n).collided := by
  obtain ⟨fault, drawn⟩ := draw_eq (m := m) (n := n) hx hy
  have executed : m.execute inputs (.draw x y n) = .ok
      { machine := { m with screen := (m.drawn x y n).screen, redraw := true }.setFlag
          (m.drawn x y n).collided
        fault } := by
    rw [execute, drawn]
    rfl
  obtain ⟨lastFault, settled⟩ := settle_machine _
  exact ⟨_, lastFault, perform_of_execute inputs executed, settled⟩

end Machine

end Chip8
