import Chip8.Terminal.Drawing
/-!
# A terminal as a grid

What strokes do to the screen of a terminal, which is taken as a grid of cells with one character
each and a cursor. The grid is that of the alternate screen, so nothing on it changes when a terminal
enters that screen or leaves it.

A drawing is described by the region it paints, and by the picture of which it paints that region.
Everything else stays as it was.
-/

namespace Chip8.Terminal

structure Grid where
  width : Nat
  height : Nat
  cell : Nat → Nat → Char
  column : Nat := 0
  row : Nat := 0

namespace Grid

def scroll (g : Grid) : Grid :=
  { g with cell := fun x y => if y + 1 < g.height then g.cell x (y + 1) else ' ' }

def nextLine (g : Grid) : Grid :=
  if g.row + 1 < g.height then { g with column := 0, row := g.row + 1 }
  else { g.scroll with column := 0 }

/-- A character at the cursor, which moves on by a column. When the line is full, the character
starts the next one. -/
def put (g : Grid) (c : Char) : Grid :=
  let g := if g.column < g.width then g else g.nextLine
  { g with
    cell := fun x y => if x = g.column ∧ y = g.row then c else g.cell x y
    column := g.column + 1 }

def stroke (g : Grid) : Stroke → Grid
  | .enterAlternate | .leaveAlternate | .hideCursor | .showCursor => g
  | .clearAll => { g with cell := fun _ _ => ' ' }
  | .clearLine => { g with cell := fun x y => if y = g.row then ' ' else g.cell x y }
  | .moveTo column row =>
    { g with column := min column (g.width - 1), row := min row (g.height - 1) }
  | .print text => text.toList.foldl put g

def draw (g : Grid) (strokes : List Stroke) : Grid := strokes.foldl stroke g

@[simp] theorem draw_nil (g : Grid) : g.draw [] = g := rfl

@[simp] theorem draw_cons (g : Grid) (s : Stroke) (ss : List Stroke) :
    g.draw (s :: ss) = (g.stroke s).draw ss := rfl

@[simp] theorem draw_append (g : Grid) (ss ts : List Stroke) :
    g.draw (ss ++ ts) = (g.draw ss).draw ts :=
  List.foldl_append

theorem put_of_lt {g : Grid} (c : Char) (h : g.column < g.width) :
    g.put c = { g with
      cell := fun x y => if x = g.column ∧ y = g.row then c else g.cell x y
      column := g.column + 1 } := by
  simp [put, h]

theorem foldl_put {g : Grid} {cs : List Char} (h : g.column + cs.length ≤ g.width) :
    cs.foldl put g = { g with
      cell := fun x y =>
        if y = g.row ∧ g.column ≤ x then cs[x - g.column]?.getD (g.cell x y) else g.cell x y
      column := g.column + cs.length } := by
  induction cs generalizing g with
  | nil => simp
  | cons c cs ih =>
    have hlt : g.column < g.width := by simp at h; omega
    rw [List.foldl_cons, put_of_lt c hlt, ih (by simp at h ⊢; omega)]
    simp only [List.length_cons, Grid.mk.injEq, true_and, and_true]
    refine ⟨?_, by omega⟩
    funext x y
    -- left of the cursor, at it, and right of it, where the rest of the text goes
    rcases Nat.lt_trichotomy x g.column with hx | rfl | hx
    · simp [Nat.not_le.mpr hx, Nat.ne_of_lt hx, Nat.not_le.mpr (Nat.lt_succ_of_lt hx)]
    · have hnot : ¬g.column + 1 ≤ g.column := Nat.not_succ_le_self _
      simp only [hnot, Nat.le_refl, Nat.sub_self, List.getElem?_cons_zero, Option.getD_some]
      by_cases hy : y = g.row <;> simp [hy]
    · have hne : x ≠ g.column := by omega
      have hsub : x - g.column = (x - (g.column + 1)) + 1 := by omega
      simp [hne, hsub, Nat.le_of_lt hx, Nat.succ_le_of_lt hx]

/-- One grid comes from the other by painting a region of it. -/
structure Painted (region : Nat → Nat → Prop) (picture : Nat → Nat → Char) (g g' : Grid) :
    Prop where
  width : g'.width = g.width
  height : g'.height = g.height
  inside : ∀ {x y}, region x y → g'.cell x y = picture x y
  outside : ∀ {x y}, ¬region x y → g'.cell x y = g.cell x y

namespace Painted

variable {R S : Nat → Nat → Prop} {p : Nat → Nat → Char} {g g' g'' : Grid}

theorem nothing (h : ∀ x y, ¬R x y) : Painted R p g g :=
  ⟨rfl, rfl, fun hr => absurd hr (h _ _), fun _ => rfl⟩

theorem trans (h : Painted R p g g') (h' : Painted S p g' g'') :
    Painted (fun x y => R x y ∨ S x y) p g g'' where
  width := h'.width.trans h.width
  height := h'.height.trans h.height
  inside {x y} hr := by
    by_cases hs : S x y
    · exact h'.inside hs
    · exact (h'.outside hs).trans (h.inside (hr.resolve_right hs))
  outside hr := by
    rw [not_or] at hr
    exact (h'.outside hr.2).trans (h.outside hr.1)

theorem of_iff (h : Painted R p g g') (hr : ∀ x y, R x y ↔ S x y) : Painted S p g g' := by
  rwa [show S = R from funext fun x => funext fun y => propext (hr x y).symm]

theorem flatMap {α : Type} {f : α → List Stroke} {R : α → Nat → Nat → Prop} {l : List α}
    (pieces : ∀ a ∈ l, ∀ h : Grid, h.width = g.width → h.height = g.height →
      Painted (R a) p h (h.draw (f a))) :
    Painted (fun x y => ∃ a ∈ l, R a x y) p g (g.draw (l.flatMap f)) := by
  induction l generalizing g with
  | nil => exact nothing (by simp)
  | cons a l ih =>
    have first := pieces a List.mem_cons_self g rfl rfl
    rw [List.flatMap_cons, draw_append]
    refine (first.trans (ih fun b hb h hw hh => ?_)).of_iff (by simp)
    exact pieces b (List.mem_cons_of_mem a hb) h (hw.trans first.width) (hh.trans first.height)

theorem text {column row : Nat} {text : String} (hcolumn : column < g.width)
    (hrow : row < g.height) (hfits : column + text.toList.length ≤ g.width)
    (hp : ∀ i (h : i < text.toList.length), p (column + i) row = text.toList[i]) :
    Painted (fun x y => y = row ∧ column ≤ x ∧ x < column + text.toList.length) p g
      (g.draw [.moveTo column row, .print text]) := by
  have moved : g.stroke (.moveTo column row) = { g with column, row } := by
    simp only [stroke, Grid.mk.injEq, true_and]
    omega
  rw [draw_cons, draw_cons, draw_nil, moved, stroke, foldl_put (by exact hfits)]
  refine ⟨rfl, rfl, ?_, ?_⟩
  · rintro x y ⟨rfl, hx, hlt⟩
    obtain ⟨i, rfl⟩ := Nat.exists_eq_add_of_le hx
    have hi : i < text.toList.length := by omega
    simp [hp i hi, hi]
  · intro x y hout
    by_cases hx : y = row ∧ column ≤ x
    · have : text.toList.length ≤ x - column := by omega
      simp [List.getElem?_eq_none this]
    · simp [hx]

end Painted

end Grid

end Chip8.Terminal
