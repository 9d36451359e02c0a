import Chip8.Proofs.Session.Display
import Chip8.Proofs.Terminal.Grid

namespace Chip8.Terminal

theorem getLast?_filterMap_cons_or {α β : Type} (f : α → Option β) (a : α) (l : List α)
    (b : Option β) :
    ((a :: l).filterMap f).getLast?.or b = (l.filterMap f).getLast?.or ((f a).or b) := by
  cases h : f a with
  | none => simp [h]
  | some c => simp [h, List.getLast?_cons]

namespace Drawing

def cellChar (on : Bool) : Char := if on then '█' else ' '

@[simp] theorem length_rowText (cells : List Bool) :
    (rowText cells).toList.length = 2 * cells.length := by
  rw [rowText, String.toList_ofList]
  induction cells with
  | nil => rfl
  | cons c cells ih =>
    rw [List.flatMap_cons, List.length_append, ih]
    cases c <;> simp <;> omega

theorem rowText_getElem? (cells : List Bool) (i : Nat) :
    (rowText cells).toList[i]? = cells[i / 2]?.map cellChar := by
  rw [rowText, String.toList_ofList]
  induction cells generalizing i with
  | nil => simp
  | cons c cells ih =>
    have pair : (if c then ['█', '█'] else [' ', ' ']) = [cellChar c, cellChar c] := by
      cases c <;> rfl
    rw [List.flatMap_cons, pair]
    match i with
    | 0 => rfl
    | 1 => rfl
    | i + 2 => simp [ih]

theorem screen_eq (s : Screen) :
    screen s = (List.range Screen.height).flatMap fun y =>
      [.moveTo 1 (y + 1), .print (rowText (s.row y))] := by
  have rows : s.rows.zipIdx = (List.range Screen.height).map fun y => (s.row y, y) := by
    refine List.ext_getElem (by simp [Screen.rows]) fun y _ _ => ?_
    simp [Screen.rows]
  rw [screen, rows, List.flatMap_map]

def Inside (x y : Nat) : Prop := 0 < x ∧ x < right ∧ 0 < y ∧ y < bottom

instance (x y : Nat) : Decidable (Inside x y) := inferInstanceAs (Decidable (_ ∧ _))

theorem isSome_frameChar? {x y : Nat} (hx : x ≤ right) (hy : y ≤ bottom) :
    (frameChar? x y).isSome ↔ ¬Inside x y := by
  simp only [frameChar?, Inside]
  split
  · simp; omega
  split
  · simp; omega
  split
  · simp; omega
  · simp; omega

def picture (screen? : Option Screen) (status? : Option Status) (x y : Nat) : Char :=
  if Inside x y then cellChar (screen?.any fun s => s.get ((x - 1) / 2) (y - 1))
  else if y = statusRow then ((status?.map statusText).getD "").toList[x]?.getD ' '
  else if x ≤ right ∧ y ≤ bottom then (frameChar? x y).getD ' '
  else ' '

end Drawing

open Drawing

namespace Grid

theorem painted_frame_cell {g : Grid} {x y : Nat} (hx : x < g.width) (hy : y < g.height) :
    Painted (fun x' y' => x' = x ∧ y' = y ∧ (frameChar? x y).isSome)
      (fun x y => (frameChar? x y).getD ' ') g
      (g.draw (match frameChar? x y with
        | some c => [.moveTo x y, .print (String.singleton c)]
        | none => [])) := by
  cases hc : frameChar? x y with
  | none => exact Painted.nothing (by simp)
  | some c =>
    refine (Painted.text hx hy (by simp; omega) ?_).of_iff ?_
    · intro i hi
      obtain rfl : i = 0 := by simpa using hi
      simp [hc]
    · intro x' y'
      simp
      omega

theorem painted_frame {g : Grid} (wide : right < g.width) (high : bottom < g.height) :
    Painted (fun x y => x ≤ right ∧ y ≤ bottom ∧ (frameChar? x y).isSome)
      (fun x y => (frameChar? x y).getD ' ') g (g.draw frame) := by
  refine (Painted.flatMap fun y hy h hw hh => Painted.flatMap fun x hx h' hw' hh' =>
    painted_frame_cell (x := x) (y := y) ?_ ?_).of_iff ?_
  · have := List.mem_range.mp hx
    omega
  · have := List.mem_range.mp hy
    omega
  · intro x y
    simp only [List.mem_range]
    constructor
    · rintro ⟨y, hy, x, hx, rfl, rfl, hc⟩
      exact ⟨by omega, by omega, hc⟩
    · rintro ⟨hx, hy, hc⟩
      exact ⟨y, by omega, x, by omega, rfl, rfl, hc⟩

theorem painted_row {g : Grid} {s : Screen} {y : Nat} (wide : right < g.width)
    (high : y + 1 < g.height) :
    Painted (fun x' y' => y' = y + 1 ∧ 0 < x' ∧ x' < right)
      (fun x y => cellChar (s.get ((x - 1) / 2) (y - 1))) g
      (g.draw [.moveTo 1 (y + 1), .print (rowText (s.row y))]) := by
  have hwidth : (s.row y).length = 64 := by simp [Screen.row, Screen.width]
  have hlength : (rowText (s.row y)).toList.length = 128 := by rw [length_rowText, hwidth]
  have hright : right = 129 := rfl
  refine (Painted.text (by omega) high (by omega) ?_).of_iff ?_
  · intro i hi
    have hrow : (rowText (s.row y)).toList[i]? = some (cellChar (s.get (i / 2) y)) := by
      rw [rowText_getElem?, Screen.row, List.getElem?_map,
        List.getElem?_range (by rw [Screen.width]; omega)]
      rfl
    rw [← Option.some_inj, ← List.getElem?_eq_getElem hi, hrow, Nat.add_sub_cancel_left,
      Nat.add_sub_cancel]
  · intro x' y'
    omega

theorem painted_screen {g : Grid} (s : Screen) (wide : right < g.width) (high : bottom < g.height) :
    Painted Inside (fun x y => cellChar (s.get ((x - 1) / 2) (y - 1))) g (g.draw (screen s)) := by
  rw [screen_eq]
  have hbottom : bottom = Screen.height + 1 := rfl
  refine (Painted.flatMap fun y hy h hw hh => painted_row (s := s) (y := y) ?_ ?_).of_iff ?_
  · omega
  · have := List.mem_range.mp hy
    omega
  · intro x y
    simp only [List.mem_range, Inside]
    constructor
    · rintro ⟨y, hy, rfl, hx⟩
      omega
    · rintro ⟨hx, hx', hy, hy'⟩
      exact ⟨y - 1, by omega, by omega, hx, hx'⟩

theorem painted_status {g : Grid} (s : Status) (high : statusRow < g.height)
    (fits : (statusText s).toList.length ≤ g.width) :
    Painted (fun _ y => y = statusRow) (fun x _ => (statusText s).toList[x]?.getD ' ') g
      (g.draw (status s)) := by
  have moved : g.stroke (.moveTo 0 statusRow) = { g with column := 0, row := statusRow } := by
    simp only [stroke, Grid.mk.injEq, true_and]
    omega
  rw [status, draw_cons, draw_cons, draw_cons, draw_nil, moved]
  simp only [stroke]
  rw [foldl_put (by simpa using fits)]
  refine ⟨rfl, rfl, ?_, ?_⟩
  · rintro x y rfl
    simp
  · intro x y hy
    simp [hy]

structure Shows (width height : Nat) (screen? : Option Screen) (status? : Option Status)
    (g : Grid) : Prop where
  width_eq : g.width = width
  height_eq : g.height = height
  cell_eq : ∀ x y, g.cell x y = picture screen? status? x y

namespace Shows

variable {width height : Nat} {screen? : Option Screen} {status? : Option Status} {g : Grid}

theorem opening (g : Grid) (wide : right < g.width) (high : bottom < g.height) :
    Shows g.width g.height none none (g.draw Drawing.opening) := by
  have cleared : g.draw Drawing.opening = (g.stroke .clearAll).draw frame := by
    simp only [Drawing.opening, draw_append, draw_cons, draw_nil, stroke]
  have painted : Painted _ _ (g.stroke .clearAll) ((g.stroke .clearAll).draw frame) :=
    painted_frame wide high
  rw [cleared]
  refine ⟨painted.width, painted.height, fun x y => ?_⟩
  by_cases framed : x ≤ right ∧ y ≤ bottom ∧ (frameChar? x y).isSome
  · obtain ⟨hx, hy, hc⟩ := framed
    have hin := (isSome_frameChar? hx hy).mp hc
    have hrow : y ≠ statusRow := Nat.ne_of_lt (Nat.lt_succ_of_le hy)
    rw [painted.inside ⟨hx, hy, hc⟩, picture, if_neg hin, if_neg hrow, if_pos ⟨hx, hy⟩]
  · -- the frame leaves blank what was cleared, and the picture has nothing else there
    have blank : (g.stroke .clearAll).cell x y = ' ' := rfl
    rw [painted.outside framed, blank, picture]
    split
    · rfl
    split
    · rfl
    split
    · next hxy =>
      have hc : frameChar? x y = none := by simpa [hxy] using framed
      rw [hc]
      rfl
    · rfl

theorem screen (h : Shows width height screen? status? g) (s : Screen) (wide : right < width)
    (high : bottom < height) : Shows width height (some s) status? (g.draw (Drawing.screen s)) := by
  obtain ⟨rfl, rfl, hcell⟩ := h
  have painted := painted_screen s wide high
  refine ⟨painted.width, painted.height, fun x y => ?_⟩
  by_cases hin : Inside x y
  · simp [painted.inside hin, picture, hin]
  · simp [painted.outside hin, hcell, picture, hin]

theorem status (h : Shows width height screen? status? g) (s : Status) (high : statusRow < height)
    (fits : (statusText s).toList.length ≤ width) :
    Shows width height screen? (some s) (g.draw (Drawing.status s)) := by
  obtain ⟨rfl, rfl, hcell⟩ := h
  have painted := painted_status s high fits
  refine ⟨painted.width, painted.height, fun x y => ?_⟩
  by_cases hrow : y = statusRow
  · have hin : ¬Inside x y := by simp [Inside, hrow, statusRow]
    rw [painted.inside hrow, picture, if_neg hin, if_pos hrow]
    rfl
  · simp [painted.outside hrow, hcell, picture, hrow]

theorem event (h : Shows width height screen? status? g) (e : Event) (wide : right < width)
    (high : statusRow < height)
    (fits : ∀ s, e = .status s → (statusText s).toList.length ≤ width) :
    Shows width height (e.screen?.or screen?) (e.status?.or status?)
      (g.draw (Drawing.event e)) := by
  cases e with
  | note n => exact h
  | refresh s => exact h.screen s wide (Nat.lt_of_succ_lt high)
  | status s => exact h.status s high (fits s rfl)

theorem events (h : Shows width height screen? status? g) (es : List Event) (wide : right < width)
    (high : statusRow < height)
    (fits : ∀ s, .status s ∈ es → (statusText s).toList.length ≤ width) :
    Shows width height ((es.filterMap Event.screen?).getLast?.or screen?)
      ((es.filterMap Event.status?).getLast?.or status?) (g.draw (es.flatMap Drawing.event)) := by
  induction es generalizing g screen? status? with
  | nil => exact h
  | cons e es ih =>
    have he := h.event e wide high fun s hs => fits s (hs ▸ List.mem_cons_self)
    have hes := ih he fun s hs => fits s (List.mem_cons_of_mem e hs)
    rw [List.flatMap_cons, draw_append, getLast?_filterMap_cons_or, getLast?_filterMap_cons_or]
    exact hes

end Shows

def lastScreen? (es : List Event) : Option Screen := (es.filterMap Event.screen?).getLast?

def lastText (es : List Event) : String :=
  ((es.filterMap Event.status?).getLast?.map statusText).getD ""

/-- After the opening and some events the frame is as it was at the opening, the screen drawn last
is inside it, and the status drawn last is all there is on its line. -/
theorem shows_last_drawn (g : Grid) (es : List Event) (wide : 130 ≤ g.width) (high : 35 ≤ g.height)
    (fits : ∀ s, .status s ∈ es → (statusText s).length ≤ g.width) :
    (∀ x y, x ≤ right → y ≤ bottom → x = 0 ∨ x = right ∨ y = 0 ∨ y = bottom →
      (g.draw (opening ++ es.flatMap event)).cell x y = (g.draw opening).cell x y ∧
      frameChar? x y = some ((g.draw (opening ++ es.flatMap event)).cell x y)) ∧
    (∀ x y, x < 64 → y < 32 → ∀ x', x' = 2 * x + 1 ∨ x' = 2 * x + 2 →
      (g.draw (opening ++ es.flatMap event)).cell x' (y + 1) =
        if (lastScreen? es).any (·.get x y) then '█' else ' ') ∧
    ∀ x, x < g.width →
      (g.draw (opening ++ es.flatMap event)).cell x 34 = (lastText es).toList[x]?.getD ' ' := by
  have opened := Shows.opening g wide (Nat.lt_of_succ_lt high)
  have shown := opened.events es wide high fun s hs => String.length_toList ▸ fits s hs
  have hright : right = 129 := rfl
  have hbottom : bottom = 33 := rfl
  rw [draw_append]
  refine ⟨fun x y hx hy border => ?_, fun x y hx hy x' hx' => ?_, fun x _ => ?_⟩
  · have hin : ¬Inside x y := by rw [Inside]; omega
    have hrow : y ≠ statusRow := Nat.ne_of_lt (Nat.lt_succ_of_le hy)
    obtain ⟨c, hc⟩ := Option.isSome_iff_exists.mp ((isSome_frameChar? hx hy).mpr hin)
    simp [shown.cell_eq, opened.cell_eq, picture, hin, hrow, hx, hy, hc]
  · have hin : Inside x' (y + 1) := by rw [Inside]; omega
    have hcol : (x' - 1) / 2 = x := by omega
    rw [shown.cell_eq, picture, if_pos hin, hcol, Option.or_none]
    rfl
  · have hin : ¬Inside x 34 := by rw [Inside]; omega
    rw [shown.cell_eq, picture, if_neg hin, Option.or_none]
    rfl

def smallest : Grid := { width := 130, height := 35, cell := fun _ _ => '?' }

def shortened : List Event :=
  [.status ⟨true, some (.stackUnderflow 512)⟩, .refresh ⟨Vector.replicate 2048 true⟩,
    .status ⟨false, none⟩]

theorem shows_last_drawn_shortened :
    (smallest.draw (opening ++ shortened.flatMap event)).cell 129 33 = '┛' ∧
      (smallest.draw (opening ++ shortened.flatMap event)).cell 128 (31 + 1) = '█' ∧
      (smallest.draw (opening ++ shortened.flatMap event)).cell 32 34 = 't' ∧
      (smallest.draw (opening ++ shortened.flatMap event)).cell 33 34 = ' ' := by
  have fits : ∀ s, .status s ∈ shortened → (statusText s).length ≤ smallest.width := by
    intro s hs
    simp only [shortened, List.mem_cons, List.not_mem_nil, reduceCtorEq, Event.status.injEq,
      false_or, or_false] at hs
    rcases hs with rfl | rfl <;> decide
  have corner : frameChar? 129 33 = some '┛' := by decide
  have last : (lastScreen? shortened).any (·.get 63 31) = true := by
    rw [show lastScreen? shortened = some ⟨Vector.replicate 2048 true⟩ from rfl]
    simp [Screen.get]
  obtain ⟨framed, lit, text⟩ :=
    shows_last_drawn smallest shortened (by decide) (by decide) fits
  refine ⟨?_, ?_, ?_, ?_⟩
  · have shown := (framed 129 33 (by decide) (by decide) (by decide)).2
    exact Option.some_inj.mp (shown.symm.trans corner)
  · exact (lit 63 31 (by decide) (by decide) 128 (by decide)).trans (if_pos last)
  · exact (text 32 (by decide)).trans (by decide)
  · exact (text 33 (by decide)).trans (by decide)

end Grid

end Chip8.Terminal
