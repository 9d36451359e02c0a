import Chip8.Proofs.Machine.Sprites
import Chip8.Proofs.Text
import Mathlib.Data.List.Count

namespace Chip8.Screen

def mark (on : Bool) : Char := if on then '#' else ' '

theorem mark_injective : Function.Injective mark := by
  intro a b
  revert a b
  decide

theorem lines_eq (s : Screen) : s.lines '#' ' ' =
    (List.range 32).map fun y => String.ofList ((List.range 64).map fun x => mark (s.get x y)) := by
  simp [lines, rows, row, height, width, mark, Function.comp_def]

theorem length_lines (s : Screen) : (s.lines '#' ' ').length = 32 := by
  rw [lines_eq, List.length_map, List.length_range]

theorem lengths_lines (s : Screen) :
    (s.lines '#' ' ').map String.length = List.replicate 32 64 := by
  simp [lines_eq, Function.comp_def]

theorem char_lines (s : Screen) (x y : Nat) : ((s.lines '#' ' ')[y]?.bind (·.toList[x]?)) =
    if x < 64 ∧ y < 32 then some (mark (s.get x y)) else none := by
  rw [lines_eq, List.getElem?_map]
  by_cases hy : y < 32
  · by_cases hx : x < 64
    · simp [hx, hy]
    · simp [hx, hy]
  · simp [hy]

theorem lines_injective {s t : Screen} (same : s.lines '#' ' ' = t.lines '#' ' ') : s = t := by
  refine ext_get fun x y => ?_
  by_cases on : x < 64 ∧ y < 32
  · have chars := s.char_lines x y
    rw [same, char_lines, if_pos on, if_pos on, Option.some_inj] at chars
    exact mark_injective chars.symm
  · rw [get_of_not_lt _ on, get_of_not_lt _ on]

theorem avoids_lines (s : Screen) : ∀ l ∈ s.lines '#' ' ', Text.Avoids ['\n'] l := by
  have marks : ∀ on, mark on ∉ ['\n'] := by decide
  intro l hl c hc
  obtain ⟨y, -, rfl⟩ := List.mem_map.1 (s.lines_eq ▸ hl)
  rw [String.toList_ofList] at hc
  obtain ⟨x, -, rfl⟩ := List.mem_map.1 hc
  exact marks _

theorem flatMap_range_eq_range (w h : Nat) :
    (List.range h).flatMap (fun y => (List.range w).map (w * y + ·)) = List.range (w * h) := by
  induction h with
  | zero => rfl
  | succ h ih =>
    rw [List.range_succ, List.flatMap_append, ih, List.flatMap_singleton, Nat.mul_succ,
      List.range_add]

theorem toList_cells (s : Screen) : s.cells.toList =
    (List.range 32).flatMap fun y => (List.range 64).map fun x => s.get x y := by
  have inline : s.cells.toList = (List.range (64 * 32)).map fun i => s.get (i % 64) (i / 64) := by
    refine List.ext_getElem (by simp) fun i hi _ => ?_
    have hi : i < 2048 := by simpa using hi
    have on : i % 64 < 64 ∧ i / 64 < 32 := by omega
    have place : 64 * (i / 64) + i % 64 = i := by omega
    simp [get, on, place]
  rw [inline, ← flatMap_range_eq_range, List.map_flatMap]
  refine List.flatMap_congr fun y _ => ?_
  rw [List.map_map]
  refine List.map_congr_left fun x hx => ?_
  have small := List.mem_range.1 hx
  have place : (64 * y + x) % 64 = x ∧ (64 * y + x) / 64 = y := by omega
  simp [place]

theorem count_lines (s : Screen) : ((s.lines '#' ' ').flatMap String.toList).count '#' = s.lit := by
  have marked : (s.lines '#' ' ').flatMap String.toList = s.cells.toList.map mark := by
    rw [lines_eq, toList_cells]
    simp [List.flatMap_map, List.map_flatMap, Function.comp_def]
  have on : '#' = mark true := rfl
  rw [marked, on, List.count_map_of_injective _ _ mark_injective, lit]
  exact Vector.count_toList

end Chip8.Screen
