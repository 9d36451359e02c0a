import Chip8.Proofs.Hex

namespace Chip8.Text

def Avoids (cs : List Char) (text : String) : Prop := ∀ c ∈ text.toList, c ∉ cs

instance (cs : List Char) : DecidablePred (Avoids cs) := fun text => List.decidableBAll _ text.toList

variable {cs : List Char} {sep : Char}

@[simp] theorem avoids_append {s t : String} : Avoids cs (s ++ t) ↔ Avoids cs s ∧ Avoids cs t := by
  simp [Avoids, or_imp, forall_and]

theorem Avoids.mono {cs' : List Char} {text : String} (h : Avoids cs text) (sub : cs' ⊆ cs) :
    Avoids cs' text :=
  fun c hc there => h c hc (sub there)

theorem Avoids.not_mem {text : String} (h : Avoids cs text) (hsep : sep ∈ cs) : sep ∉ text.toList :=
  fun there => h sep there hsep

theorem Avoids.intercalate {s : String} {ws : List String} (hs : Avoids cs s)
    (hws : ∀ w ∈ ws, Avoids cs w) : Avoids cs (s.intercalate ws) := by
  induction ws with
  | nil => simp [Avoids]
  | cons w ws ih =>
    have first := hws w List.mem_cons_self
    have rest := ih fun v hv => hws v (List.mem_cons_of_mem w hv)
    cases ws with
    | nil => simpa using first
    | cons v ws => simp [first, hs, rest]

theorem avoids_marked (digits : ∀ d < 16, d.digitChar ∉ cs) (mark : 'x' ∉ cs) (width n : Nat) :
    Avoids cs (Hex.marked width n) := by
  intro c hc
  rw [Hex.toList_marked] at hc
  rcases List.mem_cons.1 hc with rfl | hc
  · exact digits 0 (by decide)
  · rcases List.mem_cons.1 hc with rfl | hc
    · exact mark
    · exact Hex.forall_mem_digits (P := (· ∉ cs)) digits width n c hc

theorem avoids_upper (digits : ∀ d < 16, d.digitChar.toUpper ∉ cs) (width n : Nat) :
    Avoids cs (Hex.upper width n) := by
  intro c hc
  rw [Hex.toList_upper] at hc
  obtain ⟨d, hd, rfl⟩ := List.mem_map.1 hc
  exact Hex.forall_mem_digits (P := (·.toUpper ∉ cs)) digits width n d hd

theorem ofDigitChars_toString (n : Nat) : Nat.ofDigitChars 10 (toString n).toList 0 = n := by
  rw [Nat.toString_eq_ofList_toDigits, String.toList_ofList, Nat.ofDigitChars_ten_toDigits]

theorem toString_injective : Function.Injective (toString : Nat → String) := by
  intro n n' same
  rw [← ofDigitChars_toString n, same, ofDigitChars_toString]

theorem avoids_toString (digits : ∀ d < 10, d.digitChar ∉ cs) (n : Nat) :
    Avoids cs (toString n) := by
  rw [Avoids, Nat.toString_eq_ofList_toDigits, String.toList_ofList]
  exact Hex.forall_mem_toDigits (by decide) (P := (· ∉ cs)) digits n

def parts (sep : Char) (text : String) : List String := (text.toList.splitOn sep).map .ofList

theorem parts_intercalate {ws : List String} (whole : ∀ w ∈ ws, Avoids cs w) (hsep : sep ∈ cs)
    (some : ws ≠ []) : parts sep ((String.singleton sep).intercalate ws) = ws := by
  have whole : ∀ part ∈ ws.map String.toList, sep ∉ part := by
    intro part hpart
    obtain ⟨w, hw, rfl⟩ := List.mem_map.1 hpart
    exact (whole w hw).not_mem hsep
  rw [parts, String.toList_intercalate, String.toList_singleton,
    List.splitOn_intercalate sep whole (by simpa using some), List.map_map]
  simp [Function.comp_def]

theorem eq_of_intercalate {s : List Char} {xs ys : List (List Char)}
    (lengths : xs.map List.length = ys.map List.length)
    (same : s.intercalate xs = s.intercalate ys) : xs = ys := by
  induction xs generalizing ys with
  | nil => simpa using lengths
  | cons x xs ih =>
    cases ys with
    | nil => simp at lengths
    | cons y ys =>
      obtain ⟨first, rest⟩ := List.cons.inj lengths
      match xs, ys with
      | [], [] => simpa using same
      | x' :: xs, y' :: ys =>
        rw [List.intercalate_cons_cons, List.intercalate_cons_cons, List.append_assoc,
          List.append_assoc] at same
        obtain ⟨rfl, tails⟩ := List.append_inj same first
        rw [ih rest (List.append_cancel_left tails)]

def lines (text : String) : List String := (parts '\n' text).dropLast

theorem parts_join {ls : List String} (whole : ∀ l ∈ ls, '\n' ∉ l.toList) :
    parts '\n' (String.join (ls.map (· ++ "\n"))) = ls ++ [""] := by
  rw [parts, String.toList_join]
  induction ls with
  | nil => rfl
  | cons l ls ih =>
    have first := whole l List.mem_cons_self
    have rest := ih fun v hv => whole v (List.mem_cons_of_mem l hv)
    have feed : "\n".toList = ['\n'] := rfl
    rw [List.map_cons, List.flatMap_cons, String.toList_append, feed, List.append_assoc,
      List.singleton_append, List.splitOn_append_cons_self_of_not_mem first, List.map_cons, rest,
      String.ofList_toList, List.cons_append]

theorem lines_join {ls : List String} (whole : ∀ l ∈ ls, '\n' ∉ l.toList) :
    lines (String.join (ls.map (· ++ "\n"))) = ls := by
  rw [lines, parts_join whole, List.dropLast_concat]

end Chip8.Text
