import Chip8.Keypad
import Mathlib.Data.List.Induction

namespace Chip8

namespace Keypad

@[simp] theorem isHeld_released (key : UInt8) : released.isHeld key = false := by
  simp only [isHeld, released, Vector.getElem?_replicate]
  split <;> rfl

theorem isHeld_set (k : Keypad) (written key : UInt8) (held : Bool) :
    (k.write (.set written held)).isHeld key =
      if written = key ∧ key.toNat < 16 then held else k.isHeld key := by
  simp only [isHeld, write, Vector.getElem?_setIfInBounds, UInt8.toNat_inj]
  by_cases hw : written = key
  · subst hw
    by_cases hlt : written.toNat < 16 <;> simp [hlt]
  · simp [hw]

theorem isHeld_of_le (k : Keypad) {key : UInt8} (h : 16 ≤ key.toNat) : k.isHeld key = false := by
  simp [isHeld, Vector.getElem?_eq_none h]

theorem first?_eq_none_iff {k : Keypad} : k.first? = none ↔ k = released := by
  rw [first?, List.find?_eq_none]
  constructor
  · intro none
    have off : k.held = Vector.replicate 16 false := by
      ext n hn
      have out := none (UInt8.ofNat n) (List.mem_map.2 ⟨n, List.mem_range.2 hn, rfl⟩)
      have here : (UInt8.ofNat n).toNat = n := by
        rw [UInt8.toNat_ofNat']
        omega
      simpa [isHeld, here, hn] using out
    obtain ⟨held⟩ := k
    exact congrArg Keypad.mk off
  · rintro rfl key -
    simp

theorem exists_first? {k : Keypad} {key : UInt8} (held : k.isHeld key = true) :
    ∃ first, k.first? = some first := by
  rw [← Option.ne_none_iff_exists', Ne, first?_eq_none_iff]
  rintro rfl
  simp at held

theorem eq_released (k : Keypad) (unheld : ∀ key, k.isHeld key = false) : k = released :=
  first?_eq_none_iff.1 (List.find?_eq_none.2 fun key _ => Bool.eq_false_iff.1 (unheld key))

theorem lt_of_isHeld {k : Keypad} {key : UInt8} (held : k.isHeld key = true) : key.toNat < 16 := by
  by_contra beyond
  rw [k.isHeld_of_le (by omega)] at held
  cases held

theorem first?_eq_some_iff {k : Keypad} {key : UInt8} :
    k.first? = some key ↔ k.isHeld key = true ∧ ∀ other < key, k.isHeld other = false := by
  rw [first?, List.find?_map, Option.map_eq_some_iff]
  simp only [List.find?_range_eq_some]
  constructor
  · rintro ⟨a, ⟨held, small, first⟩, rfl⟩
    have small : a < 16 := List.mem_range.1 small
    have here : (UInt8.ofNat a).toNat = a := UInt8.toNat_ofNat_of_lt (Nat.lt_trans small (by decide))
    refine ⟨held, fun other less => ?_⟩
    have less : other.toNat < a := here ▸ less
    simpa using first other.toNat less
  · rintro ⟨held, first⟩
    have small : key.toNat < 16 := lt_of_isHeld held
    refine ⟨key.toNat, ⟨?_, List.mem_range.2 small, fun j less => ?_⟩, UInt8.ofNat_toNat⟩
    · simpa using held
    · have here : (UInt8.ofNat j).toNat = j := UInt8.toNat_ofNat_of_lt (Nat.lt_trans less key.toNat_lt)
      have less : UInt8.ofNat j < key := by rwa [UInt8.lt_iff_toNat_lt, here]
      simpa using first _ less

def Write.reaches (key : UInt8) : Write → Bool
  | .set written _ => written = key
  | .releaseAll => true

def after (ws : List Write) : Keypad := ws.foldl write released

def lastWrite? (ws : List Write) (key : UInt8) : Option Write := (ws.filter (·.reaches key)).getLast?

def PressedLast (ws : List Write) (key : UInt8) : Prop :=
  key ≤ 15 ∧ lastWrite? ws key = some (.press key)

instance (ws : List Write) (key : UInt8) : Decidable (PressedLast ws key) :=
  inferInstanceAs (Decidable (_ ∧ _))

theorem lastWrite?_concat (ws : List Write) (w : Write) (key : UInt8) :
    lastWrite? (ws ++ [w]) key = if w.reaches key then some w else lastWrite? ws key := by
  by_cases h : w.reaches key <;> simp [lastWrite?, List.filter_append, h]

theorem isHeld_after (ws : List Write) (key : UInt8) :
    (after ws).isHeld key = true ↔ PressedLast ws key := by
  induction ws using List.reverseRecOn with
  | nil => simp [after, PressedLast, lastWrite?]
  | append_singleton ws w ih =>
    have last : after (ws ++ [w]) = (after ws).write w := List.foldl_append ..
    rw [last, PressedLast, lastWrite?_concat]
    cases w with
    | releaseAll => simp [write, Write.reaches, Write.press]
    | set written held =>
      rw [isHeld_set]
      by_cases here : written = key
      · subst here
        by_cases range : written.toNat < 16
        · simp [range, show written ≤ 15 from Nat.le_of_lt_succ range, Write.reaches, Write.press]
        · have beyond : ¬ written ≤ 15 := fun small => range (Nat.lt_succ_of_le small)
          simp [range, beyond, (after ws).isHeld_of_le (Nat.le_of_not_lt range)]
      · simp [here, Write.reaches, ih, PressedLast]

theorem first?_after {ws : List Write} {key : UInt8} :
    (after ws).first? = some key ↔ PressedLast ws key ∧ ∀ other < key, ¬ PressedLast ws other := by
  simp only [first?_eq_some_iff, ← isHeld_after, Bool.not_eq_true]

/-- How a keypad is looked at: directly, or through a handle on something else that looks at it. -/
inductive View : Type
  | direct : View
  | shared : View → View
  | borrowed : View → View
  deriving DecidableEq, Repr

namespace View

def isHeld : View → Keypad → UInt8 → Bool
  | .direct, k => k.isHeld
  | .shared v, k => v.isHeld k
  | .borrowed v, k => v.isHeld k

def seen (v : View) (k : Keypad) : Keypad := ⟨Vector.ofFn fun i => v.isHeld k (UInt8.ofNat i)⟩

theorem isHeld_eq (v : View) (k : Keypad) : v.isHeld k = k.isHeld := by
  induction v with
  | direct => rfl
  | shared v ih => exact ih
  | borrowed v ih => exact ih

theorem seen_eq (v : View) (k : Keypad) : v.seen k = k := by
  obtain ⟨held⟩ := k
  rw [seen, isHeld_eq]
  congr 1
  ext n hn
  have small : n % 256 = n := Nat.mod_eq_of_lt (Nat.lt_trans hn (by decide))
  simp [Keypad.isHeld, small, hn]

end View

end Keypad

end Chip8
