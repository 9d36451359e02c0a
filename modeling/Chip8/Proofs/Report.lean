import Chip8.Headless
import Chip8.Proofs.Fault
import Chip8.Proofs.Screen
import Mathlib.Data.Option.Basic

namespace Chip8.Headless

open Text

theorem toList_registerList (registers : Vector UInt8 16) : (registerList registers).toList =
    ['['] ++ [',', ' '].intercalate (registers.toList.map fun v => (Hex.upper 2 v.toNat).toList) ++
      [']'] := by
  simp [registerList, String.toList_intercalate, Function.comp_def]

theorem registerList_injective : Function.Injective registerList := by
  intro r r' same
  have same := congrArg String.toList same
  rw [toList_registerList, toList_registerList] at same
  have same := List.append_cancel_left (List.append_cancel_right same)
  -- each register takes up two characters
  have texts := eq_of_intercalate (by simp [Function.comp_def, Hex.length_upper_byte]) same
  refine Vector.toList_inj.1 (List.map_injective_iff.2 (fun v w same => ?_) texts)
  have values : Hex.value (Hex.upper 2 v.toNat).toList = Hex.value (Hex.upper 2 w.toNat).toList :=
    congrArg Hex.value same
  rw [Hex.value_upper, Hex.value_upper] at values
  exact UInt8.toNat_inj.1 values

theorem avoids_registerList (registers : Vector UInt8 16) :
    Avoids ['=', '\n'] (registerList registers) := by
  rw [registerList, avoids_append, avoids_append]
  refine ⟨⟨by decide, Avoids.intercalate (by decide) fun w hw => ?_⟩, by decide⟩
  obtain ⟨v, -, rfl⟩ := List.mem_map.1 hw
  exact avoids_upper (by decide) 2 v.toNat

def registerParts (m : Machine) : List String :=
  ["PC", Hex.marked 3 m.pc.toNat ++ " I", Hex.marked 3 m.index.toNat ++ " V",
    registerList m.registers ++ " DT", toString m.delay.toNat ++ " ST", toString m.sound.toNat]

theorem registerLine_eq (m : Machine) : registerLine m = "=".intercalate (registerParts m) := by
  apply String.toList_inj.1
  simp [registerLine, registerParts]

theorem avoids_registerParts (m : Machine) : ∀ w ∈ registerParts m, Avoids ['=', '\n'] w := by
  have hex : ∀ width n, Avoids ['=', '\n'] (Hex.marked width n) :=
    avoids_marked (by decide) (by decide)
  have dec : ∀ n : Nat, Avoids ['=', '\n'] (toString n) := avoids_toString (by decide)
  simp only [registerParts, List.forall_mem_cons, avoids_append, avoids_registerList, hex, dec,
    true_and]
  decide

theorem avoids_registerLine (m : Machine) : Avoids ['\n'] (registerLine m) := by
  rw [registerLine_eq]
  refine Avoids.intercalate (by decide) fun w hw => ?_
  exact (avoids_registerParts m w hw).mono (List.subset_cons_self '=' ['\n'])

def faultLines (m : Machine) : List String :=
  (m.lastFault.map fun f => "Last fault: " ++ f.message).toList

theorem report_eq (m : Machine) : report m =
    String.join ((m.screen.lines '#' ' ' ++ registerLine m :: faultLines m).map (· ++ "\n")) := by
  apply String.toList_inj.1
  rw [report, Screen.toText, faultLines]
  cases m.lastFault <;> simp

theorem avoids_reportLines (m : Machine) :
    ∀ l ∈ m.screen.lines '#' ' ' ++ registerLine m :: faultLines m, '\n' ∉ l.toList := by
  intro l hl
  rcases List.mem_append.1 hl with shown | told
  · exact (m.screen.avoids_lines l shown).not_mem (by decide)
  rcases List.mem_cons.1 told with rfl | fault
  · exact (avoids_registerLine m).not_mem (by decide)
  · obtain ⟨f, -, rfl⟩ := Option.map_eq_some_iff.1 (Option.mem_toList.1 fault)
    have whole : Avoids ['\n'] ("Last fault: " ++ f.message) :=
      avoids_append.2 ⟨by decide, f.avoids_message⟩
    exact whole.not_mem (by decide)

theorem lines_report (m : Machine) :
    lines (report m) = m.screen.lines '#' ' ' ++ registerLine m :: faultLines m := by
  rw [report_eq, lines_join (avoids_reportLines m)]

def picture (text : String) : List String := (lines text).take Screen.height

theorem picture_report (m : Machine) : picture (report m) = m.screen.lines '#' ' ' := by
  rw [picture, lines_report]
  exact List.take_left' m.screen.length_lines

theorem registerLine_eq_iff {m m' : Machine} : registerLine m = registerLine m' ↔
    m.pc = m'.pc ∧ m.index = m'.index ∧ m.registers = m'.registers ∧ m.delay = m'.delay ∧
      m.sound = m'.sound := by
  constructor
  · intro same
    have equals : "=" = String.singleton '=' := rfl
    have divided : ∀ m, parts '=' (registerLine m) = registerParts m := fun m => by
      rw [registerLine_eq, equals]
      exact parts_intercalate (avoids_registerParts m) List.mem_cons_self (List.cons_ne_nil _ _)
    have same := congrArg (parts '=') same
    rw [divided, divided] at same
    simp only [registerParts, List.cons.injEq, String.append_left_inj] at same
    obtain ⟨-, pc, index, registers, delay, sound, -⟩ := same
    exact ⟨UInt16.toNat_inj.1 (Hex.marked_injective 3 pc),
      UInt16.toNat_inj.1 (Hex.marked_injective 3 index), registerList_injective registers,
      UInt8.toNat_inj.1 (toString_injective delay), UInt8.toNat_inj.1 (toString_injective sound)⟩
  · rintro ⟨pc, index, registers, delay, sound⟩
    rw [registerLine, pc, index, registers, delay, sound, ← registerLine]

theorem faultLines_eq_iff {m m' : Machine} :
    faultLines m = faultLines m' ↔ m.lastFault = m'.lastFault := by
  have told : Function.Injective fun f : Fault => "Last fault: " ++ f.message :=
    fun f g same => Fault.message_injective ((String.append_right_inj _).1 same)
  have one : Function.Injective (Option.toList (α := String)) := fun o o' same => by
    simpa using congrArg List.head? same
  rw [faultLines, faultLines, one.eq_iff, (Option.map_injective told).eq_iff]

/-- Two reports are the same only if all that they show is. Their picture has a mark for each cell
that is on. -/
theorem reports_are_unambiguous :
    (∀ m m' : Machine, report m = report m' ↔
      m.screen = m'.screen ∧ m.pc = m'.pc ∧ m.index = m'.index ∧ m.registers = m'.registers ∧
        m.delay = m'.delay ∧ m.sound = m'.sound ∧ m.lastFault = m'.lastFault) ∧
    ∀ m : Machine,
      (picture (report m)).map String.length = List.replicate 32 64 ∧
      (∀ x y, (picture (report m))[y]?.bind (·.toList[x]?) = some '#' ↔ m.screen.get x y = true) ∧
      ((picture (report m)).flatMap String.toList).count '#' = m.screen.lit := by
  refine ⟨fun m m' => ?_, fun m => ?_⟩
  · have divided : report m = report m' ↔ m.screen.lines '#' ' ' = m'.screen.lines '#' ' ' ∧
        registerLine m = registerLine m' ∧ faultLines m = faultLines m' := by
      have heights := m.screen.length_lines.trans m'.screen.length_lines.symm
      rw [← List.cons_eq_cons, ← List.append_eq_append_iff_of_size_eq_left heights]
      exact ⟨fun same => by rw [← lines_report, same, lines_report],
        fun same => by rw [report_eq, same, ← report_eq]⟩
    have pictures : m.screen.lines '#' ' ' = m'.screen.lines '#' ' ' ↔ m.screen = m'.screen :=
      ⟨Screen.lines_injective, fun same => by rw [same]⟩
    rw [divided, pictures, registerLine_eq_iff, faultLines_eq_iff]
    simp only [and_assoc]
  · rw [picture_report]
    refine ⟨m.screen.lengths_lines, fun x y => ?_, m.screen.count_lines⟩
    rw [Screen.char_lines]
    by_cases on : x < 64 ∧ y < 32
    · rw [if_pos on, Option.some_inj]
      exact Screen.mark_injective.eq_iff' rfl
    · simp [on, m.screen.get_of_not_lt on]

end Chip8.Headless
