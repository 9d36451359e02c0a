import Chip8.Instruction.Mnemonic
import Chip8.Proofs.Instruction.Patterns
import Chip8.Proofs.Text

namespace Chip8

inductive Operand : Type
  | register : (x : UInt8) → Operand
  | address : (nnn : UInt16) → Operand
  | const : (nn : UInt8) → Operand
  | rows : (n : UInt8) → Operand
  | name : (text : String) → Operand
  deriving DecidableEq, Repr

/-- Of hexadecimal numbers, those with two digits are constants. Decimal ones count rows. -/
def Operand.read (text : String) : Operand :=
  match text.toList with
  | 'V' :: ds => .register (.ofNat (Hex.value ds))
  | '0' :: 'x' :: ds =>
    if ds.length = 2 then .const (.ofNat (Hex.value ds)) else .address (.ofNat (Hex.value ds))
  | ds => if ds.all Char.isDigit then .rows (.ofNat (Nat.ofDigitChars 10 ds 0)) else .name text

def Arith.ofMnemonic? : String → Option Arith
  | "LD" => some .copy
  | "OR" => some .or
  | "AND" => some .and
  | "XOR" => some .xor
  | "ADD" => some .add
  | "SUB" => some .sub
  | "SHR" => some .shiftRight
  | "SUBN" => some .subFrom
  | "SHL" => some .shiftLeft
  | _ => none

namespace Instruction

def ofParts? : String → List Operand → Option Instruction
  | "CLS", [] => some .clearScreen
  | "RET", [] => some .ret
  | "JP", [.address nnn] => some (.jump nnn)
  | "CALL", [.address nnn] => some (.call nnn)
  | "SE", [.register x, .const nn] => some (.skip (.equalsConst x nn))
  | "SNE", [.register x, .const nn] => some (.skip (.differsConst x nn))
  | "SE", [.register x, .register y] => some (.skip (.equalsRegister x y))
  | "SNE", [.register x, .register y] => some (.skip (.differsRegister x y))
  | "SKP", [.register x] => some (.skip (.keyHeld x))
  | "SKNP", [.register x] => some (.skip (.keyReleased x))
  | "LD", [.register x, .const nn] => some (.setConst x nn)
  | "ADD", [.register x, .const nn] => some (.addConst x nn)
  | "LD", [.name "I", .address nnn] => some (.setIndex nnn)
  | "JP", [.register x, .address nnn] => some (.jumpOffset x nnn)
  | "RND", [.register x, .const nn] => some (.random x nn)
  | "DRW", [.register x, .register y, .rows n] => some (.draw x y n)
  | "LD", [.register x, .name "DT"] => some (.readDelay x)
  | "LD", [.register x, .name "K"] => some (.waitKey x)
  | "LD", [.name "DT", .register x] => some (.setDelay x)
  | "LD", [.name "ST", .register x] => some (.setSound x)
  | "ADD", [.name "I", .register x] => some (.addIndex x)
  | "LD", [.name "F", .register x] => some (.pointGlyph x)
  | "LD", [.name "B", .register x] => some (.storeDecimal x)
  | "LD", [.name "[I]", .register x] => some (.storeRegisters x)
  | "LD", [.register x, .name "[I]"] => some (.loadRegisters x)
  | operation, [.register x, .register y] => (Arith.ofMnemonic? operation).map (.arith · x y)
  | _, _ => none

def fields (text : String) : List String :=
  ((text.toList.filter (· ≠ ',')).splitOn ' ').map .ofList

def ofMnemonic? (text : String) : Option Instruction :=
  match fields text with
  | [] => none
  | operation :: operands => ofParts? operation (operands.map .read)

end Instruction

def Undivided (text : String) : Prop := ∀ c ∈ text.toList, c ≠ ' ' ∧ c ≠ ','

-- not left to be found: there are finitely many characters, but too many to be tried
instance : DecidablePred Undivided := fun text => List.decidableBAll _ text.toList

theorem Undivided.filter {text : String} (h : Undivided text) :
    text.toList.filter (· ≠ ',') = text.toList :=
  List.filter_eq_self.2 fun c hc => by simpa using (h c hc).2

theorem undivided_iff {text : String} : Undivided text ↔ Text.Avoids [' ', ','] text := by
  simp [Undivided, Text.Avoids]

theorem undivided_marked (width n : Nat) : Undivided (Hex.marked width n) :=
  undivided_iff.2 (Text.avoids_marked (by decide) (by decide) width n)

theorem toList_registerName (x : UInt8) :
    (registerName x).toList = 'V' :: (Hex.digits 1 x.toNat).map Char.toUpper := by
  rw [registerName, String.toList_append]
  exact congrArg (['V'] ++ ·) (Hex.toList_upper 1 x.toNat)

theorem undivided_registerName (x : UInt8) : Undivided (registerName x) := by
  rw [undivided_iff, registerName, Text.avoids_append]
  exact ⟨by decide, Text.avoids_upper (by decide) 1 x.toNat⟩

theorem undivided_toString (n : Nat) : Undivided (toString n) :=
  undivided_iff.2 (Text.avoids_toString (by decide) n)

theorem isDigit_of_mem_toString {n : Nat} {c : Char} (h : c ∈ (toString n).toList) : c.isDigit := by
  rw [Nat.toString_eq_ofList_toDigits, String.toList_ofList] at h
  exact Nat.isDigit_of_mem_toDigits (by decide) (by decide) h

namespace Operand

theorem read_registerName (x : UInt8) : read (registerName x) = .register x := by
  rw [read, toList_registerName]
  change register (.ofNat (Hex.value _)) = register x
  rw [Hex.value_map_toUpper_digits, UInt8.ofNat_toNat]

theorem read_marked (width n : Nat) : read (Hex.marked width n) =
    if (Hex.digits width n).length = 2 then .const (.ofNat n) else .address (.ofNat n) := by
  have value := Hex.value_digits width n
  rw [read, Hex.toList_marked]
  change (if _ then const (.ofNat (Hex.value (Hex.digits width n)))
    else address (.ofNat (Hex.value (Hex.digits width n)))) = _
  rw [value]

theorem read_address (nnn : UInt16) : read (Instruction.address nnn) = .address nnn := by
  have long : (Hex.digits 3 nnn.toNat).length ≠ 2 := by
    rw [Hex.length_digits]
    omega
  rw [Instruction.address, read_marked, if_neg long, UInt16.ofNat_toNat]

theorem read_const (nn : UInt8) : read (Instruction.const nn) = .const nn := by
  rw [Instruction.const, read_marked, if_pos (Hex.length_digits_byte nn), UInt8.ofNat_toNat]

theorem read_toString (n : UInt8) : read (toString n.toNat) = .rows n := by
  have digits := fun c => isDigit_of_mem_toString (n := n.toNat) (c := c)
  unfold read
  split
  · next text =>
    rw [text] at digits
    cases digits 'V' (by simp)
  · next text =>
    rw [text] at digits
    cases digits 'x' (by simp)
  · rw [if_pos (List.all_eq_true.2 digits), Text.ofDigitChars_toString, UInt8.ofNat_toNat]

def Tells (text : String) (o : Operand) : Prop := Undivided text ∧ read text = o

theorem tells_registerName (x : UInt8) : Tells (registerName x) (.register x) :=
  ⟨undivided_registerName x, read_registerName x⟩

theorem tells_address (nnn : UInt16) : Tells (Instruction.address nnn) (.address nnn) :=
  ⟨undivided_marked 3 nnn.toNat, read_address nnn⟩

theorem tells_const (nn : UInt8) : Tells (Instruction.const nn) (.const nn) :=
  ⟨undivided_marked 2 nn.toNat, read_const nn⟩

theorem tells_toString (n : UInt8) : Tells (toString n.toNat) (.rows n) :=
  ⟨undivided_toString n.toNat, read_toString n⟩

end Operand

namespace Instruction

theorem filter_intercalate {operands : List String} (h : ∀ s ∈ operands, Undivided s) :
    ([',', ' '].intercalate (operands.map String.toList)).filter (· ≠ ',') =
      [' '].intercalate (operands.map String.toList) := by
  induction operands with
  | nil => rfl
  | cons s operands ih =>
    have first := (h s (by simp)).filter
    have rest := ih fun t ht => h t (by simp [ht])
    cases operands with
    | nil => simpa using first
    | cons t operands =>
      rw [List.map_cons, List.map_cons, List.intercalate_cons_cons, List.intercalate_cons_cons,
        List.filter_append, List.filter_append, first, ← List.map_cons, rest]
      rfl

theorem fields_assembly {operation s : String} {operands : List String}
    (h : ∀ t ∈ operation :: s :: operands, Undivided t) :
    fields (assembly operation (s :: operands)) = operation :: s :: operands := by
  have commas := filter_intercalate fun t ht => h t (List.mem_cons_of_mem _ ht)
  have text : (assembly operation (s :: operands)).toList.filter (· ≠ ',') =
      [' '].intercalate ((operation :: s :: operands).map String.toList) := by
    have separator : ", ".toList = [',', ' '] := rfl
    have blank : " ".toList = [' '] := rfl
    rw [List.map_cons, List.intercalate_cons_of_ne_nil (by simp), assembly, String.toList_append,
      String.toList_append, String.toList_intercalate, separator, blank, List.filter_append,
      List.filter_append, commas, (h operation (by simp)).filter]
    rfl
  have whole : ∀ cs ∈ (operation :: s :: operands).map String.toList, ' ' ∉ cs := by
    intro cs hc blank
    obtain ⟨t, ht, rfl⟩ := List.mem_map.1 hc
    exact (h t ht ' ' blank).1 rfl
  rw [fields, text, List.splitOn_intercalate ' ' whole (by simp), List.map_map]
  simp [Function.comp_def]

theorem ofMnemonic?_assembly {operation s : String} {operands : List String} {parts : List Operand}
    {i : Instruction} (plain : Undivided operation)
    (tells : List.Forall₂ Operand.Tells (s :: operands) parts) (made : ofParts? operation parts = some i) :
    ofMnemonic? (assembly operation (s :: operands)) = some i := by
  obtain ⟨undivided, read⟩ := (List.forall₂_and_left _ _).1 tells
  have read : (s :: operands).map .read = parts := by
    rw [← List.forall₂_eq_eq_eq, List.forall₂_map_left_iff]
    exact read
  rw [ofMnemonic?, fields_assembly (List.forall_mem_cons.2 ⟨plain, undivided⟩), ← made, ← read]

section Mnemonics

open Operand

theorem ofMnemonic?_skip (c : Condition) : ofMnemonic? (skip c).mnemonic = some (skip c) := by
  cases c with
  | equalsConst x nn | differsConst x nn =>
    exact ofMnemonic?_assembly (by decide)
      (.cons (tells_registerName x) (.cons (tells_const nn) .nil)) rfl
  | equalsRegister x y | differsRegister x y =>
    exact ofMnemonic?_assembly (by decide)
      (.cons (tells_registerName x) (.cons (tells_registerName y) .nil)) rfl
  | keyHeld x | keyReleased x =>
    exact ofMnemonic?_assembly (by decide) (.cons (tells_registerName x) .nil) rfl

theorem ofMnemonic?_arith (op : Arith) (x y : UInt8) :
    ofMnemonic? (arith op x y).mnemonic = some (arith op x y) := by
  cases op
  all_goals
    exact ofMnemonic?_assembly (by decide)
      (.cons (tells_registerName x) (.cons (tells_registerName y) .nil)) rfl

theorem ofMnemonic?_mnemonic (i : Instruction) : ofMnemonic? i.mnemonic = some i := by
  cases i with
  | clearScreen | ret => rfl
  | jump nnn | call nnn =>
    exact ofMnemonic?_assembly (by decide) (.cons (tells_address nnn) .nil) rfl
  | skip c => exact ofMnemonic?_skip c
  | setConst x nn | addConst x nn | random x nn =>
    exact ofMnemonic?_assembly (by decide)
      (.cons (tells_registerName x) (.cons (tells_const nn) .nil)) rfl
  | arith op x y => exact ofMnemonic?_arith op x y
  | setIndex nnn =>
    exact ofMnemonic?_assembly (by decide)
      (.cons ⟨by decide, rfl⟩ (.cons (tells_address nnn) .nil)) rfl
  | jumpOffset x nnn =>
    exact ofMnemonic?_assembly (by decide)
      (.cons (tells_registerName x) (.cons (tells_address nnn) .nil)) rfl
  | draw x y n =>
    exact ofMnemonic?_assembly (by decide) (.cons (tells_registerName x)
      (.cons (tells_registerName y) (.cons (tells_toString n) .nil))) rfl
  | readDelay x | waitKey x | loadRegisters x =>
    exact ofMnemonic?_assembly (by decide)
      (.cons (tells_registerName x) (.cons ⟨by decide, rfl⟩ .nil)) rfl
  | setDelay x | setSound x | addIndex x | pointGlyph x | storeDecimal x | storeRegisters x =>
    exact ofMnemonic?_assembly (by decide)
      (.cons ⟨by decide, rfl⟩ (.cons (tells_registerName x) .nil)) rfl

end Mnemonics

theorem mnemonic_injective : Function.Injective mnemonic := by
  intro i j same
  have assembled := ofMnemonic?_mnemonic i
  rw [same, ofMnemonic?_mnemonic] at assembled
  exact (Option.some.inj assembled).symm

/-- No two instructions have the same mnemonic, whatever their operands are, and no two words are
decoded to instructions with the same mnemonic. -/
theorem mnemonics_are_unambiguous :
    (∀ i j : Instruction, i.mnemonic = j.mnemonic → i = j) ∧
    (∀ w w' i j, decode w = some i → decode w' = some j → w ≠ w' → i.mnemonic ≠ j.mnemonic) := by
  refine ⟨fun i j same => mnemonic_injective same, ?_⟩
  intro w w' i j decoded decoded' differ same
  apply differ
  rw [← encode_of_decode decoded, ← encode_of_decode decoded', mnemonic_injective same]

theorem mnemonics_are_unambiguous_load :
    (setConst 0x1A 0x05).mnemonic ≠ (arith .copy 0x1A 0x05).mnemonic ∧
    decode 0x6A05 = some (setConst 0xA 0x05) ∧ decode 0x8A50 = some (arith .copy 0xA 0x5) ∧
    (setConst 0xA 0x05).mnemonic ≠ (arith .copy 0xA 0x5).mnemonic := by
  obtain ⟨instructions, words⟩ := mnemonics_are_unambiguous
  have decoded : decode 0x6A05 = some (setConst 0xA 0x05) := rfl
  have decoded' : decode 0x8A50 = some (arith .copy 0xA 0x5) := rfl
  refine ⟨fun same => ?_, decoded, decoded', words _ _ _ _ decoded decoded' (by decide)⟩
  cases instructions _ _ same

end Instruction

end Chip8
