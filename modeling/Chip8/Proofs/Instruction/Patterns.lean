import Chip8.Instruction.Code
import Mathlib.Tactic.FinCases
/-!
# Patterns of instructions

An instruction is documented by a pattern such as `8XY4`: the digits of its word, with letters for
the digits of its operands. A word is decoded if and only if it matches one of the patterns, it never
matches two, and what it is decoded to says all there is in the word.
-/

namespace Chip8

inductive Place : Type
  | digit : UInt8 → Place
  | x : Place
  | y : Place
  | n : Place
  deriving DecidableEq, Repr

structure Operands where
  x : Nat := 0
  y : Nat := 0
  n : Nat := 0

def Place.fill (o : Operands) (unit : Nat) : Place → Nat
  | .digit d => d.toNat
  | .x => o.x
  | .y => o.y
  | .n => o.n / unit % 16

def Place.Matches (d : UInt8) : Place → Prop
  | .digit e => d = e
  | _ => True

structure Pattern where
  first : Place
  second : Place
  third : Place
  fourth : Place
  deriving DecidableEq, Repr

namespace Pattern

def fill (p : Pattern) (o : Operands) : Nat :=
  4096 * p.first.fill o 4096 + 256 * p.second.fill o 256 + 16 * p.third.fill o 16
    + p.fourth.fill o 1

section Fill

variable (d : UInt8) {o : Operands}

theorem fill_nnn (h : o.n < 4096) : fill ⟨.digit d, .n, .n, .n⟩ o = 4096 * d.toNat + o.n := by
  simp only [fill, Place.fill]
  omega

theorem fill_xnn (h : o.n < 256) :
    fill ⟨.digit d, .x, .n, .n⟩ o = 4096 * d.toNat + 256 * o.x + o.n := by
  simp only [fill, Place.fill]
  omega

theorem fill_xyn (h : o.n < 16) :
    fill ⟨.digit d, .x, .y, .n⟩ o = 4096 * d.toNat + 256 * o.x + 16 * o.y + o.n := by
  simp only [fill, Place.fill]
  omega

end Fill

structure Matches (p : Pattern) (w : Word) : Prop where
  first : p.first.Matches w.k
  second : p.second.Matches w.x
  third : p.third.Matches w.y
  fourth : p.fourth.Matches w.n

def documented : List Pattern := [
  ⟨.digit 0, .digit 0, .digit 0xE, .digit 0⟩, ⟨.digit 0, .digit 0, .digit 0xE, .digit 0xE⟩,
  ⟨.digit 1, .n, .n, .n⟩, ⟨.digit 2, .n, .n, .n⟩,
  ⟨.digit 3, .x, .n, .n⟩, ⟨.digit 4, .x, .n, .n⟩, ⟨.digit 5, .x, .y, .digit 0⟩,
  ⟨.digit 6, .x, .n, .n⟩, ⟨.digit 7, .x, .n, .n⟩,
  ⟨.digit 8, .x, .y, .digit 0⟩, ⟨.digit 8, .x, .y, .digit 1⟩, ⟨.digit 8, .x, .y, .digit 2⟩,
  ⟨.digit 8, .x, .y, .digit 3⟩, ⟨.digit 8, .x, .y, .digit 4⟩, ⟨.digit 8, .x, .y, .digit 5⟩,
  ⟨.digit 8, .x, .y, .digit 6⟩, ⟨.digit 8, .x, .y, .digit 7⟩, ⟨.digit 8, .x, .y, .digit 0xE⟩,
  ⟨.digit 9, .x, .y, .digit 0⟩,
  ⟨.digit 0xA, .n, .n, .n⟩, ⟨.digit 0xB, .n, .n, .n⟩,
  ⟨.digit 0xC, .x, .n, .n⟩, ⟨.digit 0xD, .x, .y, .n⟩,
  ⟨.digit 0xE, .x, .digit 9, .digit 0xE⟩, ⟨.digit 0xE, .x, .digit 0xA, .digit 1⟩,
  ⟨.digit 0xF, .x, .digit 0, .digit 7⟩, ⟨.digit 0xF, .x, .digit 0, .digit 0xA⟩,
  ⟨.digit 0xF, .x, .digit 1, .digit 5⟩, ⟨.digit 0xF, .x, .digit 1, .digit 8⟩,
  ⟨.digit 0xF, .x, .digit 1, .digit 0xE⟩, ⟨.digit 0xF, .x, .digit 2, .digit 9⟩,
  ⟨.digit 0xF, .x, .digit 3, .digit 3⟩, ⟨.digit 0xF, .x, .digit 5, .digit 5⟩,
  ⟨.digit 0xF, .x, .digit 6, .digit 5⟩]

end Pattern

def Arith.pattern : Arith → Pattern
  | .copy => ⟨.digit 8, .x, .y, .digit 0⟩
  | .or => ⟨.digit 8, .x, .y, .digit 1⟩
  | .and => ⟨.digit 8, .x, .y, .digit 2⟩
  | .xor => ⟨.digit 8, .x, .y, .digit 3⟩
  | .add => ⟨.digit 8, .x, .y, .digit 4⟩
  | .sub => ⟨.digit 8, .x, .y, .digit 5⟩
  | .shiftRight => ⟨.digit 8, .x, .y, .digit 6⟩
  | .subFrom => ⟨.digit 8, .x, .y, .digit 7⟩
  | .shiftLeft => ⟨.digit 8, .x, .y, .digit 0xE⟩

def Condition.pattern : Condition → Pattern
  | .equalsConst _ _ => ⟨.digit 3, .x, .n, .n⟩
  | .differsConst _ _ => ⟨.digit 4, .x, .n, .n⟩
  | .equalsRegister _ _ => ⟨.digit 5, .x, .y, .digit 0⟩
  | .differsRegister _ _ => ⟨.digit 9, .x, .y, .digit 0⟩
  | .keyHeld _ => ⟨.digit 0xE, .x, .digit 9, .digit 0xE⟩
  | .keyReleased _ => ⟨.digit 0xE, .x, .digit 0xA, .digit 1⟩

def Condition.operands : Condition → Operands
  | .equalsConst x nn => { x := x.toNat, n := nn.toNat }
  | .differsConst x nn => { x := x.toNat, n := nn.toNat }
  | .equalsRegister x y => { x := x.toNat, y := y.toNat }
  | .differsRegister x y => { x := x.toNat, y := y.toNat }
  | .keyHeld x => { x := x.toNat }
  | .keyReleased x => { x := x.toNat }

namespace Word

variable (w : Word)

theorem y_eq : w.y = w.nn / 16 := by
  rw [← UInt8.toNat_inj, UInt8.toNat_div, toNat_y, toNat_nn]
  change w.toNat / 16 % 16 = w.toNat % 256 / 16
  omega

theorem n_eq : w.n = w.nn % 16 := by
  rw [← UInt8.toNat_inj, UInt8.toNat_mod, toNat_n, toNat_nn]
  change w.toNat % 16 = w.toNat % 256 % 16
  omega

theorem nn_eq : w.nn = 16 * w.y + w.n := by
  rw [← UInt8.toNat_inj, UInt8.toNat_add, UInt8.toNat_mul, toNat_nn, toNat_y, toNat_n]
  change w.toNat % 256 = (16 * (w.toNat / 16 % 16) % 256 + w.toNat % 16) % 256
  omega

theorem x_eq : w.x = (w.nnn / 256).toUInt8 := by
  rw [← UInt8.toNat_inj, UInt16.toNat_toUInt8, UInt16.toNat_div, toNat_x, toNat_nnn]
  change w.toNat / 256 % 16 = w.toNat % 4096 / 256 % 256
  omega

theorem nn_eq_nnn : w.nn = w.nnn.toUInt8 := by
  rw [← UInt8.toNat_inj, UInt16.toNat_toUInt8, toNat_nn, toNat_nnn]
  omega

theorem nnn_eq : w.nnn = 256 * w.x.toUInt16 + w.nn.toUInt16 := by
  rw [← UInt16.toNat_inj, UInt16.toNat_add, UInt16.toNat_mul, UInt8.toNat_toUInt16,
    UInt8.toNat_toUInt16, toNat_nnn, toNat_x, toNat_nn]
  change w.toNat % 4096 = (256 * (w.toNat / 256 % 16) % 65536 + w.toNat % 256) % 65536
  omega

end Word

namespace Instruction

def pattern : Instruction → Pattern
  | .clearScreen => ⟨.digit 0, .digit 0, .digit 0xE, .digit 0⟩
  | .ret => ⟨.digit 0, .digit 0, .digit 0xE, .digit 0xE⟩
  | .jump _ => ⟨.digit 1, .n, .n, .n⟩
  | .call _ => ⟨.digit 2, .n, .n, .n⟩
  | .skip c => c.pattern
  | .setConst _ _ => ⟨.digit 6, .x, .n, .n⟩
  | .addConst _ _ => ⟨.digit 7, .x, .n, .n⟩
  | .arith op _ _ => op.pattern
  | .setIndex _ => ⟨.digit 0xA, .n, .n, .n⟩
  | .jumpOffset _ _ => ⟨.digit 0xB, .n, .n, .n⟩
  | .random _ _ => ⟨.digit 0xC, .x, .n, .n⟩
  | .draw _ _ _ => ⟨.digit 0xD, .x, .y, .n⟩
  | .readDelay _ => ⟨.digit 0xF, .x, .digit 0, .digit 7⟩
  | .waitKey _ => ⟨.digit 0xF, .x, .digit 0, .digit 0xA⟩
  | .setDelay _ => ⟨.digit 0xF, .x, .digit 1, .digit 5⟩
  | .setSound _ => ⟨.digit 0xF, .x, .digit 1, .digit 8⟩
  | .addIndex _ => ⟨.digit 0xF, .x, .digit 1, .digit 0xE⟩
  | .pointGlyph _ => ⟨.digit 0xF, .x, .digit 2, .digit 9⟩
  | .storeDecimal _ => ⟨.digit 0xF, .x, .digit 3, .digit 3⟩
  | .storeRegisters _ => ⟨.digit 0xF, .x, .digit 5, .digit 5⟩
  | .loadRegisters _ => ⟨.digit 0xF, .x, .digit 6, .digit 5⟩

def operands : Instruction → Operands
  | .clearScreen => {}
  | .ret => {}
  | .jump nnn => { n := nnn.toNat }
  | .call nnn => { n := nnn.toNat }
  | .skip c => c.operands
  | .setConst x nn => { x := x.toNat, n := nn.toNat }
  | .addConst x nn => { x := x.toNat, n := nn.toNat }
  | .arith _ x y => { x := x.toNat, y := y.toNat }
  | .setIndex nnn => { n := nnn.toNat }
  | .jumpOffset x nnn => { x := x.toNat, n := nnn.toNat }
  | .random x nn => { x := x.toNat, n := nn.toNat }
  | .draw x y n => { x := x.toNat, y := y.toNat, n := n.toNat }
  | .readDelay x => { x := x.toNat }
  | .waitKey x => { x := x.toNat }
  | .setDelay x => { x := x.toNat }
  | .setSound x => { x := x.toNat }
  | .addIndex x => { x := x.toNat }
  | .pointGlyph x => { x := x.toNat }
  | .storeDecimal x => { x := x.toNat }
  | .storeRegisters x => { x := x.toNat }
  | .loadRegisters x => { x := x.toNat }

def spelling (i : Instruction) : Word := UInt16.ofNat (i.pattern.fill i.operands)

section Words

variable {k x y n nn : UInt8} {nnn : UInt16}

theorem parts_wordAddress (hk : k < 16) (h : nnn < 0x1000) :
    (wordAddress k nnn).k = k ∧ (wordAddress k nnn).nnn = nnn := by
  have hk : k.toNat < 16 := hk
  have h : nnn.toNat < 4096 := h
  rw [← UInt8.toNat_inj, ← UInt16.toNat_inj, Word.toNat_k, Word.toNat_nnn, wordAddress,
    UInt16.toNat_ofNat']
  omega

theorem parts_wordConst (hk : k < 16) (hx : x < 16) :
    (wordConst k x nn).k = k ∧ (wordConst k x nn).x = x ∧ (wordConst k x nn).nn = nn := by
  have hk : k.toNat < 16 := hk
  have hx : x.toNat < 16 := hx
  have hn := nn.toNat_lt
  simp only [← UInt8.toNat_inj, Word.toNat_k, Word.toNat_x, Word.toNat_nn, wordConst,
    UInt16.toNat_ofNat']
  omega

theorem parts_wordDigits (hk : k < 16) (hx : x < 16) (hy : y < 16) (hn : n < 16) :
    (wordDigits k x y n).k = k ∧ (wordDigits k x y n).x = x ∧ (wordDigits k x y n).y = y ∧
      (wordDigits k x y n).n = n := by
  have hk : k.toNat < 16 := hk
  have hx : x.toNat < 16 := hx
  have hy : y.toNat < 16 := hy
  have hn : n.toNat < 16 := hn
  simp only [← UInt8.toNat_inj, Word.toNat_k, Word.toNat_x, Word.toNat_y, Word.toNat_n, wordDigits,
    UInt16.toNat_ofNat']
  omega

theorem wordAddress_parts (w : Word) : wordAddress w.k w.nnn = w := by
  have := w.toNat_lt
  rw [← UInt16.toNat_inj, wordAddress, Word.toNat_k, Word.toNat_nnn, UInt16.toNat_ofNat']
  omega

theorem wordConst_parts (w : Word) : wordConst w.k w.x w.nn = w := by
  have := w.toNat_lt
  rw [← UInt16.toNat_inj, wordConst, Word.toNat_k, Word.toNat_x, Word.toNat_nn, UInt16.toNat_ofNat']
  omega

theorem wordDigits_parts (w : Word) : wordDigits w.k w.x w.y w.n = w := by
  have := w.toNat_lt
  rw [← UInt16.toNat_inj, wordDigits, Word.toNat_k, Word.toNat_x, Word.toNat_y, Word.toNat_n,
    UInt16.toNat_ofNat']
  omega

end Words

theorem ofDigit?_digit (op : Arith) : Arith.ofDigit? op.digit = some op := by
  cases op <;> rfl

theorem digit_of_ofDigit? {n : UInt8} {op : Arith} (h : Arith.ofDigit? n = some op) :
    op.digit = n := by
  unfold Arith.ofDigit? at h
  split at h <;> cases h <;> rfl

theorem encode_of_decode {w : Word} {i : Instruction} (h : decode w = some i) : encode i = w := by
  have address := wordAddress_parts w
  have const := wordConst_parts w
  have digits := wordDigits_parts w
  unfold decode at h
  split at h
  case h_1 hk =>
    rw [hk] at address
    split at h
    · next hn =>
      cases h
      rwa [hn] at address
    · next hn =>
      cases h
      rwa [hn] at address
    · cases h
  case h_9 hk =>
    obtain ⟨op, hop, rfl⟩ := Option.map_eq_some_iff.1 h
    rw [encode, digit_of_ofDigit? hop, ← hk]
    exact digits
  all_goals try split at h
  all_goals cases h
  all_goals grind only [encode]

theorem decode_encode {i : Instruction} (h : i.InRange) : decode (encode i) = some i := by
  cases i with
  | clearScreen | ret => rfl
  | jump nnn | call nnn | setIndex nnn =>
    have h : nnn < 0x1000 := h
    simp [encode, decode, parts_wordAddress, h]
  | jumpOffset x nnn =>
    obtain ⟨-, h, top⟩ := h
    have first : (wordAddress 0xB nnn).x = x := by
      rw [Word.x_eq, (parts_wordAddress (by decide) h).2, ← UInt8.toNat_inj, UInt16.toNat_toUInt8,
        UInt16.toNat_div, ← Nat.mod_eq_of_lt x.toNat_lt, top]
      rfl
    simp [encode, decode, parts_wordAddress, h, first]
  | skip c =>
    cases c with
    | equalsConst x nn | differsConst x nn | keyHeld x | keyReleased x =>
      have h : x < 16 := h
      simp [encode, decode, parts_wordConst, h]
    | equalsRegister x y | differsRegister x y =>
      simp [encode, decode, parts_wordDigits, h.1, h.2]
  | arith op x y =>
    have digit : op.digit < 16 := by cases op <;> decide
    simp [encode, decode, parts_wordDigits, h.1, h.2, digit, ofDigit?_digit]
  | draw x y n => simp [encode, decode, parts_wordDigits, h.1, h.2.1, h.2.2]
  | setConst x nn | addConst x nn | random x nn | readDelay x | waitKey x | setDelay x | setSound x
  | addIndex x | pointGlyph x | storeDecimal x | storeRegisters x | loadRegisters x =>
    have h : x < 16 := h
    simp [encode, decode, parts_wordConst, h]

theorem encode_eq_spelling {i : Instruction} (h : i.InRange) : encode i = i.spelling := by
  cases i with
  | jump nnn | call nnn | setIndex nnn =>
    exact congrArg UInt16.ofNat (Pattern.fill_nnn _ (o := { n := nnn.toNat }) h).symm
  | jumpOffset x nnn =>
    exact congrArg UInt16.ofNat
      (Pattern.fill_nnn _ (o := { x := x.toNat, n := nnn.toNat }) h.2.1).symm
  | setConst x nn | addConst x nn | random x nn =>
    exact congrArg UInt16.ofNat
      (Pattern.fill_xnn _ (o := { x := x.toNat, n := nn.toNat }) nn.toNat_lt).symm
  | skip c =>
    cases c with
    | equalsConst x nn | differsConst x nn =>
      exact congrArg UInt16.ofNat
        (Pattern.fill_xnn _ (o := { x := x.toNat, n := nn.toNat }) nn.toNat_lt).symm
    | equalsRegister x y | differsRegister x y | keyHeld x | keyReleased x => rfl
  | arith op x y => cases op <;> rfl
  | draw x y n =>
    exact congrArg UInt16.ofNat (Pattern.fill_xyn _ (o := ⟨x.toNat, y.toNat, n.toNat⟩) h.2.2).symm
  | clearScreen | ret => rfl
  | readDelay x | waitKey x | setDelay x | setSound x | addIndex x | pointGlyph x | storeDecimal x
  | storeRegisters x | loadRegisters x => rfl

theorem decode_eq_some_iff {w : Word} {i : Instruction} :
    decode w = some i ↔ w = i.spelling ∧ i.InRange := by
  constructor
  · intro h
    have range := inRange_of_decode h
    exact ⟨(encode_of_decode h).symm.trans (encode_eq_spelling range), range⟩
  · rintro ⟨rfl, range⟩
    rw [← encode_eq_spelling range]
    exact decode_encode range

theorem matches_of_decode {w : Word} {i : Instruction} (h : decode w = some i) :
    i.pattern.Matches w := by
  have y := w.y_eq
  have n := w.n_eq
  unfold decode at h
  split at h
  case h_1 hk =>
    -- all four digits are fixed
    have x := w.x_eq
    have nn := w.nn_eq_nnn
    split at h
    all_goals cases h
    all_goals constructor <;> simp_all [pattern, Place.Matches]
  case h_9 hk =>
    obtain ⟨op, hop, rfl⟩ := Option.map_eq_some_iff.1 h
    have hn := digit_of_ofDigit? hop
    cases op
    all_goals exact ⟨hk, trivial, trivial, hn.symm⟩
  all_goals try split at h
  all_goals cases h
  all_goals constructor <;> simp_all [pattern, Condition.pattern, Place.Matches]

theorem exists_decode {w : Word} {p : Pattern} (documented : p ∈ Pattern.documented)
    (h : p.Matches w) : ∃ i, decode w = some i ∧ i.pattern = p := by
  obtain ⟨hk, hx, hy, hn⟩ := h
  fin_cases documented
  all_goals simp only [Place.Matches] at hk hx hy hn
  all_goals exact ⟨_, by
    simp only [decode, Arith.ofDigit?, hk, hx, hy, hn, w.nn_eq, w.nnn_eq]
    rfl, rfl⟩

theorem pattern_documented (i : Instruction) : i.pattern ∈ Pattern.documented := by
  cases i with
  | skip c => cases c <;> simp [pattern, Condition.pattern, Pattern.documented]
  | arith op x y => cases op <;> simp [pattern, Arith.pattern, Pattern.documented]
  | _ => simp [pattern, Pattern.documented]

theorem matches_iff {w : Word} {p : Pattern} (documented : p ∈ Pattern.documented) :
    p.Matches w ↔ ∃ i, decode w = some i ∧ i.pattern = p := by
  constructor
  · exact exists_decode documented
  · rintro ⟨i, decoded, rfl⟩
    exact matches_of_decode decoded

/-- A word is decoded to an instruction if and only if the pattern of the instruction spells the word
and its operands are in range: spelling and decoding undo each other, and no two words are decoded to
one instruction. There are 34 patterns. A word matches no more than one of them, that of its
instruction, and one that matches none has no instruction. -/
theorem decodes_documented_patterns :
    (∀ w i, decode w = some i ↔ w = i.spelling ∧ i.InRange) ∧
    (∀ i, i.InRange → decode i.spelling = some i) ∧
    (∀ w i, decode w = some i → i.spelling = w) ∧
    (∀ w w' i, decode w = some i → decode w' = some i → w = w') ∧
    Pattern.documented.length = 34 ∧ Pattern.documented.Nodup ∧
    (∀ i : Instruction, i.pattern ∈ Pattern.documented) ∧
    (∀ w, ∀ p ∈ Pattern.documented, p.Matches w ↔ ∃ i, decode w = some i ∧ i.pattern = p) ∧
    (∀ w, ∀ p ∈ Pattern.documented, ∀ q ∈ Pattern.documented,
      p.Matches w → q.Matches w → p = q) ∧
    (∀ w, decode w = none ↔ ∀ p ∈ Pattern.documented, ¬ p.Matches w) := by
  have spelled : ∀ {w i}, decode w = some i → i.spelling = w :=
    fun h => (decode_eq_some_iff.1 h).1.symm
  refine ⟨fun w i => decode_eq_some_iff, fun i range => decode_eq_some_iff.2 ⟨rfl, range⟩,
    fun w i => spelled, fun w w' i h h' => (spelled h).symm.trans (spelled h'), rfl, by decide,
    pattern_documented, fun w p => matches_iff, ?_, ?_⟩
  · intro w p hp q hq matchesP matchesQ
    obtain ⟨i, decoded, rfl⟩ := exists_decode hp matchesP
    obtain ⟨j, decoded', rfl⟩ := exists_decode hq matchesQ
    rw [Option.some.inj (decoded.symm.trans decoded')]
  · intro w
    constructor
    · intro none p hp matchesP
      obtain ⟨i, decoded, -⟩ := exists_decode hp matchesP
      cases none.symm.trans decoded
    · intro unmatched
      cases decoded : decode w with
      | none => rfl
      | some i => exact absurd (matches_of_decode decoded) (unmatched _ i.pattern_documented)

theorem decodes_documented_patterns_offset :
    let i := Instruction.jumpOffset 3 0x325
    i.InRange ∧ i.spelling = 0xB325 ∧ decode 0xB325 = some i ∧
    ∀ p ∈ Pattern.documented, p.Matches 0xB325 → p = ⟨.digit 0xB, .n, .n, .n⟩ := by
  intro i
  have range : i.InRange := ⟨by decide, by decide, rfl⟩
  have spelled : i.spelling = 0xB325 := by decide
  obtain ⟨-, undone, -, -, -, -, documented, match_iff, once, -⟩ := decodes_documented_patterns
  have decoded : decode 0xB325 = some i := spelled ▸ undone i range
  have matched := (match_iff 0xB325 _ (documented i)).2 ⟨i, decoded, rfl⟩
  exact ⟨range, spelled, decoded, fun p hp h => once _ p hp _ (documented i) h matched⟩

end Instruction

end Chip8
