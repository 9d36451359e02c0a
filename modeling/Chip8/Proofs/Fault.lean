import Chip8.Fault
import Chip8.Proofs.Text

namespace Chip8

namespace Fault

open Text

def words : Fault → List String
  | .unknownOpcode opcode pc =>
    ["unknown", "opcode", Hex.marked 4 opcode.toNat, "at", Hex.marked 3 pc.toNat]
  | .stackUnderflow pc =>
    ["return", "with", "an", "empty", "call", "stack", "at", Hex.marked 3 pc.toNat]
  | .memoryOutOfBounds address =>
    ["memory", "access", "out", "of", "bounds", "at", Hex.marked 4 address]
  | .counterOutOfBounds pc =>
    ["program", "counter", Hex.marked 4 pc.toNat, "is", "outside", "of", "memory"]
  | .programTooLarge size max =>
    ["program", "is", "too", "large", "(" ++ toString size, "bytes),", "at", "most", toString max,
      "bytes", "fit"]

def ofWords? : List String → Option Fault
  | ["unknown", "opcode", opcode, "at", pc] =>
    some (.unknownOpcode (.ofNat (Hex.read opcode)) (.ofNat (Hex.read pc)))
  | ["return", "with", "an", "empty", "call", "stack", "at", pc] =>
    some (.stackUnderflow (.ofNat (Hex.read pc)))
  | ["memory", "access", "out", "of", "bounds", "at", address] =>
    some (.memoryOutOfBounds (Hex.read address))
  | ["program", "counter", pc, "is", "outside", "of", "memory"] =>
    some (.counterOutOfBounds (.ofNat (Hex.read pc)))
  | ["program", "is", "too", "large", size, "bytes),", "at", "most", max, "bytes", "fit"] =>
    some (.programTooLarge (Nat.ofDigitChars 10 (size.toList.drop 1) 0)
      (Nat.ofDigitChars 10 max.toList 0))
  | _ => none

theorem message_eq (f : Fault) : f.message = " ".intercalate f.words := by
  apply String.toList_inj.1
  cases f
  all_goals
    delta message
    simp [words]

theorem avoids_words (f : Fault) : ∀ w ∈ f.words, Avoids [' ', '\n'] w := by
  have hex : ∀ width n, Avoids [' ', '\n'] (Hex.marked width n) :=
    avoids_marked (by decide) (by decide)
  have dec : ∀ n : Nat, Avoids [' ', '\n'] (toString n) := avoids_toString (by decide)
  cases f
  all_goals
    simp only [words, List.forall_mem_cons, avoids_append, hex, dec, true_and, and_true]
    decide

theorem ofWords?_words (f : Fault) : ofWords? f.words = some f := by
  cases f with
  | unknownOpcode opcode pc =>
    change some (unknownOpcode (.ofNat (Hex.read (Hex.marked 4 _)))
      (.ofNat (Hex.read (Hex.marked 3 _)))) = _
    rw [Hex.read_marked, Hex.read_marked, UInt16.ofNat_toNat, UInt16.ofNat_toNat]
  | stackUnderflow pc =>
    change some (stackUnderflow (.ofNat (Hex.read (Hex.marked 3 _)))) = _
    rw [Hex.read_marked, UInt16.ofNat_toNat]
  | memoryOutOfBounds address =>
    change some (memoryOutOfBounds (Hex.read (Hex.marked 4 _))) = _
    rw [Hex.read_marked]
  | counterOutOfBounds pc =>
    change some (counterOutOfBounds (.ofNat (Hex.read (Hex.marked 4 _)))) = _
    rw [Hex.read_marked, UInt16.ofNat_toNat]
  | programTooLarge size max =>
    change some (programTooLarge (Nat.ofDigitChars 10 (("(" ++ toString size).toList.drop 1) 0)
      (Nat.ofDigitChars 10 (toString max).toList 0)) = _
    have bracket : "(".toList = ['('] := rfl
    rw [String.toList_append, bracket, List.singleton_append, List.drop_one, List.tail_cons,
      ofDigitChars_toString, ofDigitChars_toString]

def ofMessage? (text : String) : Option Fault := ofWords? (parts ' ' text)

theorem ofMessage?_message (f : Fault) : ofMessage? f.message = some f := by
  have blank : " " = String.singleton ' ' := rfl
  have some : f.words ≠ [] := by cases f <;> exact List.cons_ne_nil _ _
  rw [ofMessage?, message_eq, blank, parts_intercalate f.avoids_words List.mem_cons_self some,
    ofWords?_words]

theorem message_injective : Function.Injective message := by
  intro f g same
  have read := ofMessage?_message f
  rw [same, ofMessage?_message] at read
  exact (Option.some.inj read).symm

theorem avoids_message (f : Fault) : Avoids ['\n'] f.message := by
  rw [message_eq]
  refine Avoids.intercalate (by decide) fun w hw => ?_
  exact (f.avoids_words w hw).mono (List.subset_cons_self ' ' ['\n'])

end Fault

end Chip8
