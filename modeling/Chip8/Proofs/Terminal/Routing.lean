import Chip8.Proofs.Terminal.Holding
import Mathlib.Tactic.ByContra
import Mathlib.Tactic.Push

namespace Chip8.Terminal

theorem toLower_toLower (c : Char) : c.toLower.toLower = c.toLower := by
  unfold Char.toLower
  grind

theorem toLower_toUpper (c : Char) : c.toUpper.toLower = c.toLower := by
  by_cases ascii : c.toNat < 128
  · have tried : ∀ n < 128, (Char.ofNat n).toUpper.toLower = (Char.ofNat n).toLower := by decide
    have tried := tried c.toNat ascii
    rwa [Char.ofNat_toNat] at tried
  · have same : c.toUpper = c :=
      dif_neg fun small => ascii (Nat.lt_of_le_of_lt small.2 (by decide))
    rw [same]

namespace Layout

variable (l : Layout)

theorem key?_toLower (c : Char) : l.key? (.char c.toLower) = l.key? (.char c) := by
  rw [key?, key?, toLower_toLower]

theorem key?_toUpper (c : Char) : l.key? (.char c.toUpper) = l.key? (.char c) := by
  rw [key?, key?, toLower_toUpper]

theorem key?_eq_none_of_command? {key : Key} {command : Command}
    (given : key.command? = some command) : l.key? key = none := by
  cases key with
  | char c =>
    have commanding : c = 'p' ∨ c = 'n' := by
      by_contra other
      push Not at other
      simp [Key.command?, other.1, other.2] at given
    rcases commanding with rfl | rfl <;> cases l <;> decide
  | _ => rfl

theorem key?_chars : ∀ k < 16, l.key? (.char (l.chars[k]?.getD ' ')) = some (UInt8.ofNat k) := by
  cases l <;> decide

theorem exists_key? {k : UInt8} (small : k < 16) : ∃ key, l.key? key = some k := by
  have found := l.key?_chars k.toNat small
  rw [UInt8.ofNat_toNat] at found
  exact ⟨_, found⟩

end Layout

/-- Some commands, up to the first to quit, with that one. -/
def throughQuit (cs : List Command) : List Command := cs.take (cs.idxOf .quit + 1)

theorem throughQuit_quit (cs : List Command) : throughQuit (.quit :: cs) = [.quit] := by
  rw [throughQuit, List.idxOf_cons_self, List.take_succ_cons, List.take_zero]

theorem throughQuit_cons {c : Command} (other : c ≠ .quit) (cs : List Command) :
    throughQuit (c :: cs) = c :: throughQuit cs := by
  have further : (c :: cs).idxOf .quit = cs.idxOf .quit + 1 := by
    rw [List.idxOf_cons, beq_false_of_ne other, cond_false]
  rw [throughQuit, further, List.take_succ_cons, throughQuit]

namespace Listener

def Turn.command? (t : Turn) : Option Command := t.key.bind Key.command?

variable {l : Listener} {t : Turn}

theorem turn_of_done (done : l.done = true) : l.turn t = (l, none) := if_pos done

theorem turn_quit (running : l.done = false) (given : t.command? = some .quit) :
    l.turn t = ({ l with done := true }, some .quit) := by
  obtain ⟨key, hkey, hcommand⟩ := Option.bind_eq_some_iff.1 given
  simp [turn, running, hkey, hcommand]

theorem turn_command (running : l.done = false) {command : Command}
    (given : t.command? = some command) (other : command ≠ .quit) :
    l.turn t = (l.releaseExpired t.now, some command) := by
  obtain ⟨key, hkey, hcommand⟩ := Option.bind_eq_some_iff.1 given
  cases command with
  | quit => exact absurd rfl other
  | _ => simp [turn, running, hkey, hcommand]

theorem turn_idle (running : l.done = false) :
    l.turn { t with key := none } = (l.releaseExpired t.now, none) := by
  simp [turn, running]

theorem Turn.press?_of_command? (given : t.command? = none) (layout : Layout) :
    t.press? layout = t.key.bind layout.key? := by
  rcases t with ⟨_ | key, pressed, now⟩
  · rfl
  · exact if_pos given

theorem turn_other (running : l.done = false) (given : t.command? = none) :
    l.turn t = ((l.hear t).releaseExpired t.now, none) := by
  rcases t with ⟨_ | key, pressed, now⟩
  · simp [turn, running, hear, Turn.press?]
  · have given : key.command? = none := given
    simp only [turn, running, hear, press, Turn.press?, given, Option.bind_some, if_pos]
    cases l.layout.key? key <;> rfl

theorem hear_other (given : t.command? = none) (l : Listener) :
    l.hear t = match t.key.bind l.layout.key? with
      | some k => { l with keypad := l.keypad.write (.press k), holds := l.holds.push k t.pressed }
      | none => l := by
  have pressed := t.press?_of_command? given l.layout
  cases stands : t.key.bind l.layout.key? with
  | none | some k => simp [hear, pressed, stands]

@[simp] theorem done_hear (l : Listener) (t : Turn) : (l.hear t).done = l.done := by
  unfold hear; split <;> rfl

theorem run_turn (l : Listener) (t : Turn) (ts : List Turn) :
    l.run (t :: ts) =
      (((l.turn t).1.run ts).1, (l.turn t).2.toList ++ ((l.turn t).1.run ts).2) := rfl

theorem run_of_done (done : l.done = true) (ts : List Turn) : l.run ts = (l, []) := by
  induction ts with
  | nil => rfl
  | cons t ts ih => rw [run_turn, turn_of_done done, ih, Option.toList_none, List.nil_append]

theorem run_quit (given : t.command? = some .quit) (later : List Turn) :
    l.run (t :: later) = l.run [t] := by
  cases running : l.done with
  | true => rw [run_of_done running, run_of_done running]
  | false =>
    have quit : (l.turn t).1.done = true := by rw [turn_quit running given]
    rw [run_turn, run_turn, run_of_done quit, run_of_done quit]

theorem run_append_congr {us vs : List Turn} (same : ∀ l : Listener, l.run us = l.run vs)
    (before : List Turn) : l.run (before ++ us) = l.run (before ++ vs) := by
  induction before generalizing l with
  | nil => exact same l
  | cons t before ih => rw [List.cons_append, List.cons_append, run_turn, run_turn, ih]

theorem commands_run (running : l.done = false) (ts : List Turn) :
    (l.run ts).2 = throughQuit (ts.filterMap Turn.command?) := by
  induction ts generalizing l with
  | nil => rfl
  | cons t ts ih =>
    rw [run_turn]
    cases given : t.command? with
    | none =>
      rw [List.filterMap_cons_none given, turn_other running given]
      exact ih (l.done_hear t ▸ running)
    | some command =>
      rw [List.filterMap_cons_some given]
      by_cases quit : command = .quit
      · subst quit
        rw [turn_quit running given, throughQuit_quit, run_of_done rfl, Option.toList_some,
          List.append_nil]
      · rw [turn_command running given quit, throughQuit_cons quit]
        exact congrArg (command :: ·) (ih running)

/-- A listener sends the commands that keys give, up to the first to quit, and nothing becomes of any key
after that. A key that gives a command presses none of the keypad, and any other key presses the one that
it stands for, if any, both on the keypad and in the record of presses. No key does both, whatever the
case of a letter is, and each key of the keypad can be pressed. -/
theorem keys_are_routed :
    (∀ (l : Listener) (ts : List Turn), l.done = false →
      (l.run ts).2 = throughQuit (ts.filterMap Turn.command?)) ∧
    (∀ (l : Listener) (before : List Turn) (t : Turn) (later : List Turn), t.command? = some .quit →
      l.run (before ++ t :: later) = l.run (before ++ [t])) ∧
    (∀ (l : Listener) (t : Turn) (command : Command), l.done = false → t.command? = some command →
      (l.turn t).1 =
        if command = .quit then { l with done := true } else (l.turn { t with key := none }).1) ∧
    (∀ (l : Listener) (t : Turn), l.done = false → t.command? = none →
      (l.turn t).1 = (Listener.turn (match t.key.bind l.layout.key? with
        | some k => { l with keypad := l.keypad.write (.press k), holds := l.holds.push k t.pressed }
        | none => l) { t with key := none }).1) ∧
    (∀ (layout : Layout) (key : Key), key.command? = none ∨ layout.key? key = none) ∧
    (∀ (layout : Layout) (key : Key) (k : UInt8), layout.key? key = some k → k ≤ 15) ∧
    (∀ (layout : Layout) (c : Char), layout.key? (.char c.toLower) = layout.key? (.char c) ∧
      layout.key? (.char c.toUpper) = layout.key? (.char c)) ∧
    ∀ (layout : Layout) (k : UInt8), k ≤ 15 → ∃ key, layout.key? key = some k := by
  refine ⟨fun l ts running => commands_run running ts, ?_, ?_, ?_, ?_, ?_, ?_, ?_⟩
  · intro l before t later given
    exact run_append_congr (fun l => run_quit given later) before
  · intro l t command running given
    split
    · next quit =>
      subst quit
      rw [turn_quit running given]
    · next other => rw [turn_command running given other, turn_idle running]
  · intro l t running given
    have idle := turn_idle (t := t) (l.done_hear t ▸ running)
    rw [turn_other running given, ← congrArg Prod.fst idle, hear_other given]
  · intro layout key
    cases given : key.command? with
    | none => exact .inl rfl
    | some command => exact .inr (layout.key?_eq_none_of_command? given)
  · intro layout key k pressed
    exact Nat.le_of_lt_succ (Layout.toNat_lt_of_key? pressed)
  · exact fun layout c => ⟨layout.key?_toLower c, layout.key?_toUpper c⟩
  · exact fun layout k small => layout.exists_key? (Nat.lt_succ_of_le small)

def typed : List Turn := [⟨some (.char 'p'), 1, 2⟩, ⟨some (.char 'R'), 3, 4⟩, ⟨some (.char 'n'), 5, 6⟩]

def escaped : Turn := ⟨some .escape, 7, 8⟩

theorem keys_are_routed_quitting :
    (({ layout := .positional } : Listener).run (typed ++ escaped :: typed)).2 =
      [.togglePause, .step, .quit] ∧
    ({ layout := .positional } : Listener).run (typed ++ escaped :: typed) =
      ({ layout := .positional } : Listener).run (typed ++ [escaped]) ∧
    (({ layout := .positional } : Listener).turn escaped).1 =
      { layout := .positional, done := true } ∧
    (({ layout := .positional } : Listener).turn ⟨some (.char 'R'), 3, 4⟩).1 =
      (({ layout := .positional
          keypad := Keypad.released.write (.press 0xD)
          holds := KeyHolds.push { timeout := holdTimeout } 0xD 3 } : Listener).turn ⟨none, 3, 4⟩).1 ∧
    (0xD : UInt8) ≤ 15 ∧ ∃ key, Layout.positional.key? key = some 0xD := by
  obtain ⟨sent, ended, commanded, pressed, -, bounded, -, reached⟩ := keys_are_routed
  refine ⟨(sent _ _ rfl).trans (by decide), ended _ typed escaped typed rfl, ?_, ?_, ?_, ?_⟩
  · exact commanded _ escaped .quit rfl rfl
  · exact pressed { layout := .positional } ⟨some (.char 'R'), 3, 4⟩ rfl rfl
  · exact bounded .positional (.char 'R') 0xD (by decide)
  · exact reached .positional 0xD (by decide)

end Listener

end Chip8.Terminal
