import Chip8.Session.Run
/-!
# Histories of a session

A history is what is done to a session one operation after the other, each with the keys that are
held meanwhile. A property that single operations keep is kept by every history.
-/

namespace Chip8

inductive Operation : Type
  | start : Operation
  | togglePause : Operation
  | step : Operation
  | advance : (span : Nat) → Operation
  | apply : Command → Operation
  | reset : Operation
  | changeSource : ProgramSource → Operation
  | run : (last : Nat) → List Turn → Operation

abbrev History := List (Keypad × Operation)

namespace Session

def opening (machine : Machine) (source : ProgramSource) (pace : Pace) (dice : Dice) : Session :=
  { start machine source pace with dice }

def operate (keys : Keypad) (s : Session) : Operation → Session
  | .start => s.resume
  | .togglePause => s.togglePause
  | .step => s.step keys
  | .advance span => s.advance keys span
  | .apply c => (s.apply keys c).1
  | .reset => s.reset.1
  | .changeSource source => (s.changeSource source).1
  | .run last turns => s.run last turns

def after (s : Session) (history : History) : Session :=
  history.foldl (fun s h => s.operate h.1 h.2) s

def Reachable (s : Session) : Prop :=
  ∃ machine source pace dice history, (opening machine source pace dice).after history = s

theorem Reachable.after {s : Session} (h : s.Reachable) (history : History) :
    (s.after history).Reachable := by
  obtain ⟨machine, source, pace, dice, earlier, rfl⟩ := h
  exact ⟨machine, source, pace, dice, earlier ++ history, List.foldl_append⟩

/-- A property that whatever operations are made of does not destroy. -/
structure Kept (P : Session → Prop) : Prop where
  note : ∀ s n, P s → P (s.note n)
  quit : ∀ s, P s → P { s with console := { s.console with quitting := true } }
  source : ∀ s source, P s → P { s with console := { s.console with source } }
  resume : ∀ s, P s → P s.resume
  togglePause : ∀ s, P s → P s.togglePause
  step : ∀ s keys, P s → P (s.step keys)
  advance : ∀ s keys span, P s → P (s.advance keys span)
  clear : ∀ s, P s → P s.clear
  insert : ∀ s program, P s → P (s.insert program)

namespace Kept

variable {P : Session → Prop}

theorem reset_of_clear (k : Kept P) (s : Session) (h : P s.clear) : P s.reset.1 := by
  have hc := k.source _ s.clear.console.source.fetch.2 h
  simp only [Session.reset]
  split
  · exact k.insert _ _ hc
  · exact hc

theorem reset (k : Kept P) (s : Session) (h : P s) : P s.reset.1 :=
  k.reset_of_clear s (k.clear s h)

theorem apply (k : Kept P) (s : Session) (keys : Keypad) (c : Command) (h : P s) :
    P (s.apply keys c).1 := by
  have hn := k.note s (.gotCommand c) h
  cases c with
  | start => exact k.resume _ hn
  | togglePause => exact k.togglePause _ hn
  | reset => exact k.reset _ hn
  | step => exact k.step _ keys hn
  | quit => exact k.quit _ hn

theorem obey (k : Kept P) (s : Session) (keys : Keypad) (c : Command) (h : P s) :
    P (s.obey keys c) := by
  have ha := k.apply s keys c h
  simp only [Session.obey]
  split
  · next hs => rwa [hs] at ha
  · next hs =>
    rw [hs] at ha
    exact k.note _ _ ha

theorem obeyAll (k : Kept P) (s : Session) (keys : Keypad) (cs : List Command) (h : P s) :
    P (cs.foldl (Session.obey keys) s) := by
  induction cs generalizing s with
  | nil => exact h
  | cons c cs ih => exact ih _ (k.obey s keys c h)

theorem turn (k : Kept P) (last : Nat) (s : Session) (t : Turn) (h : P s) : P (s.turn last t) := by
  have hc := k.obeyAll s t.keys t.received h
  apply k.advance
  split
  · exact k.quit _ (k.note _ _ hc)
  · exact hc

theorem run (k : Kept P) (s : Session) (last : Nat) (turns : List Turn) (h : P s) :
    P (s.run last turns) := by
  induction turns generalizing s last with
  | nil =>
    rw [Session.run]
    split
    · exact k.note _ _ h
    · exact h
  | cons t turns ih =>
    rw [Session.run]
    split
    · exact k.note _ _ h
    · exact ih _ t.now (k.turn last s t h)

theorem operate (k : Kept P) (s : Session) (keys : Keypad) (o : Operation) (h : P s) :
    P (s.operate keys o) := by
  cases o with
  | start => exact k.resume s h
  | togglePause => exact k.togglePause s h
  | step => exact k.step s keys h
  | advance span => exact k.advance s keys span h
  | apply c => exact k.apply s keys c h
  | reset => exact k.reset s h
  | changeSource source => exact k.reset _ (k.source s source h)
  | run last turns => exact k.run s last turns h

theorem after (k : Kept P) (s : Session) (history : History) (h : P s) : P (s.after history) := by
  induction history generalizing s with
  | nil => exact h
  | cons o history ih => exact ih _ (k.operate s o.1 o.2 h)

theorem reachable (k : Kept P)
    (opened : ∀ machine source pace dice, P (opening machine source pace dice)) {s : Session}
    (h : s.Reachable) : P s := by
  obtain ⟨machine, source, pace, dice, history, rfl⟩ := h
  exact k.after _ history (opened machine source pace dice)

end Kept

end Session

end Chip8
