import Chip8.Proofs.Machine.Mishaps
import Chip8.Proofs.Session.Resets

namespace Chip8

namespace Note

def command? : Note → Option Command
  | .gotCommand c => some c
  | _ => none

def commands (notes : List Note) : List Command := notes.filterMap command?

theorem commands_append (ns ms : List Note) : commands (ns ++ ms) = commands ns ++ commands ms :=
  List.filterMap_append

theorem commands_of_instruction {notes : List Note} (h : ∀ n ∈ notes, n.OfInstruction) :
    commands notes = [] :=
  List.filterMap_eq_nil_iff.2 fun n hn => by
    have hn := h n hn
    cases n <;> first | rfl | exact hn.elim

end Note

namespace Machine

theorem commands_report (m : Machine) {notes : List Note} (h : Note.commands notes = [])
    (fault : Option Fault) : Note.commands (m.report notes fault).notes = [] := by
  cases fault with
  | none => exact h
  | some f =>
    rw [report, Note.commands_append, h]
    rfl

theorem commands_step (m : Machine) (inputs : Inputs) :
    Note.commands (m.step inputs).notes = [] := by
  cases fetched : m.fetch with
  | error fault =>
    rw [step_of_fetch_error inputs fetched]
    exact commands_report _ rfl _
  | ok found =>
    obtain ⟨w, i⟩ := found
    have range := (inRange_of_fetch fetched).executable
    obtain ⟨e, executed⟩ := m.succeeds_execute inputs range
    rw [step_of_perform inputs fetched (perform_of_execute inputs executed)]
    exact commands_report _ (Note.commands_of_instruction (execute_unreported range executed).2) _

theorem commands_load (m : Machine) (program : Array UInt8) :
    Note.commands (m.load program).notes = [] := by
  rw [load]
  split <;> rfl

end Machine

theorem Run.commands_batch (keys : Keypad) (count : Nat) (r : Run) :
    Note.commands (r.batch keys count).notes.toList = Note.commands r.notes.toList := by
  induction count generalizing r with
  | zero => rfl
  | succ count ih =>
    rw [batch, ih, step, accept]
    simp [Note.commands_append, Machine.commands_step]

def Event.command? : Event → Option Command
  | .note n => n.command?
  | _ => none

namespace Session

def commands (s : Session) : List Command := s.events.toList.filterMap Event.command?

theorem commands_note (s : Session) (n : Note) :
    (s.note n).commands = s.commands ++ n.command?.toList := by
  simp only [commands, note, Array.toList_push, List.filterMap_append]
  cases n <;> rfl

theorem commands_accept (s : Session) (o : Outcome) :
    (s.accept o).commands = s.commands ++ Note.commands o.notes := by
  simp [commands, accept, Note.commands, Function.comp_def, Event.command?]

theorem commands_cycles (s : Session) (keys : Keypad) (count : Nat) :
    (s.cycles keys count).commands = s.commands := by
  have quiet := Run.commands_batch keys count ⟨s.console.machine, s.dice, #[]⟩
  simp only [commands, cycles, Array.toList_append, Array.toList_map, List.filterMap_append,
    List.filterMap_map]
  exact (congrArg _ quiet).trans (List.append_nil _)

structure SameOrders (s t : Session) : Prop where
  commands : t.commands = s.commands
  quitting : t.console.quitting = s.console.quitting

namespace SameOrders

variable {s t u : Session}

theorem refl (s : Session) : SameOrders s s := ⟨rfl, rfl⟩

theorem trans (h : SameOrders s t) (k : SameOrders t u) : SameOrders s u :=
  ⟨k.commands.trans h.commands, k.quitting.trans h.quitting⟩

theorem note (s : Session) {n : Note} (h : n.command? = none) : SameOrders s (s.note n) where
  commands := by
    rw [commands_note, h]
    exact List.append_nil _
  quitting := rfl

theorem showScreen (s : Session) : SameOrders s s.showScreen where
  commands := by
    simp only [Session.showScreen]
    split
    · simp [Session.commands, Event.command?]
    · rfl
  quitting := by rw [console_showScreen]

theorem showStatus (s : Session) : SameOrders s s.showStatus where
  commands := by
    simp only [Session.showStatus]
    split
    · rfl
    · simp [Session.commands, Event.command?]
  quitting := by rw [console_showStatus]

theorem present (s : Session) : SameOrders s s.present := (showScreen s).trans (showStatus _)

theorem cycles (s : Session) (keys : Keypad) (count : Nat) : SameOrders s (s.cycles keys count) :=
  ⟨commands_cycles s keys count, rfl⟩

theorem load (s : Session) (program : Array UInt8) :
    SameOrders s (s.accept (s.console.machine.load program)) where
  commands := by
    rw [commands_accept, Machine.commands_load]
    exact List.append_nil _
  quitting := rfl

theorem resume (s : Session) : SameOrders s s.resume := by
  simp only [Session.resume]
  split
  · split
    · exact present s
    · refine SameOrders.trans ?_ (present _)
      refine SameOrders.trans ?_ (note _ rfl)
      exact ⟨rfl, rfl⟩
  · exact note s rfl

theorem togglePause (s : Session) : SameOrders s s.togglePause := by
  refine SameOrders.trans ?_ (present _)
  refine SameOrders.trans ?_ (note _ ?_)
  · exact ⟨rfl, rfl⟩
  · split <;> rfl

theorem emptied (s : Session) (machine : Machine) : SameOrders s (s.emptied machine).present := by
  refine SameOrders.trans ?_ (present _)
  refine SameOrders.trans ?_ (note _ rfl)
  exact ⟨rfl, rfl⟩

theorem clear (s : Session) : SameOrders s s.clear := emptied s s.console.machine.reset

theorem insert (s : Session) (program : Array UInt8) : SameOrders s (s.insert program) := by
  have loaded := load s program
  simp only [Session.insert]
  split
  · refine SameOrders.trans ?_ (resume _)
    exact ⟨loaded.commands, loaded.quitting⟩
  · exact loaded.trans (present _)

theorem reset (s : Session) : SameOrders s s.reset.1 := by
  have refetched : SameOrders s s.refetched := (clear s).trans ⟨rfl, rfl⟩
  rw [reset_eq]
  split
  · exact refetched.trans (insert _ _)
  · exact refetched

theorem step (s : Session) (keys : Keypad) : SameOrders s (s.step keys) := by
  simp only [Session.step]
  split
  · exact (cycles s keys 1).trans (present _)
  · exact note s rfl

theorem beat (s : Session) (keys : Keypad) (b : Beat) : SameOrders s (s.beat keys b) := by
  cases b with
  | tick => exact ⟨rfl, rfl⟩
  | batch => exact (cycles s keys _).trans (present _)

theorem advance (s : Session) (keys : Keypad) (span : Nat) :
    SameOrders s (s.advance keys span) :=
  advance_induction (P := SameOrders s) (fun t b h => h.trans (beat t keys b))
    (fun _ _ h => ⟨h.commands, h.quitting⟩) s span (refl s)

end SameOrders

theorem apply_orders (s : Session) (keys : Keypad) (c : Command) :
    (s.apply keys c).1.commands = s.commands ++ [c] ∧
      (s.apply keys c).1.console.quitting = (s.console.quitting || c == .quit) := by
  have noted := s.commands_note (.gotCommand c)
  have settle {t : Session} (same : SameOrders (s.note (.gotCommand c)) t)
      (goesOn : (c == .quit) = false) :
      t.commands = s.commands ++ [c] ∧ t.console.quitting = (s.console.quitting || c == .quit) := by
    rw [goesOn, Bool.or_false]
    exact ⟨same.commands.trans noted, same.quitting⟩
  cases c with
  | start => exact settle (.resume _) rfl
  | togglePause => exact settle (.togglePause _) rfl
  | reset => exact settle (.reset _) rfl
  | step => exact settle (.step _ keys) rfl
  | quit => exact ⟨noted, (Bool.or_true _).symm⟩

theorem obey_orders (s : Session) (keys : Keypad) (c : Command) :
    (s.obey keys c).commands = s.commands ++ [c] ∧
      (s.obey keys c).console.quitting = (s.console.quitting || c == .quit) := by
  have applied := s.apply_orders keys c
  rw [obey]
  split
  · next h => rwa [h] at applied
  · next t e h =>
    rw [h] at applied
    have same := SameOrders.note t (n := .commandFailed c e) rfl
    exact ⟨same.commands.trans applied.1, same.quitting.trans applied.2⟩

end Session

end Chip8
