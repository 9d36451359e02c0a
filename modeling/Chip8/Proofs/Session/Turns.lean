import Chip8.Proofs.Session.Commands
import Chip8.Proofs.Session.Orders

namespace Chip8

namespace Turn

def closes (t : Turn) : Bool := t.received.contains .quit || t.gone

def paced (last : Nat) : List Turn → List (Turn × Nat)
  | [] => []
  | t :: ts => (t, t.now - last) :: paced t.now ts

def reading (last : Nat) (turns : List Turn) : Nat := (turns.getLast?.map Turn.now).getD last

theorem reading_cons (last : Nat) (t : Turn) (ts : List Turn) :
    reading last (t :: ts) = reading t.now ts := by
  rw [reading, reading, List.getLast?_cons]
  cases ts.getLast? <;> rfl

theorem paced_concat (last : Nat) (ts : List Turn) (t : Turn) :
    paced last (ts ++ [t]) = paced last ts ++ [(t, t.now - reading last ts)] := by
  induction ts generalizing last with
  | nil => rfl
  | cons u ts ih =>
    rw [List.cons_append, paced, ih, paced, List.cons_append, reading_cons]

end Turn

namespace Session

def drain (s : Session) (keys : Keypad) (received : List Command) (gone : Bool) : Session :=
  let s := received.foldl (obey keys) s
  if gone then s.abandon else s

def spend (s : Session) (t : Turn × Nat) : Session :=
  (s.drain t.1.keys t.1.received t.1.gone).advance t.1.keys t.2

theorem turn_eq_spend (last : Nat) (s : Session) (t : Turn) :
    s.turn last t = s.spend (t, t.now - last) := rfl

theorem obeyAll_orders (s : Session) (keys : Keypad) (cs : List Command) :
    (cs.foldl (obey keys) s).commands = s.commands ++ cs ∧
      (cs.foldl (obey keys) s).console.quitting = (s.console.quitting || cs.contains .quit) := by
  induction cs generalizing s with
  | nil => exact ⟨(List.append_nil _).symm, (Bool.or_false _).symm⟩
  | cons c cs ih =>
    obtain ⟨commands, quitting⟩ := s.obey_orders keys c
    obtain ⟨later, laterQuitting⟩ := ih (s.obey keys c)
    constructor
    · rw [List.foldl_cons, later, commands, List.append_assoc]
      rfl
    · rw [List.foldl_cons, laterQuitting, quitting, List.contains_cons, Bool.or_assoc,
        Bool.beq_comm]

theorem drain_orders (s : Session) (keys : Keypad) (received : List Command) (gone : Bool) :
    (s.drain keys received gone).commands = s.commands ++ received ∧
      (s.drain keys received gone).console.quitting =
        (s.console.quitting || received.contains .quit || gone) := by
  obtain ⟨commands, quitting⟩ := s.obeyAll_orders keys received
  cases gone with
  | false => exact ⟨commands, quitting.trans (Bool.or_false _).symm⟩
  | true =>
    have noted := (received.foldl (obey keys) s).commands_note .controllerGone
    exact ⟨noted.trans ((List.append_nil _).trans commands), (Bool.or_true _).symm⟩

theorem drain_eq_heed (s : Session) (keys : Keypad) (received : List Command) (gone : Bool) :
    let heeded := received.foldl (Console.heed keys) (s.console, s.dice)
    (s.drain keys received gone).console =
        { heeded.1 with quitting := heeded.1.quitting || gone } ∧
      (s.drain keys received gone).dice = heeded.2 := by
  rw [← obeyAll_eq_heed, drain]
  cases gone with
  | false => simp
  | true => simp [abandon]

theorem spend_orders (s : Session) (t : Turn × Nat) :
    (s.spend t).commands = s.commands ++ t.1.received ∧
      (s.spend t).console.quitting = (s.console.quitting || t.1.closes) := by
  have same := SameOrders.advance (s.drain t.1.keys t.1.received t.1.gone) t.1.keys t.2
  obtain ⟨commands, quitting⟩ := s.drain_orders t.1.keys t.1.received t.1.gone
  exact ⟨same.commands.trans commands, same.quitting.trans (quitting.trans (Bool.or_assoc _ _ _))⟩

def past (s : Session) (last : Nat) (turns : List Turn) : Session :=
  (Turn.paced last turns).foldl spend s

theorem past_concat (s : Session) (last : Nat) (ts : List Turn) (t : Turn) :
    s.past last (ts ++ [t]) = (s.past last ts).turn (Turn.reading last ts) t := by
  rw [past, Turn.paced_concat, List.foldl_append]
  rfl

theorem past_of_paused {s : Session} (last : Nat) {t : Turn}
    (paused : (s.drain t.keys t.received t.gone).console.paused = true) :
    s.past last [t] = s.drain t.keys t.received t.gone := by
  have asleep : (s.drain t.keys t.received t.gone).awake = false := by simp [awake, paused]
  exact advance_of_not_awake asleep t.keys _

theorem past_orders (s : Session) (last : Nat) (turns : List Turn) :
    (s.past last turns).commands = s.commands ++ turns.flatMap Turn.received ∧
      (s.past last turns).console.quitting = (s.console.quitting || turns.any Turn.closes) := by
  induction turns generalizing s last with
  | nil => exact ⟨(List.append_nil _).symm, (Bool.or_false _).symm⟩
  | cons t turns ih =>
    obtain ⟨commands, quitting⟩ := s.spend_orders (t, t.now - last)
    obtain ⟨later, laterQuitting⟩ := ih (s.spend (t, t.now - last)) t.now
    constructor
    · exact later.trans (by rw [commands, List.append_assoc]; rfl)
    · exact laterQuitting.trans (by rw [quitting, Bool.or_assoc]; rfl)

theorem run_of_quitting (s : Session) (quitting : s.console.quitting = true) (last : Nat)
    (turns : List Turn) : s.run last turns = s.note .stopped := by
  cases turns <;> rw [run, quitting, if_pos rfl]

theorem run_append (s : Session) (unset : s.console.quitting = false) (last : Nat)
    {ts : List Turn} (goesOn : ∀ t ∈ ts, t.closes = false) (us : List Turn) :
    s.run last (ts ++ us) = (s.past last ts).run (Turn.reading last ts) us := by
  induction ts generalizing s last with
  | nil => rfl
  | cons t ts ih =>
    rw [List.forall_mem_cons] at goesOn
    have still : (s.turn last t).console.quitting = false := by
      rw [turn_eq_spend, (s.spend_orders _).2, unset, goesOn.1]
      rfl
    rw [List.cons_append, run, unset, if_neg Bool.false_ne_true, ih _ still _ goesOn.2,
      Turn.reading_cons]
    rfl

theorem quitting_past (s : Session) (unset : s.console.quitting = false) (last : Nat)
    {ts : List Turn} (goesOn : ∀ t ∈ ts, t.closes = false) :
    (s.past last ts).console.quitting = false := by
  rw [(s.past_orders last ts).2, unset]
  simpa using goesOn

theorem run_of_goesOn (s : Session) (unset : s.console.quitting = false) (last : Nat)
    {ts : List Turn} (goesOn : ∀ t ∈ ts, t.closes = false) : s.run last ts = s.past last ts := by
  have taken := run_append s unset last goesOn []
  rwa [List.append_nil, run, quitting_past s unset last goesOn, if_neg Bool.false_ne_true] at taken

/-- A run ends with the first turn that closes. -/
theorem run_of_closes (s : Session) (unset : s.console.quitting = false) (last : Nat)
    {ts : List Turn} (goesOn : ∀ t ∈ ts, t.closes = false) {t : Turn} (closes : t.closes = true)
    (us : List Turn) :
    s.run last (ts ++ t :: us) = (s.past last (ts ++ [t])).note .stopped := by
  have quitting : (s.past last (ts ++ [t])).console.quitting = true := by
    rw [(s.past_orders last _).2, List.any_append]
    simp [closes]
  rw [run_append s unset last goesOn, run, quitting_past s unset last goesOn,
    if_neg Bool.false_ne_true, ← past_concat, run_of_quitting _ quitting]

end Session

end Chip8
