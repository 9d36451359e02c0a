import Chip8.Proofs.Session.Agenda
import Chip8.Proofs.Session.Turns
import Mathlib.Algebra.Ring.Nat
/-!
# Serving controllers

Controllers send commands down a channel while a session works, and leave. The session takes one
thing after the other: it looks for a command and obeys it, or finds nothing and lets time pass, which
ends the turn. What happens on the two sides of the channel comes in any order.
-/

namespace Chip8

structure Channel where
  queue : List Command := []
  connected : Bool := true

inductive Receipt : Type
  | command : Command → Receipt
  | empty : Receipt
  | disconnected : Receipt

namespace Channel

def send (channel : Channel) (c : Command) : Channel :=
  if channel.connected then { channel with queue := channel.queue ++ [c] } else channel

def leave (channel : Channel) : Channel := { channel with connected := false }

def receive (channel : Channel) : Receipt × Channel :=
  match channel.queue with
  | c :: queue => (.command c, { channel with queue })
  | [] => (if channel.connected then .empty else .disconnected, channel)

end Channel

inductive Move : Type
  | send : Command → Move
  | leave : Move
  | go : Move

def Move.sent (connected : Bool) : List Move → List Command
  | [] => []
  | .send c :: moves => if connected then c :: sent connected moves else sent connected moves
  | .leave :: moves => sent false moves
  | .go :: moves => sent connected moves

/-- A reading of the clock before the first turn and one in each, and the keys held in each. -/
structure Watch where
  reading : Nat → Nat
  keys : Nat → Keypad := fun _ => .released

inductive Stage : Type
  | draining : Stage
  | advancing : Stage
  | returned : Stage
  deriving DecidableEq

structure Service where
  session : Session
  channel : Channel
  stage : Stage := .draining
  turns : List Turn := []
  received : List Command := []
  gone : Bool := false

namespace Service

def enter (w : Service) : Service :=
  if w.session.console.quitting then
    { w with session := w.session.note .stopped, stage := .returned }
  else { w with stage := .draining }

def start (s : Session) (channel : Channel) : Service := enter { session := s, channel }

variable (watch : Watch)

def turn (w : Service) : Turn where
  received := w.received
  gone := w.gone
  now := watch.reading (w.turns.length + 1)
  keys := watch.keys w.turns.length

def span (w : Service) : Nat :=
  watch.reading (w.turns.length + 1) - watch.reading w.turns.length

def go (w : Service) : Service :=
  let keys := watch.keys w.turns.length
  match w.stage with
  | .draining =>
    match w.channel.receive with
    | (.command c, channel) =>
      { w with session := w.session.obey keys c, channel, received := w.received ++ [c] }
    | (.empty, _) => { w with stage := .advancing }
    | (.disconnected, _) =>
      { w with session := w.session.abandon, stage := .advancing, gone := true }
  | .advancing =>
    enter {
      session := w.session.advance keys (w.span watch)
      channel := w.channel
      turns := w.turns ++ [w.turn watch] }
  | .returned => w

def move (w : Service) : Move → Service
  | .send c => { w with channel := w.channel.send c }
  | .leave => { w with channel := w.channel.leave }
  | .go => w.go watch

def after (w : Service) (moves : List Move) : Service := moves.foldl (move watch) w

section Go

variable {watch} {w : Service}

theorem go_command (stage : w.stage = .draining) {c : Command} {queue : List Command}
    (waiting : w.channel.queue = c :: queue) : w.go watch =
      { w with
        session := w.session.obey (watch.keys w.turns.length) c
        channel := { w.channel with queue }
        received := w.received ++ [c] } := by
  simp only [go, stage, Channel.receive, waiting]

theorem go_empty (stage : w.stage = .draining) (waiting : w.channel.queue = [])
    (connected : w.channel.connected = true) : w.go watch = { w with stage := .advancing } := by
  simp only [go, stage, Channel.receive, waiting, connected, if_true]

theorem go_disconnected (stage : w.stage = .draining) (waiting : w.channel.queue = [])
    (disconnected : w.channel.connected = false) : w.go watch =
      { w with session := w.session.abandon, stage := .advancing, gone := true } := by
  simp only [go, stage, Channel.receive, waiting, disconnected, Bool.false_eq_true, if_false]

theorem go_advance (stage : w.stage = .advancing) : w.go watch =
    enter {
      session := w.session.advance (watch.keys w.turns.length) (w.span watch)
      channel := w.channel
      turns := w.turns ++ [w.turn watch] } := by
  simp only [go, stage]

theorem go_returned (stage : w.stage = .returned) : w.go watch = w := by
  simp only [go, stage]

theorem channel_enter (w : Service) : w.enter.channel = w.channel := by
  rw [enter]
  split <;> rfl

theorem channel_start (s : Session) (channel : Channel) : (start s channel).channel = channel :=
  channel_enter _

theorem turns_enter (w : Service) : w.enter.turns = w.turns := by
  rw [enter]
  split <;> rfl

theorem connected_go (w : Service) : (w.go watch).channel.connected = w.channel.connected := by
  cases stage : w.stage with
  | draining =>
    cases waiting : w.channel.queue with
    | cons c queue => rw [go_command stage waiting]
    | nil =>
      cases connected : w.channel.connected with
      | true => rw [go_empty stage waiting connected, connected]
      | false => rw [go_disconnected stage waiting connected, connected]
  | advancing => rw [go_advance stage, channel_enter]
  | returned => rw [go_returned stage]

theorem sent_cons (watch : Watch) (w : Service) (move : Move) (moves : List Move) :
    Move.sent w.channel.connected (move :: moves) =
      Move.sent w.channel.connected [move] ++
        Move.sent (w.move watch move).channel.connected moves := by
  cases move with
  | send c => cases h : w.channel.connected <;> simp [Move.sent, Service.move, Channel.send, h]
  | leave => rfl
  | go => rw [Service.move, connected_go]; rfl

end Go

def obeyed (w : Service) : List Command := w.turns.flatMap Turn.received ++ w.received

/-- The session has kept to the order of things. -/
structure InOrder (s : Session) (sent : List Command) (w : Service) : Prop where
  received : w.obeyed ++ w.channel.queue = sent
  session : w.session =
    if w.stage = .returned then (s.past (watch.reading 0) w.turns).note .stopped
    else (s.past (watch.reading 0) w.turns).drain (watch.keys w.turns.length) w.received w.gone
  spans : (Turn.paced (watch.reading 0) w.turns).map Prod.snd =
    (List.range w.turns.length).map fun k => watch.reading (k + 1) - watch.reading k
  reading : Turn.reading (watch.reading 0) w.turns = watch.reading w.turns.length
  early : ∀ t ∈ w.turns.dropLast, t.closes = false
  returned : w.stage = .returned ↔ ∃ t ∈ w.turns, t.closes = true
  idle : w.stage = .returned → w.received = []
  gone : w.gone = true → w.stage = .advancing

namespace InOrder

variable {watch} {s : Session} {sent : List Command} {w : Service}

theorem goesOn (h : InOrder watch s sent w) (working : w.stage ≠ .returned) :
    ∀ t ∈ w.turns, t.closes = false := by
  simpa using h.returned.not.1 working

theorem of_working (working : w.stage ≠ .returned)
    (received : w.obeyed ++ w.channel.queue = sent)
    (session : w.session = (s.past (watch.reading 0) w.turns).drain (watch.keys w.turns.length)
      w.received w.gone)
    (spans : (Turn.paced (watch.reading 0) w.turns).map Prod.snd =
      (List.range w.turns.length).map fun k => watch.reading (k + 1) - watch.reading k)
    (reading : Turn.reading (watch.reading 0) w.turns = watch.reading w.turns.length)
    (goesOn : ∀ t ∈ w.turns, t.closes = false) (gone : w.gone = true → w.stage = .advancing) :
    InOrder watch s sent w where
  received
  session := by rw [session, if_neg working]
  spans
  reading
  early t ht := goesOn t (List.dropLast_subset _ ht)
  returned := by simpa [working] using goesOn
  idle stage := absurd stage working
  gone

theorem start {s : Session} (unset : s.console.quitting = false) (channel : Channel) :
    InOrder watch s channel.queue (start s channel) := by
  rw [Service.start, enter, unset, if_neg Bool.false_ne_true]
  apply of_working <;> simp [obeyed, Session.past, Turn.paced, Session.drain, Turn.reading]

theorem gone_of_draining (h : InOrder watch s sent w) (stage : w.stage = .draining) :
    w.gone = false := by
  rw [← Bool.not_eq_true]
  intro gone
  cases stage.symm.trans (h.gone gone)

theorem look (h : InOrder watch s sent w) (stage : w.stage = .draining) :
    InOrder watch s sent (w.go watch) := by
  have working : w.stage ≠ .returned := by simp [stage]
  have session := h.session
  have goesOn := h.goesOn working
  have gone := h.gone_of_draining stage
  rw [if_neg working, gone] at session
  -- one case for each thing that a look can find
  cases waiting : w.channel.queue with
  | cons c queue =>
    rw [go_command stage waiting]
    refine of_working working ?_ ?_ h.spans h.reading goesOn h.gone
    · rw [← h.received, waiting]
      simp [obeyed]
    · simp [session, gone, Session.drain]
  | nil =>
    cases connected : w.channel.connected with
    | true =>
      rw [go_empty stage waiting connected]
      refine of_working (by simp) h.received ?_ h.spans h.reading goesOn fun _ => rfl
      rw [session, gone]
    | false =>
      rw [go_disconnected stage waiting connected]
      refine of_working (by simp) h.received ?_ h.spans h.reading goesOn fun _ => rfl
      simp [session, Session.drain]

theorem pass (unset : s.console.quitting = false) (h : InOrder watch s sent w)
    (stage : w.stage = .advancing) : InOrder watch s sent (w.go watch) := by
  have working : w.stage ≠ .returned := by simp [stage]
  have goesOn := h.goesOn working
  -- the turn that is over now is the one in which time passes
  have ended : w.session.advance (watch.keys w.turns.length) (w.span watch) =
      s.past (watch.reading 0) (w.turns ++ [w.turn watch]) := by
    rw [h.session, if_neg working, Session.past_concat, h.reading]
    rfl
  have quitting : (s.past (watch.reading 0) (w.turns ++ [w.turn watch])).console.quitting =
      (w.turn watch).closes := by
    have earlier : w.turns.any Turn.closes = false := by simpa using goesOn
    rw [(s.past_orders _ _).2, unset, List.any_append, earlier]
    simp
  have received : (w.turns ++ [w.turn watch]).flatMap Turn.received ++ w.channel.queue = sent := by
    rw [← h.received, List.flatMap_append]
    simp [obeyed, turn]
  have spans : (Turn.paced (watch.reading 0) (w.turns ++ [w.turn watch])).map Prod.snd =
      (List.range (w.turns ++ [w.turn watch]).length).map fun k =>
        watch.reading (k + 1) - watch.reading k := by
    rw [Turn.paced_concat, List.map_append, h.spans, h.reading, List.length_append,
      List.length_singleton, List.range_succ, List.map_append]
    rfl
  have reading : Turn.reading (watch.reading 0) (w.turns ++ [w.turn watch]) =
      watch.reading (w.turns ++ [w.turn watch]).length := by
    simp [Turn.reading, turn]
  rw [go_advance stage, ended, enter, quitting]
  cases closes : (w.turn watch).closes with
  | false =>
    refine of_working (by simp) (by simpa [obeyed] using received) rfl spans reading ?_ (by simp)
    simpa [or_imp, forall_and, closes] using goesOn
  | true =>
    exact {
      received := by simpa [obeyed] using received
      session := rfl
      spans
      reading
      early := by simpa using goesOn
      returned := by simp [closes]
      idle := fun _ => rfl
      gone := by simp }

theorem go (unset : s.console.quitting = false) (h : InOrder watch s sent w) :
    InOrder watch s sent (w.go watch) := by
  cases stage : w.stage with
  | draining => exact h.look stage
  | advancing => exact h.pass unset stage
  | returned => rwa [go_returned stage]

theorem move (unset : s.console.quitting = false) (h : InOrder watch s sent w) (move : Move) :
    InOrder watch s (sent ++ Move.sent w.channel.connected [move]) (w.move watch move) := by
  cases move with
  | send c =>
    refine { h with received := ?_ }
    rw [← h.received, Service.move, Channel.send]
    cases w.channel.connected <;> simp [obeyed, Move.sent]
  | leave => exact { h with received := h.received.trans (List.append_nil _).symm }
  | go => exact (List.append_nil sent).symm ▸ h.go unset

theorem after (unset : s.console.quitting = false) (h : InOrder watch s sent w)
    (moves : List Move) :
    InOrder watch s (sent ++ Move.sent w.channel.connected moves) (w.after watch moves) := by
  induction moves generalizing w sent with
  | nil => exact (List.append_nil sent).symm ▸ h
  | cons m moves ih =>
    rw [sent_cons watch w m moves, ← List.append_assoc]
    exact ih (h.move unset m)

theorem obeyed_of_returned (h : InOrder watch s sent w) (returned : w.stage = .returned) :
    w.obeyed = w.turns.flatMap Turn.received := by
  rw [obeyed, h.idle returned, List.append_nil]

theorem commands (h : InOrder watch s sent w) : w.session.commands = s.commands ++ w.obeyed := by
  have past := (s.past_orders (watch.reading 0) w.turns).1
  rw [h.session]
  split
  · next stage =>
    rw [Session.commands_note, past, h.obeyed_of_returned stage]
    exact List.append_nil _
  · rw [(Session.drain_orders _ _ _ _).1, past, obeyed, List.append_assoc]

theorem console_of_paused (h : InOrder watch s sent w) (returned : w.stage = .returned) {t : Turn}
    (turns : w.turns = [t]) (paused : (s.drain t.keys t.received t.gone).console.paused = true) :
    w.session.console = (s.drain t.keys t.received t.gone).console := by
  rw [h.session, if_pos returned, turns, Session.past_of_paused _ paused, Session.console_note]

theorem quitting_of_returned (h : InOrder watch s sent w) (returned : w.stage = .returned) :
    w.session.console.quitting = true := by
  obtain ⟨t, ht, closes⟩ := h.returned.1 returned
  have closed : w.turns.any Turn.closes = true := List.any_eq_true.2 ⟨t, ht, closes⟩
  rw [h.session, if_pos returned, Session.console_note, (s.past_orders _ _).2, closed, Bool.or_true]

theorem run (unset : s.console.quitting = false) (h : InOrder watch s sent w) :
    w.session =
      if w.stage = .returned then s.run (watch.reading 0) w.turns
      else (s.run (watch.reading 0) w.turns).drain (watch.keys w.turns.length) w.received
        w.gone := by
  rw [h.session]
  split
  · next stage =>
    obtain ⟨t, ht, closes⟩ := h.returned.1 stage
    obtain nil | ⟨ts, u, turns⟩ := w.turns.eq_nil_or_concat'
    · simp [nil] at ht
    have early : ∀ t ∈ ts, t.closes = false := by simpa [turns] using h.early
    -- so the turn that closed is the last one
    have last : u.closes = true := by
      rw [turns, List.mem_append, List.mem_singleton] at ht
      rcases ht with ht | rfl
      · simp [early t ht] at closes
      · exact closes
    rw [turns]
    exact (s.run_of_closes unset _ early last []).symm
  · next working => rw [s.run_of_goesOn unset _ (h.goesOn working)]

end InOrder

theorem after_turn (watch : Watch) {w : Service} (stage : w.stage = .draining)
    (gone : w.gone = false) :
    let v := w.after watch (List.replicate (w.channel.queue.length + 2) .go)
    v.turns = w.turns ++ [{
      received := w.received ++ w.channel.queue
      gone := !w.channel.connected
      now := watch.reading (w.turns.length + 1)
      keys := watch.keys w.turns.length }] ∧ v.channel.queue = [] := by
  intro v
  -- each command that waits takes one move, and two more end the turn
  obtain ⟨queue, waiting⟩ : ∃ queue, w.channel.queue = queue := ⟨_, rfl⟩
  induction queue generalizing w with
  | nil =>
    have two : v = (w.go watch).go watch := by
      simp only [v, waiting]
      rfl
    cases connected : w.channel.connected with
    | true =>
      rw [two, go_empty stage waiting connected, go_advance rfl, waiting]
      simp [turns_enter, channel_enter, turn, waiting, gone]
    | false =>
      rw [two, go_disconnected stage waiting connected, go_advance rfl, waiting]
      simp [turns_enter, channel_enter, turn, waiting]
  | cons c queue ih =>
    have one : v = (w.go watch).after watch (List.replicate (queue.length + 2) .go) := by
      simp only [v, waiting]
      rfl
    rw [one, go_command stage waiting, waiting]
    have rest := ih (w := { w with
      session := w.session.obey (watch.keys w.turns.length) c
      channel := { w.channel with queue }
      received := w.received ++ [c] }) stage gone rfl
    simpa using rest

theorem after_of_returned (watch : Watch) {w : Service} (stage : w.stage = .returned)
    (moves : List Move) :
    let v := w.after watch moves
    v.session = w.session ∧ v.obeyed = w.obeyed ∧
      v.channel.queue = w.channel.queue ++ Move.sent w.channel.connected moves := by
  induction moves generalizing w with
  | nil => exact ⟨rfl, rfl, (List.append_nil _).symm⟩
  | cons m moves ih =>
    have first : (w.move watch m).session = w.session ∧ (w.move watch m).obeyed = w.obeyed ∧
        (w.move watch m).stage = .returned ∧ (w.move watch m).channel.queue =
          w.channel.queue ++ Move.sent w.channel.connected [m] := by
      cases m with
      | send c =>
        refine ⟨rfl, rfl, stage, ?_⟩
        cases h : w.channel.connected <;> simp [move, Channel.send, Move.sent, h]
      | leave => exact ⟨rfl, rfl, stage, (List.append_nil _).symm⟩
      | go =>
        rw [move, go_returned stage]
        exact ⟨rfl, rfl, stage, (List.append_nil _).symm⟩
    obtain ⟨session, obeyed, returned, queue⟩ := first
    obtain ⟨laterSession, laterObeyed, laterQueue⟩ := ih returned
    rw [queue, List.append_assoc, ← sent_cons] at laterQueue
    exact ⟨laterSession.trans session, laterObeyed.trans obeyed, laterQueue⟩

theorem sum_spans {watch : Watch} (rising : ∀ k, watch.reading k ≤ watch.reading (k + 1))
    (n : Nat) : watch.reading 0 + ((List.range n).map fun k =>
      watch.reading (k + 1) - watch.reading k).sum = watch.reading n := by
  induction n with
  | zero => rfl
  | succ n ih =>
    have next := rising n
    rw [List.range_succ, List.map_append, List.sum_append, ← Nat.add_assoc, ih]
    simp only [List.map_cons, List.map_nil, List.sum_singleton]
    omega

theorem queue_of_go {watch : Watch} {w : Service} (stage : w.stage = .draining)
    (ended : (w.go watch).stage ≠ .draining) : w.channel.queue = [] := by
  cases waiting : w.channel.queue with
  | nil => rfl
  | cons c queue =>
    rw [go_command stage waiting] at ended
    exact absurd stage ended

/-- Whatever is sent and whenever, each command is obeyed once and in its place, or still waits. In
each turn time passes once, after the commands, and in all turns together as much as the clock says. A
turn receives all that waits, also behind a command to quit. The session returns with the first turn
in which it is told to quit or finds that all have left, and takes up nothing from then on. What the
commands of a turn make of the session is what they make of it one after the other, and what time makes
of it are the beats that fall due. A reset that fails is noted, and changes nothing of this. -/
theorem commands_are_obeyed_in_order (s : Session) (unset : s.console.quitting = false)
    (channel : Channel) (watch : Watch)
    (rising : ∀ k, watch.reading k ≤ watch.reading (k + 1)) (moves : List Move) :
    let w := (start s channel).after watch moves
    InOrder watch s (channel.queue ++ Move.sent channel.connected moves) w ∧
    w.session.commands = s.commands ++ w.obeyed ∧
    (w.session =
      if w.stage = .returned then s.run (watch.reading 0) w.turns
      else (s.run (watch.reading 0) w.turns).drain (watch.keys w.turns.length) w.received
        w.gone) ∧
    watch.reading 0 + ((Turn.paced (watch.reading 0) w.turns).map Prod.snd).sum =
      watch.reading w.turns.length ∧
    (w.stage = .draining →
      ((w.go watch).stage ≠ .draining → w.channel.queue = []) ∧
      let v := w.after watch (List.replicate (w.channel.queue.length + 2) .go)
      v.turns = w.turns ++ [{
        received := w.received ++ w.channel.queue
        gone := !w.channel.connected
        now := watch.reading (w.turns.length + 1)
        keys := watch.keys w.turns.length }] ∧
      v.channel.queue = [] ∧
      (v.stage = .returned ↔
        .quit ∈ w.received ++ w.channel.queue ∨ w.channel.connected = false)) ∧
    (w.stage = .returned →
      (∀ last turns, w.session.run last turns = w.session.note .stopped) ∧
      ∀ channel watch moves,
        let v := (start w.session channel).after watch moves
        v.session = w.session.note .stopped ∧ v.obeyed = [] ∧
          v.channel.queue = channel.queue ++ Move.sent channel.connected moves) ∧
    (∀ (t : Session) keys (received : List Command) gone,
      let heeded := received.foldl (Console.heed keys) (t.console, t.dice)
      (t.drain keys received gone).console =
          { heeded.1 with quitting := heeded.1.quitting || gone } ∧
        (t.drain keys received gone).dice = heeded.2) ∧
    (∀ (t : Session) keys span, t.advance keys span =
      if t.console.running && !t.console.paused then
        let passed := t.console.clock.pass t.console.pace span #[]
        let u := passed.2.toList.foldl (fun u b => match b with
          | .tick => u.countDown
          | .batch => ((Session.cycle keys)^[t.console.pace.batchSize] u).handOut) t
        { u with console := { u.console with clock := passed.1 } }
      else t) ∧
    ∀ (t t' : Session) keys c,
      (t.apply keys c = (t', none) → t.obey keys c = t') ∧
      ∀ e, t.apply keys c = (t', some e) →
        c = .reset ∧ t.console.source.fetch.1 = .error e ∧
        t.obey keys c = t'.note (.commandFailed c e) ∧
        (t.obey keys c).console.quitting = t.console.quitting := by
  intro w
  have inOrder : InOrder watch s (channel.queue ++ Move.sent channel.connected moves) w := by
    have started : InOrder watch s channel.queue (start s channel) := .start unset channel
    have worked := started.after unset moves
    rwa [channel_start] at worked
  refine ⟨inOrder, inOrder.commands, inOrder.run unset, ?_,
    fun stage => ⟨queue_of_go stage, ?_⟩, fun returned => ?_,
    fun t keys received gone => t.drain_eq_heed keys received gone,
    fun t keys span => t.advance_eq keys span, fun t t' keys c => ⟨?_, ?_⟩⟩
  · rw [inOrder.spans, sum_spans rising]
  · have working : w.stage ≠ .returned := by simp [stage]
    intro v
    obtain ⟨turns, queue⟩ := after_turn watch stage (inOrder.gone_of_draining stage)
    have still : InOrder watch s _ v := inOrder.after unset _
    refine ⟨turns, queue, still.returned.trans ?_⟩
    have goesOn : w.turns.any Turn.closes = false := by simpa using inOrder.goesOn working
    rw [← List.any_eq_true, turns, List.any_append, goesOn]
    simp [Turn.closes]
  · have quitting := inOrder.quitting_of_returned returned
    refine ⟨w.session.run_of_quitting quitting, fun channel watch moves => ?_⟩
    have left : start w.session channel =
        { session := w.session.note .stopped, channel, stage := .returned } := by
      rw [start, enter, quitting, if_pos rfl]
    rw [left]
    exact after_of_returned watch rfl moves
  · intro done
    rw [Session.obey, done]
  · intro e failed
    obtain ⟨reset, missing⟩ := (t.apply_snd keys c e).1 (congrArg Prod.snd failed)
    refine ⟨reset, missing, by rw [Session.obey, failed], ?_⟩
    rw [(t.obey_orders keys c).2, reset]
    exact Bool.or_false _

theorem afresh_counter {c : Console} (fetched : c.source.fetch.1 = .ok Session.counter) :
    c.afresh.loaded = true ∧ c.afresh.paused = false ∧ c.afresh.machine.Counted 0x200 0 := by
  have memory (address : Nat) (h : address < Memory.size) : c.afresh.machine.memory.read address =
      .ok (Memory.fresh Session.counter address) := by
    have read := Session.read_reset (s := { console := c }) fetched (by decide) h
    rwa [Session.console_reset] at read
  rw [Console.afresh, fetched] at memory ⊢
  exact ⟨rfl, rfl, fun address h => memory address h, rfl, rfl⟩

theorem heed_counter {c : Console} (fetched : c.source.fetch.2.fetch.1 = .ok Session.counter)
    (dice : Dice) (keys : Keypad) :
    let cs := [.reset, .reset, .togglePause, .step, .quit, .step]
    let d := (cs.foldl (Console.heed keys) (c, dice)).1
    d.paused = true ∧ d.machine.Counted 0x204 1 := by
  have unmarked {m : Machine} {pc : UInt16} {v : UInt8} (h : m.Counted pc v) :
      Machine.Counted { m with redraw := false } pc v := ⟨h.memory, h.pc, h.count⟩
  intro cs
  rw [← Console.source_afresh] at fetched
  obtain ⟨loaded, paused, fresh⟩ := afresh_counter fetched
  have counted := (unmarked fresh).add ⟨keys, dice.top⟩
  have drawn := ((unmarked counted).draw ⟨keys, dice.next.top⟩).1
  simp only [cs, List.foldl_cons, List.foldl_nil, Console.heed, Console.handedOut, loaded, paused,
    if_true]
  exact ⟨rfl, unmarked drawn⟩

theorem commands_are_obeyed_in_order_counting :
    let s := Session.start (.initial {}) ⟨.error .missingFile, [.ok Session.counter]⟩ .standard
    let watch : Watch := { reading := fun k => 1000 * k }
    let queue : List Command := [.reset, .reset, .togglePause, .step, .quit, .step]
    let w := (start s { queue }).after watch (List.replicate 8 .go)
    w.stage = .returned ∧ w.turns.length = 1 ∧ w.session.commands = queue ∧
      w.session.console.paused = true ∧ w.session.console.machine.pc = 0x204 ∧
      w.session.console.machine.register 0 = 1 := by
  intro s watch queue w
  have rising (k : Nat) : watch.reading k ≤ watch.reading (k + 1) := by
    simp only [watch]
    omega
  have waiting : ((start s { queue }).after watch []).channel.queue.length + 2 = 8 := rfl
  have whole : ((start s { queue }).after watch []).after watch (List.replicate 8 .go) = w := rfl
  obtain ⟨-, -, -, -, draining, -⟩ := commands_are_obeyed_in_order s rfl { queue } watch rising []
  obtain ⟨-, turns, -, ending⟩ := draining rfl
  rw [waiting, whole] at turns ending
  have turns : w.turns = [{ received := queue, gone := false, now := 1000 }] := turns
  have returned : w.stage = .returned := ending.2 (.inl (show .quit ∈ queue by simp [queue]))
  obtain ⟨inOrder, commands, -, -, -, -, heeded, -⟩ :=
    commands_are_obeyed_in_order s rfl { queue } watch rising (List.replicate 8 .go)
  have again : (start s { queue }).after watch (List.replicate 8 .go) = w := rfl
  rw [again] at inOrder commands
  have silent : s.commands = [] := rfl
  have later : s.console.source.fetch.2.fetch.1 = .ok Session.counter := rfl
  obtain ⟨console, -⟩ := heeded s .released queue false
  -- nothing more is to be evaluated, for a memory is large
  clear_value w s
  have obeyed : w.obeyed = queue := by
    rw [inOrder.obeyed_of_returned returned, turns]
    rfl
  obtain ⟨paused, counted⟩ := heed_counter later s.dice .released
  have drained : (s.drain .released queue false).console.paused = true := by
    rw [console]
    exact paused
  rw [inOrder.console_of_paused returned turns drained, console]
  refine ⟨returned, by rw [turns]; rfl, ?_, paused, counted.pc, counted.count⟩
  rw [commands, obeyed, silent, List.nil_append]

end Service

end Chip8
