import Chip8.Session.Control

namespace Chip8

structure Turn where
  received : List Command
  gone : Bool := false
  now : Nat
  keys : Keypad := .released

namespace Session

/-- Carries out a command. A failure is noted and goes no further. -/
def obey (keys : Keypad) (s : Session) (c : Command) : Session :=
  match s.apply keys c with
  | (s, none) => s
  | (s, some e) => s.note (.commandFailed c e)

def abandon (s : Session) : Session :=
  { s.note .controllerGone with console := { s.console with quitting := true } }

def turn (last : Nat) (s : Session) (t : Turn) : Session :=
  let s := t.received.foldl (obey t.keys) s
  let s := if t.gone then s.abandon else s
  s.advance t.keys (t.now - last)

/-- Takes turns until told to quit, from a clock reading of `last`. -/
def run (s : Session) (last : Nat) (turns : List Turn) : Session :=
  if s.console.quitting then s.note .stopped
  else match turns with
    | [] => s
    | t :: ts => (s.turn last t).run t.now ts

end Session

end Chip8
