import Chip8.Machine.Run
import Chip8.Session.Clock
/-!
# Sessions

A console is a machine with a place to get its program from, a clock, and what a controller has
decided about it. A session is a console in use: the random bytes that are still to come, and all
that has been put out so far.
-/

namespace Chip8

structure Status where
  paused : Bool
  fault : Option Fault
  deriving DecidableEq, Repr

structure Console where
  machine : Machine
  source : ProgramSource
  pace : Pace := .standard
  loaded : Bool := false
  running : Bool := false
  paused : Bool := false
  quitting : Bool := false
  clock : Clock := {}
  shown : Option Status := none

namespace Console

def status (c : Console) : Status := ⟨c.paused, c.machine.lastFault⟩

end Console

inductive Event : Type
  | note : Note → Event
  | refresh : Screen → Event
  | status : Status → Event
  deriving DecidableEq

structure Session where
  console : Console
  dice : Dice := default
  events : Array Event := #[]

namespace Session

/-- A session before anything has happened. Nothing runs until a reset has loaded the program. -/
def start (machine : Machine) (source : ProgramSource) (pace : Pace) : Session :=
  { console := { machine, source, pace } }

def note (s : Session) (n : Note) : Session := { s with events := s.events.push (.note n) }

def showScreen (s : Session) : Session :=
  let (redraw, machine) := s.console.machine.takeRedraw
  if redraw then
    { s with
      console := { s.console with machine }
      events := s.events.push (.refresh machine.screen) }
  else s

def showStatus (s : Session) : Session :=
  if s.console.shown = some s.console.status then s
  else
    { s with
      console := { s.console with shown := some s.console.status }
      events := s.events.push (.status s.console.status) }

def present (s : Session) : Session := s.showScreen.showStatus

def accept (s : Session) (o : Outcome) : Session :=
  { s with
    console := { s.console with machine := o.machine }
    events := s.events ++ o.notes.map Event.note }

def cycles (s : Session) (keys : Keypad) (count : Nat) : Session :=
  let r := Run.batch keys count ⟨s.console.machine, s.dice, #[]⟩
  { console := { s.console with machine := r.machine }
    dice := r.dice
    events := s.events ++ r.notes.map Event.note }

end Session

end Chip8
