import Chip8.Session.Basic

namespace Chip8.Session

def resume (s : Session) : Session :=
  if s.console.loaded then
    if s.console.running then s.present
    else ({ s with console := { s.console with running := true } }.note .started).present
  else s.note .startRefused

def togglePause (s : Session) : Session :=
  let paused := !s.console.paused
  let s := { s with console := { s.console with paused } }
  (s.note (if paused then .paused else .resumed)).present

/-- Everything back to the start, but for the program source and the quit mark. -/
def clear (s : Session) : Session :=
  let console := {
    s.console with
    machine := s.console.machine.reset
    loaded := false
    running := false
    paused := false
    clock := {} }
  ({ s with console }.note .resetting).present

/-- Copies a program in and lets it run. One that does not fit is only reported. -/
def insert (s : Session) (program : Array UInt8) : Session :=
  let o := s.console.machine.load program
  let s := s.accept o
  match o.fault with
  | none => { s with console := { s.console with loaded := true } }.resume
  | some _ => s.present

def reset (s : Session) : Session × Option FetchError :=
  let s := s.clear
  let (fetched, source) := s.console.source.fetch
  let s := { s with console := { s.console with source } }
  match fetched with
  | .ok program => (s.insert program, none)
  | .error e => (s, some e)

def changeSource (s : Session) (source : ProgramSource) : Session × Option FetchError :=
  { s with console := { s.console with source } }.reset

def step (s : Session) (keys : Keypad) : Session :=
  if s.console.loaded then (s.cycles keys 1).present
  else s.note .stepRefused

def beat (keys : Keypad) (s : Session) : Beat → Session
  | .tick => { s with console := { s.console with machine := s.console.machine.tick } }
  | .batch => (s.cycles keys s.console.pace.batchSize).present

/-- Lets time pass. Nothing happens unless the program runs and is not paused. -/
def advance (s : Session) (keys : Keypad) (span : Nat) : Session :=
  if s.console.running && !s.console.paused then
    let (clock, beats) := s.console.clock.pass s.console.pace span #[]
    let s := beats.foldl (beat keys) s
    { s with console := { s.console with clock } }
  else s

def apply (s : Session) (keys : Keypad) (c : Command) : Session × Option FetchError :=
  let s := s.note (.gotCommand c)
  match c with
  | .start => (s.resume, none)
  | .togglePause => (s.togglePause, none)
  | .reset => s.reset
  | .step => (s.step keys, none)
  | .quit => ({ s with console := { s.console with quitting := true } }, none)

end Chip8.Session
