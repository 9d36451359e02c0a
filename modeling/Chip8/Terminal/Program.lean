import Chip8.CommandLine.Settings
import Chip8.Session.Run
import Chip8.Terminal.Drawing
import Chip8.Terminal.Listener
import Chip8.Terminal.Typing
/-!
# The program on a terminal

A session whose events are drawn, and a listener that sends it commands and presses its keys, work
side by side. Here they are run by a script that says what is typed, and what has to be drawn before
the next thing is typed. Each event is drawn once, and so is the closing: what was there when a wait
was over is not seen again by a later one.
-/

namespace Chip8.Terminal

structure Step where
  typed : List UInt8
  awaited : Option String := none

structure Transcript where
  exitCode : Nat
  met : Bool
  written : String
  deriving DecidableEq, Repr

def Transcript.refused : Transcript := ⟨1, false, ""⟩

structure Program where
  session : Session
  listener : Listener
  failed : Bool
  pending : List UInt8 := []
  now : Nat := 0
  seen : Nat := 0

namespace Program

def ended (p : Program) : Bool := p.failed || p.session.console.quitting

def turn (span : Nat) (p : Program) (key : Option Key) : Program :=
  if p.ended then p
  else
    let now := p.now + span
    let (listener, command) := p.listener.turn ⟨key, now, now⟩
    let received := command.toList
    let session := p.session.turn p.now { received, now, keys := listener.keypad }
    { p with session, listener, now }

def type (p : Program) (bytes : List UInt8) : Program :=
  let (pending, keys) := readBytes p.pending bytes
  (keys.map some).foldl (turn 0) { p with pending }

def drawingCount (p : Program) : Nat := p.session.events.size + if p.ended then 1 else 0

def drawnSince (p : Program) (start : Nat) : String :=
  let strokes := (p.session.events.extract start).toList.flatMap Drawing.event
  Stroke.write (if start < p.drawingCount && p.ended then strokes ++ Drawing.closing else strokes)

def catchUp (p : Program) : Program := { p with seen := p.drawingCount }

def idleSpan : Nat := 1000000

def patience : Nat := 10000

/-- Lets time pass, for so many turns at most, until a text has been drawn. -/
def await (text : String) : Nat → Program → Program × Bool
  | 0, p => (p, false)
  | n + 1, p =>
    if (p.drawnSince p.seen).contains text then (p.catchUp, true)
    else if p.ended then (p, false)
    else await text n (p.turn idleSpan none)

def step (p : Program) (s : Step) : Program × Bool :=
  let typed := p.type s.typed
  match s.awaited with
  | none | some "" => (typed, true)
  | some text => typed.await text patience

def play (p : Program) : List Step → Program × Bool
  | [] => (p, true)
  | s :: ss =>
    let (p, met) := p.step s
    let (p, metLater) := p.play ss
    (p, met && metLater)

end Program

/-- Runs the program by a script. When no program can be fetched, it closes at once. -/
def run (settings : TerminalSettings) (program : Fetch) (dice : Dice) (script : List Step) :
    Transcript :=
  let machine := Machine.initial settings.machine.dialect
  let session := { Session.start machine { first := program } settings.machine.pace with dice }
  let layout := if settings.hexKeys then .hexadecimal else .positional
  let (session, error) := session.reset
  let failed := error.isSome
  let begun : Program := { session, listener := { layout }, failed }
  let (p, met) := begun.catchUp.play script
  { exitCode := if failed then 1 else 0
    met
    written := Stroke.write Drawing.opening ++ p.drawnSince 0 }

end Chip8.Terminal
