import Chip8.Session.Basic

namespace Chip8.Terminal

inductive Stroke : Type
  | enterAlternate : Stroke
  | leaveAlternate : Stroke
  | hideCursor : Stroke
  | showCursor : Stroke
  | clearAll : Stroke
  | clearLine : Stroke
  | moveTo : (column row : Nat) → Stroke
  | print : (text : String) → Stroke
  deriving DecidableEq, Repr

namespace Stroke

/-- What a terminal is sent. It counts columns and rows from one. -/
def sequence : Stroke → String
  | .enterAlternate => "\x1b[?1049h"
  | .leaveAlternate => "\x1b[?1049l"
  | .hideCursor => "\x1b[?25l"
  | .showCursor => "\x1b[?25h"
  | .clearAll => "\x1b[2J"
  | .clearLine => "\x1b[2K"
  | .moveTo column row => "\x1b[" ++ toString (row + 1) ++ ";" ++ toString (column + 1) ++ "H"
  | .print text => text

def write (strokes : List Stroke) : String := String.join (strokes.map sequence)

end Stroke

namespace Drawing

def right : Nat := 2 * Screen.width + 1

def bottom : Nat := Screen.height + 1

def statusRow : Nat := bottom + 1

def frameChar? (x y : Nat) : Option Char :=
  if y = 0 then some (if x = 0 then '┏' else if x = right then '┓' else '━')
  else if y = bottom then some (if x = 0 then '┗' else if x = right then '┛' else '━')
  else if x = 0 ∨ x = right then some '┃'
  else none

def frame : List Stroke :=
  (List.range (bottom + 1)).flatMap fun y =>
    (List.range (right + 1)).flatMap fun x =>
      match frameChar? x y with
      | some c => [.moveTo x y, .print (String.singleton c)]
      | none => []

def opening : List Stroke := [.enterAlternate, .hideCursor, .clearAll] ++ frame

def rowText (cells : List Bool) : String :=
  String.ofList (cells.flatMap fun c => if c then ['█', '█'] else [' ', ' '])

def screen (s : Screen) : List Stroke :=
  s.rows.zipIdx.flatMap fun (cells, y) => [.moveTo 1 (y + 1), .print (rowText cells)]

def statusText (s : Status) : String :=
  (if s.paused then "PAUSED  n: step  p: resume" else "p: pause") ++ "  Enter: reset  Esc: quit"
    ++ match s.fault with
      | none => ""
      | some f => "  | " ++ f.message

def status (s : Status) : List Stroke :=
  [.moveTo 0 statusRow, .clearLine, .print (statusText s)]

def closing : List Stroke := [.leaveAlternate, .showCursor]

def event : Event → List Stroke
  | .note _ => []
  | .refresh s => screen s
  | .status s => status s

end Drawing

end Chip8.Terminal
