namespace Chip8

inductive Command : Type
  | start : Command
  | togglePause : Command
  | reset : Command
  | step : Command
  | quit : Command
  deriving DecidableEq, Repr

def Command.name : Command → String
  | .start => "Start"
  | .togglePause => "TogglePause"
  | .reset => "Reset"
  | .step => "Step"
  | .quit => "Quit"

end Chip8
