import Chip8.Command
import Chip8.Instruction.Mnemonic
import Chip8.Keypad
import Chip8.Memory
import Chip8.ProgramSource

namespace Chip8

inductive Level : Type
  | trace : Level
  | debug : Level
  | info : Level
  | warn : Level
  | error : Level
  deriving DecidableEq, Repr

inductive Note : Type
  | resetting : Note
  | loaded : (length : Nat) → Note
  | misfit : Memory.Misfit → Note
  | fault : Fault → Note
  | executing : (pc : UInt16) → (opcode : Word) → Instruction → Note
  | skipping : (target : UInt16) → Note
  | returning : (target : UInt16) → Note
  | calling : (target back : UInt16) → Note
  | gotKey : (key : UInt8) → Note
  | delaySet : (value : UInt8) → Note
  | soundSet : (value : UInt8) → Note
  | unknownKey : (key : UInt8) → Note
  | startRefused : Note
  | started : Note
  | paused : Note
  | resumed : Note
  | stepRefused : Note
  | gotCommand : Command → Note
  | commandFailed : Command → FetchError → Note
  | controllerGone : Note
  | stopped : Note
  deriving DecidableEq, Repr

namespace Note

def level : Note → Level
  | .resetting => .info
  | .loaded _ => .info
  | .misfit _ => .debug
  | .fault _ => .warn
  | .executing _ _ _ => .trace
  | .skipping _ => .debug
  | .returning _ => .debug
  | .calling _ _ => .debug
  | .gotKey _ => .debug
  | .delaySet _ => .debug
  | .soundSet _ => .debug
  | .unknownKey _ => .warn
  | .startRefused => .warn
  | .started => .info
  | .paused => .info
  | .resumed => .info
  | .stepRefused => .warn
  | .gotCommand _ => .debug
  | .commandFailed _ _ => .error
  | .controllerGone => .info
  | .stopped => .info

def text : Note → String
  | .resetting => "Resetting emulator"
  | .loaded length =>
    "Loaded " ++ toString length ++ " bytes at " ++ Hex.marked 3 Memory.programStart
  | .misfit block =>
    "Rejected copy of " ++ toString block.length ++ " bytes to " ++ Hex.marked 3 block.address
      ++ ", at most " ++ toString block.room ++ " bytes fit"
  | .fault f => f.message
  | .executing pc opcode i =>
    Hex.marked 3 pc.toNat ++ ": " ++ Hex.upper 4 opcode.toNat ++ "  " ++ i.mnemonic
  | .skipping target => "Skipping instruction at " ++ Hex.marked 3 target.toNat
  | .returning target => "Returning to " ++ Hex.marked 3 target.toNat
  | .calling target back =>
    "Calling " ++ Hex.marked 3 target.toNat ++ ", returning to " ++ Hex.marked 3 back.toNat
  | .gotKey key => "Got key " ++ Hex.marked 1 key.toNat
  | .delaySet value => "Delay timer set to " ++ toString value.toNat
  | .soundSet value => "Sound timer set to " ++ toString value.toNat
  | .unknownKey key => "Ignoring state of unknown key " ++ Hex.marked 1 key.toNat
  | .startRefused => "No program loaded, not starting"
  | .started => "Emulation started"
  | .paused => "Emulation paused"
  | .resumed => "Emulation resumed"
  | .stepRefused => "No program loaded, not stepping"
  | .gotCommand c => "Got command " ++ c.name
  | .commandFailed c e => "Could not " ++ c.name ++ ": " ++ e.message
  | .controllerGone => "Controller is gone, stopping"
  | .stopped => "Emulation stopped"

end Note

def Keypad.Write.notes : Keypad.Write → List Note
  | .set key _ => if key < 16 then [] else [.unknownKey key]
  | .releaseAll => []

end Chip8
