import Chip8.CommandLine.Settings
import Chip8.Decimal.Shortest
import Chip8.Session.Control

namespace Chip8.Headless

inductive Failure : Type
  | tooLong : (seconds : Binary64) → Failure
  | fetch : FetchError → Failure
  deriving DecidableEq, Repr

def Failure.message : Failure → String
  | .tooLong seconds =>
    "--seconds " ++ seconds.text
      ++ ": cannot convert float seconds to Duration: value is either too big or NaN"
  | .fetch e => e.message

def secondsLimit : Nat := UInt64.size

/-- A number of seconds as the nearest number of nanoseconds, where a half goes to the even one.
What lies before zero is no time at all. -/
def span (seconds : Binary64) : Except Failure Nat :=
  match seconds with
  | .nan => .ok 0
  | .infinite negative => if negative then .ok 0 else .error (.tooLong seconds)
  | .finite negative mantissa scale =>
    if negative then .ok 0
    else
      let units := mantissa * Nat.pow 2 scale
      if secondsLimit * Binary64.one ≤ units then .error (.tooLong seconds)
      else .ok (roundDiv (units * 1000000000) Binary64.one)

def registerList (registers : Vector UInt8 16) : String :=
  "[" ++ ", ".intercalate (registers.toList.map fun v => Hex.upper 2 v.toNat) ++ "]"

def registerLine (m : Machine) : String :=
  "PC=" ++ Hex.marked 3 m.pc.toNat ++ " I=" ++ Hex.marked 3 m.index.toNat
    ++ " V=" ++ registerList m.registers
    ++ " DT=" ++ toString m.delay.toNat ++ " ST=" ++ toString m.sound.toNat

def report (m : Machine) : String :=
  m.screen.toText ++ registerLine m ++ "\n"
    ++ match m.lastFault with
      | none => ""
      | some f => "Last fault: " ++ f.message ++ "\n"

def run (settings : HeadlessSettings) (program : Fetch) (dice : Dice) : Except Failure String := do
  let span ← span settings.seconds
  let machine := Machine.initial settings.machine.dialect
  let session := { Session.start machine { first := program } settings.machine.pace with dice }
  match session.reset with
  | (_, some e) => .error (.fetch e)
  | (session, none) => return report (session.advance .released span).console.machine

end Chip8.Headless
