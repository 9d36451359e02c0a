import Chip8.CommandLine.Grammar
import Chip8.Decimal.Reading
import Chip8.Dialect
import Chip8.Pace

namespace Chip8

structure Settings where
  dialect : Dialect := {}
  pace : Pace := .standard
  deriving DecidableEq

namespace Settings

open CommandLine

def grammar : Grammar where
  flags := ["shift-vx-is-vy", "jump-with-offset-legacy", "store-increment-ir", "no-sprite-wrap"]
  options := ["batch-size", "batch-rate", "timer-rate"]
  operands := 0

def count? (s : String) : Option Nat := do
  let n ← Numeral.nat? s
  if n < UInt64.size then some n else none

def rate? (s : String) : Option Rate := do
  let n ← Numeral.nat? s
  if h : 0 < n ∧ n < UInt32.size then some ⟨n, h.1⟩ else none

def dialectOf (a : Arguments) : Except UsageError Dialect := do
  let shiftReadsY ← a.flag "shift-vx-is-vy"
  let jumpAddsV0 ← a.flag "jump-with-offset-legacy"
  let transferMovesIndex ← a.flag "store-increment-ir"
  let spritesCut ← a.flag "no-sprite-wrap"
  return { shiftReadsY, jumpAddsV0, transferMovesIndex, spritesWrap := !spritesCut }

def paceOf (a : Arguments) : Except UsageError Pace := do
  let batchSize ← a.option "batch-size" count? Pace.standard.batchSize
  let batchRate ← a.option "batch-rate" rate? Pace.standard.batchRate
  let tickRate ← a.option "timer-rate" rate? Pace.standard.tickRate
  return { batchSize, batchRate, tickRate }

def ofArguments (a : Arguments) : Except UsageError Settings := do
  let dialect ← dialectOf a
  let pace ← paceOf a
  return { dialect, pace }

def ofWords (words : List String) : Except UsageError Settings := do
  ofArguments (← grammar.read words)

end Settings

structure HeadlessSettings where
  file : String
  seconds : Binary64
  machine : Settings
  deriving DecidableEq

namespace HeadlessSettings

open CommandLine

def grammar : Grammar where
  flags := Settings.grammar.flags
  options := "seconds" :: Settings.grammar.options
  operands := 1

def defaultSeconds : Binary64 := .ofDecimal false 5 0

def ofWords (words : List String) : Except UsageError HeadlessSettings := do
  let a ← grammar.read words
  let seconds ← a.option "seconds" Numeral.binary64? defaultSeconds
  return { file := a.operands.headD "", seconds, machine := ← Settings.ofArguments a }

end HeadlessSettings

structure TerminalSettings where
  file : String
  hexKeys : Bool
  machine : Settings
  deriving DecidableEq

namespace TerminalSettings

open CommandLine

def grammar : Grammar where
  flags := "hex-keys" :: Settings.grammar.flags
  options := Settings.grammar.options
  operands := 1

def ofWords (words : List String) : Except UsageError TerminalSettings := do
  let a ← grammar.read words
  let hexKeys ← a.flag "hex-keys"
  return { file := a.operands.headD "", hexKeys, machine := ← Settings.ofArguments a }

end TerminalSettings

end Chip8
