import Chip8.Headless

namespace Chip8

def FetchError.ofSystem : IO.Error → FetchError
  | .noFileOrDirectory .. => .missingFile
  | .permissionDenied _ _ details => ⟨.permissionDenied, details⟩
  | e => ⟨.other, toString e⟩

def readProgram (file : String) : IO Fetch := do
  try
    return .ok (← IO.FS.readBinFile file).data
  catch e =>
    return .error (.ofSystem e)

def usage : String :=
  "usage: chip8 FILE [--seconds SECONDS] [--batch-size COUNT] [--batch-rate HERTZ]\n" ++
  "  [--timer-rate HERTZ] [--shift-vx-is-vy] [--jump-with-offset-legacy]\n" ++
  "  [--store-increment-ir] [--no-sprite-wrap]"

def start (words : List String) : IO UInt32 := do
  match HeadlessSettings.ofWords words with
  | .error .helpAsked =>
    IO.println usage
    return 0
  | .error .versionAsked =>
    IO.println "chip8 1"
    return 0
  | .error e =>
    IO.eprintln ("error: " ++ e.message ++ "\n" ++ usage)
    return 1
  | .ok settings =>
    let program ← readProgram settings.file
    let seed ← IO.rand 0 (UInt64.size - 1)
    match Headless.run settings program (.seeded (UInt64.ofNat seed)) with
    | .error failure =>
      IO.eprintln ("Error: " ++ failure.message)
      return 1
    | .ok report =>
      IO.print report
      return 0

end Chip8

def main (args : List String) : IO UInt32 := Chip8.start args
