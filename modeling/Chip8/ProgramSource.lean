namespace Chip8

inductive FetchErrorKind : Type
  | notFound : FetchErrorKind
  | permissionDenied : FetchErrorKind
  | invalidData : FetchErrorKind
  | invalidInput : FetchErrorKind
  | other : FetchErrorKind
  deriving DecidableEq, Repr

structure FetchError where
  kind : FetchErrorKind
  message : String
  deriving DecidableEq, Repr

def FetchError.missingFile : FetchError :=
  ⟨.notFound, "No such file or directory (os error 2)"⟩

abbrev Fetch := Except FetchError (Array UInt8)

def Fetch.ofFile : Option (Array UInt8) → Fetch
  | some program => .ok program
  | none => .error .missingFile

/-- The results of one fetch after the other. The last one repeats. -/
structure ProgramSource where
  first : Fetch
  later : List Fetch := []

namespace ProgramSource

def ofProgram (program : Array UInt8) : ProgramSource := { first := .ok program }

def ofList : List Fetch → ProgramSource
  | [] => ofProgram #[]
  | f :: fs => ⟨f, fs⟩

def fetch (s : ProgramSource) : Fetch × ProgramSource :=
  match s.later with
  | [] => (s.first, s)
  | f :: fs => (s.first, ⟨f, fs⟩)

end ProgramSource

end Chip8
