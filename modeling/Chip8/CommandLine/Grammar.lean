namespace Chip8

inductive UsageError : Type
  | helpAsked : UsageError
  | versionAsked : UsageError
  | unknownArgument : UsageError
  | missingOperand : UsageError
  | invalidValue : UsageError
  | repeatedOption : UsageError
  deriving DecidableEq, Repr

def UsageError.message : UsageError → String
  | .helpAsked => "help was asked for"
  | .versionAsked => "the version was asked for"
  | .unknownArgument => "there is an argument that means nothing here"
  | .missingOperand => "the file with the program is missing"
  | .invalidValue => "the value of an option cannot be read"
  | .repeatedOption => "an option is given more than once"

namespace CommandLine

/-- The words a program understands. Long names are written after two dashes. -/
structure Grammar where
  flags : List String
  options : List String
  operands : Nat

structure Arguments where
  named : List String := []
  values : List (String × String) := []
  operands : List String := []
  deriving DecidableEq, Repr

namespace Arguments

def mention (a : Arguments) (name : String) : Arguments := { a with named := a.named ++ [name] }

def give (a : Arguments) (name value : String) : Arguments :=
  { a with values := a.values ++ [(name, value)] }

def operand (a : Arguments) (word : String) : Arguments :=
  { a with operands := a.operands ++ [word] }

end Arguments

inductive Token : Type
  | separator : Token
  | long : (name : String) → (value : Option String) → Token
  | short : (letters : List Char) → Token
  | plain : Token
  deriving DecidableEq, Repr

def trimLeading (c : Char) (cs : List Char) : List Char := cs.dropWhile (· = c)

/-- A long word, without its dashes. The value starts after the first row of `=`. -/
def Token.ofLong (cs : List Char) : Token :=
  .long (String.ofList (cs.takeWhile (· ≠ '=')))
    (match cs.dropWhile (· ≠ '=') with
      | [] => none
      | rest => some (String.ofList (trimLeading '=' rest)))

def Token.ofString (s : String) : Token :=
  match s.toList with
  | ['-', '-'] => .separator
  | '-' :: '-' :: cs => .ofLong (trimLeading '-' cs)
  | '-' :: c :: cs => .short (c :: cs)
  | _ => .plain

def readLetters : List Char → UsageError
  | 'h' :: _ => .helpAsked
  | 'V' :: _ => .versionAsked
  | _ => .unknownArgument

namespace Grammar

def readLong (g : Grammar) (a : Arguments) (name : String) (value : Option String) :
    Except UsageError (Arguments × Option String) :=
  if name ∈ g.options then
    match value with
    | some v => .ok ((a.mention name).give name v, none)
    | none => .ok (a.mention name, some name)
  else if name ∈ g.flags then .ok (a.mention name, none)
  else if name = "help" then .error .helpAsked
  else if name = "version" then .error .versionAsked
  else .error .unknownArgument

def readOperand (g : Grammar) (a : Arguments) (word : String) : Except UsageError Arguments :=
  if a.operands.length < g.operands then .ok (a.operand word) else .error .unknownArgument

def readOperands (g : Grammar) (a : Arguments) : List String → Except UsageError Arguments
  | [] => .ok a
  | w :: ws => do g.readOperands (← g.readOperand a w) ws

def readWords (g : Grammar) (a : Arguments) (waiting : Option String) :
    List String → Except UsageError Arguments
  | [] => .ok a
  | w :: ws =>
    match Token.ofString w with
    | .separator => g.readOperands a ws
    | .long name value => do
      let (a, waiting) ← g.readLong a name value
      g.readWords a waiting ws
    | .short letters => .error (readLetters letters)
    | .plain =>
      match waiting with
      | some name => g.readWords (a.give name w) none ws
      | none => do g.readWords (← g.readOperand a w) none ws

def read (g : Grammar) (words : List String) : Except UsageError Arguments := do
  let a ← g.readWords {} none words
  if a.operands.length < g.operands then .error .missingOperand else return a

end Grammar

namespace Arguments

def flag (a : Arguments) (name : String) : Except UsageError Bool :=
  match a.named.count name with
  | 0 => .ok false
  | 1 => .ok true
  | _ => .error .repeatedOption

/-- The value of an option, or what stands for it when none is given. Every value has to be
readable, and the option can be given once. -/
def option (a : Arguments) (name : String) (read : String → Option α) (default : α) :
    Except UsageError α := do
  let values ← (a.values.filter (·.1 = name)).mapM fun (_, text) =>
    match read text with
    | some value => .ok value
    | none => .error .invalidValue
  if 1 < a.named.count name then .error .repeatedOption
  else return values.head?.getD default

end Arguments

end CommandLine

end Chip8
