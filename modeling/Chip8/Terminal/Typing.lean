import Chip8.Terminal.Key

namespace Chip8.Terminal

inductive Reading : Type
  | incomplete : Reading
  | ignored : Reading
  | key : Key → Reading
  deriving DecidableEq, Repr

namespace Reading

def encodedLength? (first : UInt8) : Option Nat :=
  if first < 0x80 then some 1
  else if first < 0xC0 then none
  else if first < 0xE0 then some 2
  else if first < 0xF0 then some 3
  else if first < 0xF8 then some 4
  else none

def ofEncoded (first : UInt8) (rest : List UInt8) : Reading :=
  match String.fromUTF8? ⟨(first :: rest).toArray⟩ with
  | some s =>
    match s.toList with
    | c :: _ => .key (.char c)
    | [] => .ignored
  | none =>
    match encodedLength? first with
    | some length =>
      if rest.length + 1 < length ∧ rest.all (fun b => b &&& 0xC0 = 0x80) then .incomplete
      else .ignored
    | none => .ignored

def ofPlain (first : UInt8) (rest : List UInt8) : Reading :=
  if first = 0x0D then .key .enter
  else if first = 0x09 then .key (.named "Tab")
  else if first = 0x7F then .key (.named "Backspace")
  else if 0x01 ≤ first ∧ first ≤ 0x1A then .key (.char (Char.ofNat (first.toNat + 0x60)))
  else if 0x1C ≤ first ∧ first ≤ 0x1F then .key (.char (Char.ofNat (first.toNat + 0x18)))
  else ofEncoded first rest

def isDigit (b : UInt8) : Bool := 0x30 ≤ b && b ≤ 0x39

def sequenceEnds : List UInt8 → Bool
  | [] => false
  | 0x5B :: rest => !rest.isEmpty
  | 0x4D :: rest => 3 ≤ rest.length
  | 0x3C :: rest => rest.getLast? = some 0x4D || rest.getLast? = some 0x6D
  | b :: rest => !isDigit b || rest.getLast?.any fun last => 0x40 ≤ last && last ≤ 0x7E

/-- A key whose bytes start with an escape. An escape alone is the escape key only if no more bytes
are waiting. -/
def ofEscaped (more : Bool) : List UInt8 → Reading
  | [] => if more then .incomplete else .key .escape
  | 0x1B :: _ => .key .escape
  | [0x4F] => .incomplete
  | 0x4F :: _ => .ignored
  | 0x5B :: rest => if sequenceEnds rest then .ignored else .incomplete
  | b :: rest => ofEncoded b rest

def ofBytes (more : Bool) : List UInt8 → Reading
  | [] => .incomplete
  | 0x1B :: rest => ofEscaped more rest
  | b :: rest => ofPlain b rest

end Reading

/-- Reads one byte after those that are pending. Gives the bytes still pending, and the key that is
complete. -/
def readByte (pending : List UInt8) (b : UInt8) (more : Bool) : List UInt8 × Option Key :=
  let bytes := pending ++ [b]
  match Reading.ofBytes more bytes with
  | .incomplete => (bytes, none)
  | .ignored => ([], none)
  | .key k => ([], some k)

def readBytes (pending : List UInt8) : List UInt8 → List UInt8 × List Key
  | [] => (pending, [])
  | b :: bs =>
    let (pending, key) := readByte pending b !bs.isEmpty
    let (pending, keys) := readBytes pending bs
    (pending, key.toList ++ keys)

end Chip8.Terminal
