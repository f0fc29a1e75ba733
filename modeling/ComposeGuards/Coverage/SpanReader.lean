import ComposeGuards.Bytecode.Instruction
import ComposeGuards.Coverage.Exclusions
import ComposeGuards.Json.Shape
import ComposeGuards.Json.Value

/-! # Positions, labels and spans in JSON

A position is a natural number of 64 bits and a label one of 32 bits. A span is an object with both
of its ends, or an array of the two in order.
-/
namespace ComposeGuards
open Json

def readPosition (cs : List Char) : Except Fault (Nat × List Char) :=
  readNatural UInt64.size "usize" cs

def readLabel (cs : List Char) : Except Fault (Label × List Char) := do
  let (n, cs) ← readNatural UInt32.size "u32" cs
  return (UInt32.ofNat n, cs)

namespace Span

/-- A span while an object is read: the ends that have occurred. -/
structure Reading where
  first? : Option Nat := none
  last? : Option Nat := none
  isFirst : Bool := true
  deriving DecidableEq, Repr

def firstKey : String := "start"

def lastKey : String := "end"

/-- Reads an end of the span, which must not have occurred before. -/
def readOnce (key : String) (before : Option Nat) (cs : List Char) :
    Except Fault (Option Nat × List Char) :=
  if before.isSome then .error (.mismatch (.duplicateField key))
  else do
    let cs ← readMark ':' cs
    let (n, cs) ← readPosition cs
    return (some n, cs)

/-- The span, if both ends have occurred. -/
def Reading.close (r : Reading) : Except Fault Span :=
  match r.first?, r.last? with
  | some first, some last => .ok ⟨first, last⟩
  | none, _ => .error (.mismatch (.missingField firstKey))
  | some _, none => .error (.mismatch (.missingField lastKey))

/-- Reads one member, or the end of the object. -/
def memberStep (r : Reading) (cs : List Char) :
    Except Fault ((Reading ⊕ Span) × List Char) := do
  let (key?, cs) ← readKey? r.isFirst cs
  match key? with
  | none => return (.inr (← r.close), cs)
  | some key =>
    if key = firstKey then
      let (first?, cs) ← readOnce key r.first? cs
      return (.inl { r with first?, isFirst := false }, cs)
    else if key = lastKey then
      let (last?, cs) ← readOnce key r.last? cs
      return (.inl { r with last?, isFirst := false }, cs)
    else
      let cs ← readMark ':' cs
      let cs ← skipValue cs
      return (.inl { r with isFirst := false }, cs)

/-- Reads an end of a span in an array, where `count` elements stand before it. -/
def readEnd (count : Nat) (cs : List Char) : Except Fault (Nat × List Char) := do
  match ← nextElement? (count = 0) cs with
  | none =>
    throw (.mismatch (.wrongLength count "struct ExclusionRange with 2 elements"))
  | some cs => readPosition cs

def read (cs : List Char) : Except Fault (Span × List Char) :=
  match skipBlank cs with
  | [] => .error .cutOff
  | '[' :: cs => do
    let (first, cs) ← readEnd 0 cs
    let (last, cs) ← readEnd 1 cs
    let cs ← readMark ']' cs
    return (⟨first, last⟩, cs)
  | '\x7b' :: cs => iterate memberStep {} cs
  | cs => .error (wrongType "struct ExclusionRange" cs)

/-- The span as written JSON. -/
def json (s : Span) : Json.Value :=
  .object [(firstKey, .natural s.first), (lastKey, .natural s.last)]

end Span
end ComposeGuards
