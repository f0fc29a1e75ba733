import ComposeGuards.Bytecode.Index

/-! # Method bodies

A body is a sequence of instructions addressed by position. A label stands where it is defined
first. Searches for an executable instruction pass over markers and over nothing else.
-/
namespace ComposeGuards

abbrev Body := List Instruction

namespace Body

def firstPosition? (b : Body) : Option Nat :=
  if b.isEmpty then none else some 0

def lastPosition? (b : Body) : Option Nat :=
  if b.isEmpty then none else some (b.length - 1)

/-- The position after the given one, markers included. -/
def next? (b : Body) (i : Nat) : Option Nat :=
  if i + 1 < b.length then some (i + 1) else none

/-- The instructions with the index of their labels. -/
def indexed (b : Body) : IndexedBody :=
  .ofInstructions b

/-- Where the label is defined first. -/
def position? (b : Body) (l : Label) : Option Nat :=
  b.indexed.position? l

/-- The positions from `start` on that hold an executable instruction, in order. -/
def realFrom (b : Body) (start : Nat) : List Nat :=
  (b.indexed.realFrom start).map Prod.snd

/-- The first position from `start` on that holds an executable instruction. -/
def firstReal? (b : Body) (start : Nat) : Option Nat :=
  (b.indexed.firstReal? start).map Prod.snd

/-- Whether the instruction at the position carries the opcode. -/
def hasOpcodeAt (b : Body) (m : Mnemonic) (i : Nat) : Bool :=
  b[i]?.any (·.hasOpcode m)

/-- The target, if the instruction at the position is a jump on that opcode. -/
def jumpAt? (b : Body) (m : Mnemonic) (i : Nat) : Option Label :=
  b[i]?.bind (·.jumpTarget? (.named m))

/-- The labels that are referred to and defined nowhere, increasing and without repetition. -/
def undefinedLabels (b : Body) : List Label :=
  b.indexed.undefinedLabels

/-- The same body with a named opcode wherever the byte has a name. -/
def normalize (b : Body) : Body :=
  b.map Instruction.normalize

end Body
end ComposeGuards
