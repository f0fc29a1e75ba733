import ComposeGuards.Bytecode.Opcode

/-! # Instructions

Labels, line numbers and frames are markers without an opcode. Every other instruction carries one
opcode, and any opcode may stand in any form; only a listing insists on the form that the opcode's
operand kind prescribes.
-/
namespace ComposeGuards

/-- Label numbers. -/
abbrev Label := UInt32

def labelText (l : Label) : String :=
  "L" ++ toString l.toNat

/-- A field or method of a class, by owner, name and descriptor. -/
structure MemberRef where
  owner : String
  name : String
  desc : String
  deriving DecidableEq, Repr

inductive Instruction
  | label (id : Label)
  | lineNumber (line : UInt32) (start : Label)
  | frame
  | call (opcode : Opcode) (callee : MemberRef) (onInterface : Bool)
  | jump (opcode : Opcode) (target : Label)
  | slot (opcode : Opcode) (index : UInt16)
  | integer (opcode : Opcode) (value : Int32)
  | type (opcode : Opcode) (desc : String)
  | field (opcode : Opcode) (member : MemberRef)
  | constant (value : String)
  | plain (opcode : Opcode)
  deriving DecidableEq

/-- What an instruction does, whatever its operands. -/
inductive InstructionKind
  | call | jump | stackOp | marker | other
  deriving DecidableEq, Repr

namespace Instruction

def opcode? : Instruction → Option Opcode
  | label _ | lineNumber _ _ | frame => none
  | call o _ _ | jump o _ | slot o _ | integer o _ | type o _ | field o _ | plain o => some o
  | constant _ => some (.named .ldc)

/-- Markers have no effect at run time. -/
def isMarker (i : Instruction) : Bool :=
  i.opcode?.isNone

def isReal (i : Instruction) : Bool :=
  i.opcode?.isSome

/-- Whether the instruction carries the opcode, in whatever form. -/
def hasOpcode (m : Mnemonic) (i : Instruction) : Bool :=
  i.opcode?.any (·.is m)

def kind : Instruction → InstructionKind
  | call _ _ _ => .call
  | jump _ _ => .jump
  | plain o => if o.isStackOp then .stackOp else .other
  | label _ | lineNumber _ _ | frame => .marker
  | slot _ _ | integer _ _ | type _ _ | field _ _ | constant _ => .other

/-- The target, if this is a jump on an opcode with the same byte. -/
def jumpTarget? (expected : Opcode) : Instruction → Option Label
  | jump o target => if o.same expected then some target else none
  | _ => none

def callee? : Instruction → Option MemberRef
  | call _ callee _ => some callee
  | _ => none

/-- The label that the instruction puts into the body. -/
def defines? : Instruction → Option Label
  | label l => some l
  | _ => none

/-- The label that the instruction expects to find in the body. -/
def refersTo? : Instruction → Option Label
  | jump _ target => some target
  | lineNumber _ start => some start
  | _ => none

def isLabel (l : Label) (i : Instruction) : Bool :=
  i.defines? = some l

/-- The same instruction with a named opcode wherever the byte has a name. -/
def normalize : Instruction → Instruction
  | call o callee itf => call o.normalize callee itf
  | jump o target => jump o.normalize target
  | slot o index => slot o.normalize index
  | integer o value => integer o.normalize value
  | type o desc => type o.normalize desc
  | field o member => field o.normalize member
  | plain o => plain o.normalize
  | label l => label l
  | lineNumber line start => lineNumber line start
  | frame => frame
  | constant value => constant value

/-- Equality up to the form of the opcode. -/
def same (a b : Instruction) : Bool :=
  a.normalize = b.normalize

theorem isReal_eq_not_isMarker (i : Instruction) : i.isReal = !i.isMarker := by
  cases i <;> rfl

theorem isLabel_iff {l : Label} {i : Instruction} : i.isLabel l = true ↔ i = label l := by
  cases i <;> simp [isLabel, defines?]

theorem isMarker_label (l : Label) : (label l).isMarker = true := rfl

@[simp] theorem defines?_normalize (i : Instruction) : i.normalize.defines? = i.defines? := by
  cases i <;> rfl

@[simp] theorem refersTo?_normalize (i : Instruction) : i.normalize.refersTo? = i.refersTo? := by
  cases i <;> rfl

@[simp] theorem isMarker_normalize (i : Instruction) : i.normalize.isMarker = i.isMarker := by
  cases i <;> rfl

@[simp] theorem callee?_normalize (i : Instruction) : i.normalize.callee? = i.callee? := by
  cases i <;> rfl

end Instruction
end ComposeGuards
