import ComposeGuards.Bytecode.Instruction

/-! # Why a listing is refused

Causes are values; their wording is in `Fault.message` and `Error.message`. A fault says what is
wrong with one line, an error says where and in which text.
-/
namespace ComposeGuards.Listing

/-- What is wrong with the words of a line. -/
inductive Fault
  | missingClassName
  | unexpectedClassFlag
  | methodOutsideClass
  | missingMethodName
  | missingMethodDescriptor
  | missingAnnotationDescriptor
  | unknownRetention
  | emptyInstruction
  | wordsAfterLabel
  | invalidLineNumber
  | invalidLineLabel
  | invalidSlot
  | invalidInteger
  | missingType
  | invalidMember
  | missingColon
  | missingFieldDescriptor
  | missingCallDescriptor
  | wordsAfterDescriptor
  | invalidJumpLabel
  | missingConstant
  | trailingOperand
  deriving DecidableEq, Repr

def Fault.message : Fault → String
  | missingClassName => "missing class name"
  | unexpectedClassFlag => "unexpected class flag"
  | methodOutsideClass => "method outside of a class"
  | missingMethodName => "missing method name"
  | missingMethodDescriptor => "missing method descriptor"
  | missingAnnotationDescriptor => "missing annotation descriptor"
  | unknownRetention => "expected `visible` or `invisible`"
  | emptyInstruction => "empty instruction"
  | wordsAfterLabel => "unexpected tokens after label"
  | invalidLineNumber => "invalid line number"
  | invalidLineLabel => "invalid line number label"
  | invalidSlot => "invalid local variable index"
  | invalidInteger => "invalid integer operand"
  | missingType => "missing type operand"
  | invalidMember => "expected owner.name"
  | missingColon => "expected `:` before field descriptor"
  | missingFieldDescriptor => "missing field descriptor"
  | missingCallDescriptor => "missing method descriptor"
  | wordsAfterDescriptor => "unexpected tokens after descriptor"
  | invalidJumpLabel => "invalid jump label"
  | missingConstant => "missing LDC operand"
  | trailingOperand => "unexpected trailing operand"

/-- Why the text of an instruction is refused. -/
inductive InstructionError
  | fault (fault : Fault)
  | unknownMnemonic (word : String)
  deriving DecidableEq, Repr

def unknownMnemonicMessage (word : String) : String :=
  "unknown opcode mnemonic `" ++ word ++ "`"

/-- Lines count from one; `raw` is the whole line as it stands in the text. -/
inductive Error
  | malformed (line : Nat) (fault : Fault) (raw : String)
  | unknownMnemonic (line : Nat) (word : String)
  | outsideMethod (line : Nat)
  | unterminatedMethod (method : String)
  | duplicateLabel (line : Nat) (label : Label)
  | undefinedLabel (method : String) (label : Label)
  deriving DecidableEq, Repr

namespace Error

/-- The line that the error names, if it names one. -/
def line? : Error → Option Nat
  | malformed line _ _ | unknownMnemonic line _ | outsideMethod line | duplicateLabel line _ =>
    some line
  | unterminatedMethod _ | undefinedLabel _ _ => none

def message : Error → String
  | malformed line fault raw =>
    "listing parse error at line " ++ toString line ++ ": " ++ fault.message ++ " ⇒ `" ++ raw ++ "`"
  | unknownMnemonic line word =>
    "unknown opcode at line " ++ toString line ++ ": " ++ unknownMnemonicMessage word
  | outsideMethod line => "line " ++ toString line ++ ": instruction outside of a method"
  | unterminatedMethod method => "method `" ++ method ++ "` is missing its `.end` directive"
  | duplicateLabel line label =>
    "line " ++ toString line ++ ": label " ++ labelText label ++ " defined more than once"
  | undefinedLabel method label =>
    "method `" ++ method ++ "` references undefined label " ++ labelText label

end Error

/-- Places an instruction's refusal in its text. -/
def InstructionError.at (line : Nat) (raw : String) : InstructionError → Error
  | fault f => .malformed line f raw
  | unknownMnemonic word => .unknownMnemonic line word

end ComposeGuards.Listing
