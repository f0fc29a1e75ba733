/-! # Opcodes

The named opcodes form one table of mnemonics and bytes. An opcode value is either a name of the
table or a bare byte, and a bare byte that the table names stands for that name: two opcodes are the
same exactly when their bytes are, and an opcode is printed and classified through its byte.
-/
namespace ComposeGuards

/-- The opcodes with a name in the listing format. -/
inductive Mnemonic
  | nop | aconstNull | iconstM1 | iconst0 | iconst1 | iconst2 | iconst3 | iconst4 | iconst5
  | bipush | sipush | ldc | iload | lload | aload | istore | lstore | astore | pop | pop2 | dup
  | swap | iadd | isub | iand | ior | ixor | ifeq | ifne | iflt | ifge | ifgt | ifle | ifIcmpeq
  | ifIcmpne | ifIcmplt | ifIcmpge | ifIcmpgt | ifIcmple | ifAcmpeq | ifAcmpne | goto | ireturn
  | areturn | returnVoid | getstatic | putstatic | getfield | putfield | invokevirtual
  | invokespecial | invokestatic | invokeinterface | newObject | athrow | checkcast | instanceof
  | ifnull | ifnonnull
  deriving DecidableEq, Repr

namespace Mnemonic

/-- The table: how a mnemonic is written, and its byte. -/
def entry : Mnemonic → String × UInt8
  | .nop => ("NOP", 0x00)
  | .aconstNull => ("ACONST_NULL", 0x01)
  | .iconstM1 => ("ICONST_M1", 0x02)
  | .iconst0 => ("ICONST_0", 0x03)
  | .iconst1 => ("ICONST_1", 0x04)
  | .iconst2 => ("ICONST_2", 0x05)
  | .iconst3 => ("ICONST_3", 0x06)
  | .iconst4 => ("ICONST_4", 0x07)
  | .iconst5 => ("ICONST_5", 0x08)
  | .bipush => ("BIPUSH", 0x10)
  | .sipush => ("SIPUSH", 0x11)
  | .ldc => ("LDC", 0x12)
  | .iload => ("ILOAD", 0x15)
  | .lload => ("LLOAD", 0x16)
  | .aload => ("ALOAD", 0x19)
  | .istore => ("ISTORE", 0x36)
  | .lstore => ("LSTORE", 0x37)
  | .astore => ("ASTORE", 0x3a)
  | .pop => ("POP", 0x57)
  | .pop2 => ("POP2", 0x58)
  | .dup => ("DUP", 0x59)
  | .swap => ("SWAP", 0x5f)
  | .iadd => ("IADD", 0x60)
  | .isub => ("ISUB", 0x64)
  | .iand => ("IAND", 0x7e)
  | .ior => ("IOR", 0x80)
  | .ixor => ("IXOR", 0x82)
  | .ifeq => ("IFEQ", 0x99)
  | .ifne => ("IFNE", 0x9a)
  | .iflt => ("IFLT", 0x9b)
  | .ifge => ("IFGE", 0x9c)
  | .ifgt => ("IFGT", 0x9d)
  | .ifle => ("IFLE", 0x9e)
  | .ifIcmpeq => ("IF_ICMPEQ", 0x9f)
  | .ifIcmpne => ("IF_ICMPNE", 0xa0)
  | .ifIcmplt => ("IF_ICMPLT", 0xa1)
  | .ifIcmpge => ("IF_ICMPGE", 0xa2)
  | .ifIcmpgt => ("IF_ICMPGT", 0xa3)
  | .ifIcmple => ("IF_ICMPLE", 0xa4)
  | .ifAcmpeq => ("IF_ACMPEQ", 0xa5)
  | .ifAcmpne => ("IF_ACMPNE", 0xa6)
  | .goto => ("GOTO", 0xa7)
  | .ireturn => ("IRETURN", 0xac)
  | .areturn => ("ARETURN", 0xb0)
  | .returnVoid => ("RETURN", 0xb1)
  | .getstatic => ("GETSTATIC", 0xb2)
  | .putstatic => ("PUTSTATIC", 0xb3)
  | .getfield => ("GETFIELD", 0xb4)
  | .putfield => ("PUTFIELD", 0xb5)
  | .invokevirtual => ("INVOKEVIRTUAL", 0xb6)
  | .invokespecial => ("INVOKESPECIAL", 0xb7)
  | .invokestatic => ("INVOKESTATIC", 0xb8)
  | .invokeinterface => ("INVOKEINTERFACE", 0xb9)
  | .newObject => ("NEW", 0xbb)
  | .athrow => ("ATHROW", 0xbf)
  | .checkcast => ("CHECKCAST", 0xc0)
  | .instanceof => ("INSTANCEOF", 0xc1)
  | .ifnull => ("IFNULL", 0xc6)
  | .ifnonnull => ("IFNONNULL", 0xc7)

def name (m : Mnemonic) : String :=
  m.entry.1

def byte (m : Mnemonic) : UInt8 :=
  m.entry.2

/-- Every mnemonic, by increasing byte. -/
def all : List Mnemonic :=
  [.nop, .aconstNull, .iconstM1, .iconst0, .iconst1, .iconst2, .iconst3, .iconst4, .iconst5,
    .bipush, .sipush, .ldc, .iload, .lload, .aload, .istore, .lstore, .astore, .pop, .pop2, .dup,
    .swap, .iadd, .isub, .iand, .ior, .ixor, .ifeq, .ifne, .iflt, .ifge, .ifgt, .ifle, .ifIcmpeq,
    .ifIcmpne, .ifIcmplt, .ifIcmpge, .ifIcmpgt, .ifIcmple, .ifAcmpeq, .ifAcmpne, .goto, .ireturn,
    .areturn, .returnVoid, .getstatic, .putstatic, .getfield, .putfield, .invokevirtual,
    .invokespecial, .invokestatic, .invokeinterface, .newObject, .athrow, .checkcast,
    .instanceof, .ifnull, .ifnonnull]

def ofName? (s : String) : Option Mnemonic :=
  all.find? fun m => m.name = s

def ofByte? (b : UInt8) : Option Mnemonic :=
  all.find? fun m => m.byte = b

theorem mem_all (m : Mnemonic) : m ∈ all := by
  cases m <;> decide

theorem ofByte?_byte (m : Mnemonic) : ofByte? m.byte = some m := by
  cases m <;> rfl

theorem byte_of_ofByte? {b : UInt8} {m : Mnemonic} (h : ofByte? b = some m) : m.byte = b := by
  simpa using List.find?_some h

theorem name_of_ofName? {s : String} {m : Mnemonic} (h : ofName? s = some m) : m.name = s := by
  simpa using List.find?_some h

theorem byte_injective {a b : Mnemonic} (h : a.byte = b.byte) : a = b := by
  have ha := ofByte?_byte a
  rw [h, ofByte?_byte b] at ha
  exact (Option.some.inj ha).symm

end Mnemonic

/-- The form of operand that a named opcode takes in a listing. -/
inductive OperandKind
  | none | slot | integer | type | field | method | jump | constant
  deriving DecidableEq, Repr

def Mnemonic.operandKind : Mnemonic → OperandKind
  | .iload | .lload | .aload | .istore | .lstore | .astore => .slot
  | .bipush | .sipush => .integer
  | .newObject | .checkcast | .instanceof => .type
  | .getstatic | .putstatic | .getfield | .putfield => .field
  | .invokevirtual | .invokespecial | .invokestatic | .invokeinterface => .method
  | .ifeq | .ifne | .iflt | .ifge | .ifgt | .ifle
  | .ifIcmpeq | .ifIcmpne | .ifIcmplt | .ifIcmpge | .ifIcmpgt | .ifIcmple
  | .ifAcmpeq | .ifAcmpne | .goto | .ifnull | .ifnonnull => .jump
  | .ldc => .constant
  | _ => .none

/-- Opcodes that only copy, drop or reorder values on top of the operand stack. -/
def Mnemonic.isStackOp : Mnemonic → Bool
  | .pop | .pop2 | .dup | .swap => true
  | _ => false

/-- A named opcode or a bare byte. -/
inductive Opcode
  | named (mnemonic : Mnemonic)
  | bare (byte : UInt8)
  deriving DecidableEq, Repr

namespace Opcode

def byte : Opcode → UInt8
  | .named m => m.byte
  | .bare b => b

/-- The name of the byte, also of a bare one. -/
def mnemonic? (o : Opcode) : Option Mnemonic :=
  Mnemonic.ofByte? o.byte

def ofByte (b : UInt8) : Opcode :=
  match Mnemonic.ofByte? b with
  | some m => .named m
  | none => .bare b

/-- The opcode with the same byte that carries a name if there is one. -/
def normalize (o : Opcode) : Opcode :=
  ofByte o.byte

/-- Equality of bytes, the only equality that matching and comparing methods use. -/
def same (a b : Opcode) : Bool :=
  a.byte = b.byte

def is (o : Opcode) (m : Mnemonic) : Bool :=
  o.byte = m.byte

def operandKind (o : Opcode) : OperandKind :=
  match o.mnemonic? with
  | some m => m.operandKind
  | none => .none

def isJump (o : Opcode) : Bool :=
  o.operandKind = .jump

def isInvoke (o : Opcode) : Bool :=
  o.operandKind = .method

def isStackOp (o : Opcode) : Bool :=
  o.mnemonic?.any Mnemonic.isStackOp

/-- Two lowercase hexadecimal digits. -/
def hexByte (b : UInt8) : String :=
  let digits := String.ofList (Nat.toDigits 16 b.toNat)
  if b < 16 then "0" ++ digits else digits

/-- The name, or the byte in hexadecimal where there is no name. -/
def text (o : Opcode) : String :=
  match o.mnemonic? with
  | some m => m.name
  | none => "OPCODE_" ++ hexByte o.byte

@[simp] theorem byte_ofByte (b : UInt8) : (ofByte b).byte = b := by
  unfold ofByte
  split
  · next m h => exact Mnemonic.byte_of_ofByte? h
  · rfl

@[simp] theorem byte_normalize (o : Opcode) : o.normalize.byte = o.byte :=
  byte_ofByte o.byte

theorem normalize_named (m : Mnemonic) : (named m).normalize = named m := by
  simp [normalize, ofByte, byte, Mnemonic.ofByte?_byte]

theorem normalize_eq_iff {a b : Opcode} : a.normalize = b.normalize ↔ a.byte = b.byte :=
  ⟨fun h => by simpa using congrArg byte h, fun h => by simp [normalize, h]⟩

theorem mnemonic?_congr {a b : Opcode} (h : a.byte = b.byte) : a.mnemonic? = b.mnemonic? := by
  simp [mnemonic?, h]

theorem text_congr {a b : Opcode} (h : a.byte = b.byte) : a.text = b.text := by
  simp [text, mnemonic?_congr h, h]

@[simp] theorem text_normalize (o : Opcode) : o.normalize.text = o.text :=
  text_congr (byte_normalize o)

theorem text_named (m : Mnemonic) : (named m).text = m.name := by
  simp [text, mnemonic?, byte, Mnemonic.ofByte?_byte]

end Opcode
end ComposeGuards
