import ComposeGuards.Bytecode.Method
import ComposeGuards.Text.Lines
import ComposeGuards.Text.Numeral

/-! # The printed form of a listing

A printed listing has one line for each header, annotation, instruction and end of a method.
Instructions other than labels are indented by two spaces, and single spaces separate words.
-/
namespace ComposeGuards
open Text

def MemberRef.path (m : MemberRef) : String :=
  m.owner ++ "." ++ m.name

def Instruction.text : Instruction → String
  | .label l => labelText l
  | .lineNumber line start => "  LINENUMBER " ++ toString line.toNat ++ " " ++ labelText start
  | .frame => "  FRAME"
  | .call o callee onInterface =>
    "  " ++ o.text ++ " " ++ callee.path ++ " " ++ callee.desc ++
      (if onInterface then " (itf)" else "")
  | .jump o target => "  " ++ o.text ++ " " ++ labelText target
  | .slot o index => "  " ++ o.text ++ " " ++ toString index.toNat
  | .integer o value => "  " ++ o.text ++ " " ++ signedText value.toInt
  | .type o desc => "  " ++ o.text ++ " " ++ desc
  | .field o member => "  " ++ o.text ++ " " ++ member.path ++ " : " ++ member.desc
  | .constant value => "  LDC " ++ value
  | .plain o => "  " ++ o.text

def Method.lines (m : Method) : List String :=
  (".method " ++ m.name ++ " " ++ m.desc) ::
    m.visible.map (".annotation visible " ++ ·) ++
    m.invisible.map (".annotation invisible " ++ ·) ++
    m.body.map Instruction.text ++ [".end"]

def ClassUnit.lines (c : ClassUnit) : List String :=
  (".class " ++ c.name ++ (if c.isKotlin then " kotlin" else "")) :: c.methods.flatMap Method.lines

def ClassUnit.text (c : ClassUnit) : String :=
  unlines c.lines

/-- The text of a whole listing. -/
def Listing.print (cs : List ClassUnit) : String :=
  unlines (cs.flatMap ClassUnit.lines)

theorem Instruction.text_normalize (i : Instruction) : i.normalize.text = i.text := by
  cases i <;> simp [Instruction.normalize, Instruction.text]

theorem Method.lines_normalize (m : Method) : m.normalize.lines = m.lines := by
  simp [Method.normalize, Method.lines, Body.normalize, Function.comp_def,
    Instruction.text_normalize]

end ComposeGuards
