import ComposeGuards.Bytecode.Method
import ComposeGuards.Listing.Comment
import ComposeGuards.Listing.Operand
import ComposeGuards.Log
import ComposeGuards.Text.Lines

/-! # Reading a listing

The reader takes the lines one after another. Between two lines it holds the classes read so far
and, inside a method, the method as far as it has been read. A method joins the last class at its
`.end` line, where the labels that it refers to must be defined.
-/
namespace ComposeGuards.Listing
open ComposeGuards.Text

/-- The lines that are not instructions. -/
inductive Directive
  | classHeader | methodHeader | annotationLine | methodEnd
  deriving DecidableEq, Repr

def Directive.ofWord? (word : String) : Option Directive :=
  if word = ".class" then some .classHeader
  else if word = ".method" then some .methodHeader
  else if word = ".annotation" then some .annotationLine
  else if word = ".end" then some .methodEnd
  else none

def readClassHeader : List String → Except Fault ClassUnit
  | [] => .error .missingClassName
  | [name] => .ok { name, isKotlin := false }
  | name :: flag :: _ =>
    if flag = "kotlin" then .ok { name, isKotlin := true } else .error .unexpectedClassFlag

def readMethodHeader : List String → Except Fault Method
  | [] => .error .missingMethodName
  | [_] => .error .missingMethodDescriptor
  | name :: desc :: _ => .ok { name, desc }

def retentionOfWord? (word : String) : Option Retention :=
  if word = "visible" then some .visible
  else if word = "invisible" then some .invisible
  else none

def readAnnotationLine : List String → Except Fault (Retention × String)
  | retention :: desc :: _ =>
    match retentionOfWord? retention with
    | some r => .ok (r, desc)
    | none => .error .unknownRetention
  | _ => .error .missingAnnotationDescriptor

/-- What the reader holds between two lines. -/
structure Progress where
  classes : List ClassUnit := []
  current : Option Method := none
  deriving DecidableEq

/-- Adds the method to the last class. -/
def attach (m : Method) : List ClassUnit → List ClassUnit
  | [] => []
  | [c] => [{ c with methods := c.methods ++ [m] }]
  | c :: cs => c :: attach m cs

/-- Checks the labels that the method refers to. -/
def closeMethod (m : Method) : Except Error Method :=
  match m.body.undefinedLabels with
  | [] => .ok m
  | l :: _ => .error (.undefinedLabel m.name l)

/-- Adds an instruction to the method, which must not define the same label before. -/
def addInstruction (line : Nat) (m : Method) (i : Instruction) : Except Error Method :=
  match i.defines? with
  | some l =>
    if (m.body.position? l).isSome then .error (.duplicateLabel line l)
    else .ok { m with body := m.body ++ [i] }
  | none => .ok { m with body := m.body ++ [i] }

/-- Places a fault in its line. -/
def located {α : Type} (line : Nat) (raw : List Char) : Except Fault α → Except Error α
  | .ok a => .ok a
  | .error f => .error (.malformed line f (String.ofList raw))

/-- Reads one directive, given the words after it. -/
def directiveStep (p : Progress) (line : Nat) (raw : List Char) (operands : List String) :
    Directive → Except Error Progress
  | .classHeader =>
    match p.current with
    | some m => .error (.unterminatedMethod m.name)
    | none => do
      let c ← located line raw (readClassHeader operands)
      return { p with classes := p.classes ++ [c] }
  | .methodHeader =>
    match p.current with
    | some m => .error (.unterminatedMethod m.name)
    | none =>
      if p.classes.isEmpty then located line raw (.error .methodOutsideClass)
      else do
        let m ← located line raw (readMethodHeader operands)
        return { p with current := some m }
  | .annotationLine =>
    match p.current with
    | none => .error (.outsideMethod line)
    | some m => do
      let (retention, desc) ← located line raw (readAnnotationLine operands)
      return { p with current := some (m.annotate retention desc) }
  | .methodEnd =>
    match p.current with
    | none => .error (.outsideMethod line)
    | some m => do
      let m ← closeMethod m
      return { classes := attach m p.classes, current := none }

/-- Reads one instruction line, given its text without the comment. -/
def instructionStep (p : Progress) (line : Nat) (raw text : List Char) :
    Except Error Progress :=
  match p.current with
  | none => .error (.outsideMethod line)
  | some m =>
    match readInstruction text with
    | .error e => .error (e.at line (String.ofList raw))
    | .ok i => do
      let m ← addInstruction line m i
      return { p with current := some m }

/-- Reads one line; a line without words changes nothing. -/
def step (p : Progress) (numbered : List Char × Nat) : Except Error Progress :=
  let (raw, line) := numbered
  let text := uncommented raw
  match words text with
  | [] => .ok p
  | head :: operands =>
    match Directive.ofWord? head with
    | some d => directiveStep p line raw operands d
    | none => instructionStep p line raw text

/-- Ends the reading, which must not be inside a method. -/
def Progress.close (p : Progress) : Except Error (List ClassUnit) :=
  match p.current with
  | some m => .error (.unterminatedMethod m.name)
  | none => .ok p.classes

/-- Reads the lines, the first of which has the given number. -/
def readLines (p : Progress) (number : Nat) (ls : List (List Char)) : Except Error Progress :=
  (ls.zipIdx number).foldlM step p

/-- Reads a whole listing. -/
def read (text : String) : Except Error (List ClassUnit) := do
  (← readLines {} 1 (lines text.toList)).close

/-- The messages of a successful reading, one for each class. -/
def readLog (cs : List ClassUnit) : List Log.Message :=
  cs.map fun c =>
    ⟨.debug, "Parsed class " ++ c.name ++ " (kotlin: " ++ toString c.isKotlin ++ ", " ++
      toString c.methods.length ++ " methods)"⟩

theorem readLines_append (p : Progress) (number : Nat) (xs ys : List (List Char)) :
    readLines p number (xs ++ ys) =
      readLines p number xs >>= fun q => readLines q (number + xs.length) ys := by
  simp [readLines, List.zipIdx_append, List.foldlM_append]

end ComposeGuards.Listing
