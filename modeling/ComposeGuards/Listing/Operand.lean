import ComposeGuards.Listing.Error
import ComposeGuards.Text.Blank
import ComposeGuards.Text.Numeral

/-! # Reading one instruction

The first word decides the form: a label definition, `LINENUMBER`, `FRAME`, or a mnemonic whose
operand kind says which operands follow. The operand of `LDC` is the rest of the line; all other
operands are words.
-/
namespace ComposeGuards.Listing
open ComposeGuards.Text

/-- A label is an `L` and a numeral that fits 32 bits. -/
def labelOfWord? (word : String) : Option Label :=
  match word.toList with
  | 'L' :: cs => (digits? cs).bind word32?
  | _ => none

def lineOfWord? (word : String) : Option UInt32 :=
  (unsigned? word.toList).bind word32?

def slotOfWord? (word : String) : Option UInt16 :=
  (unsigned? word.toList).bind word16?

def integerOfWord? (word : String) : Option Int32 :=
  (signed? word.toList).bind int32?

/-- Splits at the last point. -/
def splitLastPoint? : List Char → Option (List Char × List Char)
  | [] => none
  | c :: cs =>
    match splitLastPoint? cs with
    | some (before, after) => some (c :: before, after)
    | none => if c = '.' then some ([], cs) else none

/-- Owner and name of a member, both of which must be there. -/
def memberOfWord? (word : String) : Option (String × String) :=
  match splitLastPoint? word.toList with
  | some (owner, name) =>
    if owner.isEmpty || name.isEmpty then none
    else some (String.ofList owner, String.ofList name)
  | none => none

/-- Reads the next word, or reports the fault if it is missing or unreadable. -/
def readWord {α : Type} (read? : String → Option α) (fault : Fault) :
    List String → Except InstructionError (α × List String)
  | [] => .error (.fault fault)
  | word :: rest =>
    match read? word with
    | some a => .ok (a, rest)
    | none => .error (.fault fault)

/-- Accepts the instruction if all words are used up. -/
def finish (i : Instruction) : List String → Except InstructionError Instruction
  | [] => .ok i
  | _ :: _ => .error (.fault .trailingOperand)

def readLineNumber (words : List String) : Except InstructionError Instruction := do
  let (line, words) ← readWord lineOfWord? .invalidLineNumber words
  let (start, _) ← readWord labelOfWord? .invalidLineLabel words
  return .lineNumber line start

def readField (o : Opcode) (words : List String) : Except InstructionError Instruction := do
  let ((owner, name), words) ← readWord memberOfWord? .invalidMember words
  let (_, words) ← readWord (fun w => if w = ":" then some () else none) .missingColon words
  let (desc, words) ← readWord some .missingFieldDescriptor words
  finish (.field o ⟨owner, name, desc⟩) words

def readCall (o : Opcode) (words : List String) : Except InstructionError Instruction := do
  let ((owner, name), words) ← readWord memberOfWord? .invalidMember words
  let (desc, words) ← readWord some .missingCallDescriptor words
  match words with
  | [] => return .call o ⟨owner, name, desc⟩ false
  | flag :: words =>
    if flag = "(itf)" then finish (.call o ⟨owner, name, desc⟩ true) words
    else throw (.fault .wordsAfterDescriptor)

/-- Reads the operands of a mnemonic from the words after it; `rest` is their text. -/
def readOperands (m : Mnemonic) (words : List String) (rest : List Char) :
    Except InstructionError Instruction :=
  let o := Opcode.named m
  match m.operandKind with
  | .none => finish (.plain o) words
  | .slot => do
    let (index, words) ← readWord slotOfWord? .invalidSlot words
    finish (.slot o index) words
  | .integer => do
    let (value, words) ← readWord integerOfWord? .invalidInteger words
    finish (.integer o value) words
  | .type => do
    let (desc, words) ← readWord some .missingType words
    finish (.type o desc) words
  | .field => readField o words
  | .method => readCall o words
  | .jump => do
    let (target, words) ← readWord labelOfWord? .invalidJumpLabel words
    finish (.jump o target) words
  | .constant =>
    if rest.isEmpty then .error (.fault .missingConstant)
    else .ok (.constant (String.ofList rest))

/-- Reads the text of one instruction, comments already removed. -/
def readInstruction (text : List Char) : Except InstructionError Instruction :=
  match words text with
  | [] => .error (.fault .emptyInstruction)
  | head :: operands =>
    match labelOfWord? head with
    | some l => if operands.isEmpty then .ok (.label l) else .error (.fault .wordsAfterLabel)
    | none =>
      if head = "LINENUMBER" then readLineNumber operands
      else if head = "FRAME" then .ok .frame
      else
        match Mnemonic.ofName? head with
        | some m => readOperands m operands (afterFirstWord text)
        | none => .error (.unknownMnemonic head)

theorem splitLastPoint?_eq_some {cs before after : List Char}
    (h : splitLastPoint? cs = some (before, after)) :
    cs = before ++ '.' :: after ∧ '.' ∉ after := by
  induction cs generalizing before after with
  | nil => cases h
  | cons c cs ih =>
    cases hs : splitLastPoint? cs with
    | some p =>
      simp only [splitLastPoint?, hs, Option.some.injEq, Prod.mk.injEq] at h
      obtain ⟨rfl, rfl⟩ := h
      obtain ⟨hcs, hp⟩ := ih hs
      exact ⟨by rw [hcs, List.cons_append], hp⟩
    | none =>
      have hnone : ∀ ds : List Char, splitLastPoint? ds = none → '.' ∉ ds := by
        intro ds hds
        induction ds with
        | nil => simp
        | cons d ds ihd =>
          cases hd : splitLastPoint? ds with
          | some q => simp [splitLastPoint?, hd] at hds
          | none =>
            by_cases hp : d = '.'
            · simp [splitLastPoint?, hd, hp] at hds
            · simp [ihd hd, Ne.symm hp]
      by_cases hc : c = '.'
      · simp only [splitLastPoint?, hs, hc, ↓reduceIte, Option.some.injEq, Prod.mk.injEq] at h
        obtain ⟨rfl, rfl⟩ := h
        exact ⟨by rw [hc, List.nil_append], hnone cs hs⟩
      · simp [splitLastPoint?, hs, hc] at h

end ComposeGuards.Listing
