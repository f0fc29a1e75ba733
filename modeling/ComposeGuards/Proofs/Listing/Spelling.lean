import ComposeGuards.Listing.Operand
import ComposeGuards.Proofs.Text.Numerals

/-! # How an instruction is spelled

The words that spell an instruction, form by form, as a relation beside the reader: reading accepts
a text exactly when its words spell the instruction. Only a constant takes more than words, namely
the text after the first one as it stands.
-/
namespace ComposeGuards.Listing
open ComposeGuards.Text

/-- The words after the mnemonic; `rest` is their text. -/
inductive SpellsOperands (m : Mnemonic) (rest : List Char) : List String → Instruction → Prop
  | plain (kind : m.operandKind = .none) : SpellsOperands m rest [] (.plain (.named m))
  | slot {w : String} {index : UInt16} (kind : m.operandKind = .slot)
      (number : slotOfWord? w = some index) :
      SpellsOperands m rest [w] (.slot (.named m) index)
  | integer {w : String} {value : Int32} (kind : m.operandKind = .integer)
      (number : integerOfWord? w = some value) :
      SpellsOperands m rest [w] (.integer (.named m) value)
  | type {desc : String} (kind : m.operandKind = .type) :
      SpellsOperands m rest [desc] (.type (.named m) desc)
  | field {w owner name desc : String} (kind : m.operandKind = .field)
      (member : memberOfWord? w = some (owner, name)) :
      SpellsOperands m rest [w, ":", desc] (.field (.named m) ⟨owner, name, desc⟩)
  | call {w owner name desc : String} (kind : m.operandKind = .method)
      (member : memberOfWord? w = some (owner, name)) :
      SpellsOperands m rest [w, desc] (.call (.named m) ⟨owner, name, desc⟩ false)
  | callOnInterface {w owner name desc : String} (kind : m.operandKind = .method)
      (member : memberOfWord? w = some (owner, name)) :
      SpellsOperands m rest [w, desc, "(itf)"] (.call (.named m) ⟨owner, name, desc⟩ true)
  | jump {w : String} {target : Label} (kind : m.operandKind = .jump)
      (label : labelOfWord? w = some target) :
      SpellsOperands m rest [w] (.jump (.named m) target)
  | constant {ws : List String} (kind : m.operandKind = .constant) (text : rest ≠ []) :
      SpellsOperands m rest ws (.constant (String.ofList rest))

/-- The words of a line that is one instruction. -/
inductive Spells (rest : List Char) : List String → Instruction → Prop
  | label {w : String} {l : Label} (label : labelOfWord? w = some l) :
      Spells rest [w] (.label l)
  | lineNumber {n w : String} {line : UInt32} {start : Label} {extra : List String}
      (number : lineOfWord? n = some line) (label : labelOfWord? w = some start) :
      Spells rest ("LINENUMBER" :: n :: w :: extra) (.lineNumber line start)
  | frame {extra : List String} : Spells rest ("FRAME" :: extra) .frame
  | opcode {m : Mnemonic} {ws : List String} {i : Instruction}
      (operands : SpellsOperands m rest ws i) : Spells rest (m.name :: ws) i

/-! ## Labels -/

/-- A word denotes a label by the value of its digits, so that leading zeros do not count. -/
theorem labelOfWord?_eq_some_iff {word : String} {l : Label} :
    labelOfWord? word = some l ↔
      ∃ ds, word.toList = 'L' :: ds ∧ ds ≠ [] ∧ (∀ c ∈ ds, c.isDigit = true) ∧
        Nat.ofDigitChars 10 ds 0 = l.toNat := by
  unfold labelOfWord?
  split
  · next ds hword =>
    rw [Option.bind_eq_some_iff, hword]
    simp only [digits?_eq_some_iff, word32?_eq_some_iff]
    constructor
    · rintro ⟨n, ⟨hne, hdigits, rfl⟩, hn⟩
      exact ⟨ds, rfl, hne, hdigits, hn⟩
    · rintro ⟨ds', hds, hne, hdigits, hn⟩
      cases hds
      exact ⟨_, ⟨hne, hdigits, rfl⟩, hn⟩
  · next hno =>
    simp only [reduceCtorEq, false_iff]
    rintro ⟨ds, hword, -⟩
    exact hno ds hword

/-! ## Members -/

theorem splitLastPoint?_eq_none_iff {cs : List Char} : splitLastPoint? cs = none ↔ '.' ∉ cs := by
  induction cs with
  | nil => simp [splitLastPoint?]
  | cons c cs ih =>
    rw [splitLastPoint?, List.mem_cons, not_or]
    cases hs : splitLastPoint? cs with
    | some p =>
      have hmem : '.' ∈ cs := by
        by_contra hno
        rw [ih.mpr hno] at hs
        cases hs
      simp [hmem]
    | none =>
      have hno : '.' ∉ cs := ih.mp hs
      by_cases hc : c = '.'
      · simp [hc]
      · simp [hc, hno, Ne.symm hc]

theorem splitLastPoint?_eq_some_iff {cs before after : List Char} :
    splitLastPoint? cs = some (before, after) ↔ cs = before ++ '.' :: after ∧ '.' ∉ after := by
  constructor
  · exact splitLastPoint?_eq_some
  · rintro ⟨rfl, hno⟩
    induction before with
    | nil => simp [splitLastPoint?, splitLastPoint?_eq_none_iff.mpr hno]
    | cons c before ih => simp [splitLastPoint?, ih]

theorem memberOfWord?_eq_some_iff {w owner name : String} :
    memberOfWord? w = some (owner, name) ↔
      w = owner ++ "." ++ name ∧ owner ≠ "" ∧ name ≠ "" ∧ '.' ∉ name.toList := by
  have hpath : w = owner ++ "." ++ name ↔ w.toList = owner.toList ++ '.' :: name.toList := by
    rw [← String.toList_inj, String.toList_append, String.toList_append, List.append_assoc]
    rfl
  rw [hpath]
  unfold memberOfWord?
  constructor
  · intro h
    cases hs : splitLastPoint? w.toList with
    | none => simp [hs] at h
    | some p =>
      obtain ⟨before, after⟩ := p
      simp only [hs] at h
      split at h
      · cases h
      · next hne =>
        cases h
        simp only [Bool.or_eq_true, List.isEmpty_iff, not_or] at hne
        obtain ⟨hw, hno⟩ := splitLastPoint?_eq_some hs
        simp [hw, hno, hne, String.ofList_eq_empty_iff]
  · rintro ⟨hw, howner, hname, hno⟩
    have hs := splitLastPoint?_eq_some_iff.mpr ⟨hw, hno⟩
    simp [hs, howner, hname]

/-! ## Reading -/

theorem bind_eq_ok_iff {ε α β : Type} {x : Except ε α} {f : α → Except ε β} {b : β} :
    x >>= f = .ok b ↔ ∃ a, x = .ok a ∧ f a = .ok b := by
  cases x with
  | error e => simp [bind, Except.bind]
  | ok a => simp [bind, Except.bind]

theorem readWord_eq_ok_iff {α : Type} {read? : String → Option α} {fault : Fault}
    {ws rest : List String} {a : α} :
    readWord read? fault ws = .ok (a, rest) ↔ ∃ w, ws = w :: rest ∧ read? w = some a := by
  cases ws with
  | nil => simp [readWord]
  | cons w ws =>
    cases hw : read? w with
    | none =>
      simp only [readWord, hw, reduceCtorEq, List.cons.injEq, false_iff]
      rintro ⟨v, ⟨rfl, rfl⟩, hv⟩
      rw [hw] at hv
      cases hv
    | some b =>
      simp only [readWord, hw, Except.ok.injEq, Prod.mk.injEq, List.cons.injEq]
      constructor
      · rintro ⟨rfl, rfl⟩
        exact ⟨w, ⟨rfl, rfl⟩, hw⟩
      · rintro ⟨v, ⟨rfl, rfl⟩, hv⟩
        rw [hw] at hv
        exact ⟨Option.some.inj hv, rfl⟩

theorem finish_eq_ok_iff {i j : Instruction} {ws : List String} :
    finish i ws = .ok j ↔ ws = [] ∧ i = j := by
  cases ws <;> simp [finish]

theorem readOperands_eq_ok {m : Mnemonic} {ws : List String} {rest : List Char} {i : Instruction}
    (h : readOperands m ws rest = .ok i) : SpellsOperands m rest ws i := by
  unfold readOperands at h
  cases hk : m.operandKind with
  | none =>
    simp only [hk, finish_eq_ok_iff] at h
    obtain ⟨rfl, rfl⟩ := h
    exact .plain hk
  | slot =>
    simp only [hk, bind_eq_ok_iff, Prod.exists, readWord_eq_ok_iff, finish_eq_ok_iff] at h
    obtain ⟨index, _, ⟨w, rfl, hw⟩, rfl, rfl⟩ := h
    exact .slot hk hw
  | integer =>
    simp only [hk, bind_eq_ok_iff, Prod.exists, readWord_eq_ok_iff, finish_eq_ok_iff] at h
    obtain ⟨value, _, ⟨w, rfl, hw⟩, rfl, rfl⟩ := h
    exact .integer hk hw
  | type =>
    simp only [hk, bind_eq_ok_iff, Prod.exists, readWord_eq_ok_iff, finish_eq_ok_iff] at h
    obtain ⟨desc, _, ⟨w, rfl, hw⟩, rfl, rfl⟩ := h
    cases hw
    exact .type hk
  | field =>
    simp only [hk, readField, bind_eq_ok_iff, Prod.exists, readWord_eq_ok_iff,
      finish_eq_ok_iff] at h
    obtain ⟨owner, name, _, ⟨w, rfl, hw⟩, _, _, ⟨v, rfl, hv⟩, desc, _, ⟨u, rfl, hu⟩, rfl, rfl⟩ := h
    cases hu
    split at hv
    · next hcolon => subst hcolon; exact .field hk hw
    · cases hv
  | method =>
    simp only [hk, readCall, bind_eq_ok_iff, Prod.exists, readWord_eq_ok_iff] at h
    obtain ⟨owner, name, _, ⟨w, rfl, hw⟩, desc, flags, ⟨u, rfl, hu⟩, h⟩ := h
    cases hu
    cases flags with
    | nil => cases h; exact .call hk hw
    | cons flag flags =>
      by_cases hflag : flag = "(itf)"
      · simp only [hflag, ↓reduceIte, finish_eq_ok_iff] at h
        obtain ⟨rfl, rfl⟩ := h
        subst hflag
        exact .callOnInterface hk hw
      · simp only [hflag, ↓reduceIte] at h
        cases h
  | jump =>
    simp only [hk, bind_eq_ok_iff, Prod.exists, readWord_eq_ok_iff, finish_eq_ok_iff] at h
    obtain ⟨target, _, ⟨w, rfl, hw⟩, rfl, rfl⟩ := h
    exact .jump hk hw
  | constant =>
    cases rest with
    | nil => simp [hk] at h
    | cons c cs =>
      simp only [hk, List.isEmpty_cons, Bool.false_eq_true, ↓reduceIte] at h
      cases h
      exact .constant hk (List.cons_ne_nil c cs)

theorem readOperands_of_spells {m : Mnemonic} {ws : List String} {rest : List Char}
    {i : Instruction} (h : SpellsOperands m rest ws i) : readOperands m ws rest = .ok i := by
  cases h with
  | plain kind => simp [readOperands, kind, finish]
  | slot kind number => simp [readOperands, kind, readWord, number, finish, bind, Except.bind]
  | integer kind number => simp [readOperands, kind, readWord, number, finish, bind, Except.bind]
  | type kind => simp [readOperands, kind, readWord, finish, bind, Except.bind]
  | field kind member =>
    simp [readOperands, kind, readField, readWord, member, finish, bind, Except.bind]
  | call kind member =>
    simp [readOperands, kind, readCall, readWord, member, bind, Except.bind, pure, Except.pure]
  | callOnInterface kind member =>
    simp [readOperands, kind, readCall, readWord, member, finish, bind, Except.bind]
  | jump kind label => simp [readOperands, kind, readWord, label, finish, bind, Except.bind]
  | constant kind text => simp [readOperands, kind, text]

theorem labelOfWord?_name (m : Mnemonic) : labelOfWord? m.name = none := by
  cases m <;> decide

theorem ofName?_name (m : Mnemonic) : Mnemonic.ofName? m.name = some m := by
  cases m <;> decide

theorem name_ne_lineNumber (m : Mnemonic) : m.name ≠ "LINENUMBER" := by
  cases m <;> decide

theorem name_ne_frame (m : Mnemonic) : m.name ≠ "FRAME" := by
  cases m <;> decide

theorem name_eq_ldc {m : Mnemonic} (h : m.operandKind = .constant) : m.name = "LDC" := by
  revert h
  cases m <;> decide

theorem operandKind_of_name_eq_ldc {m : Mnemonic} (h : m.name = "LDC") :
    m.operandKind = .constant := by
  revert h
  cases m <;> decide

theorem readLineNumber_eq_ok_iff {ws : List String} {i : Instruction} :
    readLineNumber ws = .ok i ↔
      ∃ n w line start extra, ws = n :: w :: extra ∧ lineOfWord? n = some line ∧
        labelOfWord? w = some start ∧ i = .lineNumber line start := by
  simp only [readLineNumber, bind_eq_ok_iff, Prod.exists, readWord_eq_ok_iff]
  constructor
  · rintro ⟨line, _, ⟨n, rfl, hn⟩, start, extra, ⟨w, rfl, hw⟩, h⟩
    cases h
    exact ⟨n, w, line, start, extra, rfl, hn, hw, rfl⟩
  · rintro ⟨n, w, line, start, extra, rfl, hn, hw, rfl⟩
    exact ⟨line, w :: extra, ⟨n, rfl, hn⟩, start, extra, ⟨w, rfl, hw⟩, rfl⟩

theorem spells_of_readInstruction {text : List Char} {i : Instruction}
    (h : readInstruction text = .ok i) : Spells (afterFirstWord text) (words text) i := by
  unfold readInstruction at h
  cases hw : words text with
  | nil => simp [hw] at h
  | cons head operands =>
    simp only [hw] at h
    cases hl : labelOfWord? head with
    | some l =>
      simp only [hl] at h
      cases operands with
      | nil => cases h; exact .label hl
      | cons v vs => cases h
    | none =>
      simp only [hl] at h
      by_cases hline : head = "LINENUMBER"
      · simp only [hline, ↓reduceIte, readLineNumber_eq_ok_iff] at h
        obtain ⟨n, w, line, start, extra, rfl, hn, hstart, rfl⟩ := h
        subst hline
        exact .lineNumber hn hstart
      · by_cases hframe : head = "FRAME"
        · simp only [hframe, String.reduceEq, ↓reduceIte] at h
          cases h
          subst hframe
          exact .frame
        · simp only [hline, hframe, ↓reduceIte] at h
          cases hm : Mnemonic.ofName? head with
          | none => simp [hm] at h
          | some m =>
            simp only [hm] at h
            rw [← Mnemonic.name_of_ofName? hm]
            exact .opcode (readOperands_eq_ok h)

theorem readInstruction_of_spells {text : List Char} {i : Instruction}
    (h : Spells (afterFirstWord text) (words text) i) : readInstruction text = .ok i := by
  unfold readInstruction
  generalize words text = ws at h ⊢
  cases h with
  | label label => simp [label]
  | @lineNumber n w line start extra number label =>
    have hnone : labelOfWord? "LINENUMBER" = none := by decide
    have hread : readLineNumber (n :: w :: extra) = .ok (.lineNumber line start) :=
      readLineNumber_eq_ok_iff.mpr ⟨n, w, line, start, extra, rfl, number, label, rfl⟩
    simp [hnone, hread]
  | frame =>
    have hnone : labelOfWord? "FRAME" = none := by decide
    simp [hnone]
  | opcode operands =>
    simp [labelOfWord?_name, name_ne_lineNumber, name_ne_frame, ofName?_name,
      readOperands_of_spells operands]

/-- Reading accepts a text exactly when its words spell the instruction. -/
theorem readInstruction_eq_ok_iff {text : List Char} {i : Instruction} :
    readInstruction text = .ok i ↔ Spells (afterFirstWord text) (words text) i :=
  ⟨spells_of_readInstruction, readInstruction_of_spells⟩

/-! ## Few words are too few -/

/-- How many words a mnemonic with operands of that kind needs after it. -/
def wordCount : OperandKind → Nat
  | .none | .constant => 0
  | .slot | .integer | .type | .jump => 1
  | .method => 2
  | .field => 3

theorem SpellsOperands.wordCount_le {m : Mnemonic} {rest : List Char} {ws : List String}
    {i : Instruction} (h : SpellsOperands m rest ws i) : wordCount m.operandKind ≤ ws.length := by
  cases h <;> simp [wordCount, *]

theorem Spells.operands_of_name {m : Mnemonic} {rest : List Char} {ws : List String}
    {i : Instruction} (h : Spells rest (m.name :: ws) i) : SpellsOperands m rest ws i := by
  generalize hwords : m.name :: ws = all at h
  cases h with
  | label label =>
    cases hwords
    rw [labelOfWord?_name] at label
    cases label
  | lineNumber => exact absurd (List.cons.inj hwords).1 (name_ne_lineNumber m)
  | frame => exact absurd (List.cons.inj hwords).1 (name_ne_frame m)
  | @opcode m' ws' i operands =>
    obtain ⟨hname, rfl⟩ := List.cons.inj hwords
    have hm := ofName?_name m
    rw [hname, ofName?_name] at hm
    cases hm
    exact operands

end ComposeGuards.Listing
