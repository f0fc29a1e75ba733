import ComposeGuards.Bytecode.Method
import ComposeGuards.Proofs.Bytecode.Positions
import ComposeGuards.Proofs.Listing.Comments

/-! # Trees that a listing can denote

A tree is well formed if every opcode stands in the form that its operand kind prescribes, the labels
of every method are bound, names and descriptors are words, and a constant is one trimmed line. It is
printable if moreover none of its texts is taken for a comment. The form in which opcodes are given,
named or as bytes, does not matter.
-/
namespace ComposeGuards
open Text

/-- The opcode has a name and takes operands of that kind. -/
def Opcode.Takes (o : Opcode) (kind : OperandKind) : Prop :=
  o.mnemonic?.isSome = true ∧ o.operandKind = kind

/-- A word without a point, so that the last point of a path stands before it. -/
def IsMemberName (s : String) : Prop :=
  IsWord s ∧ '.' ∉ s.toList

/-- A text that can stand after `LDC` in a line. -/
def IsConstant (s : String) : Prop :=
  s ≠ "" ∧ '\n' ∉ s.toList ∧ Trimmed s.toList

namespace Instruction

/-- The form is the one that the opcode prescribes, and a member can be told from its owner. -/
def Fits : Instruction → Prop
  | label _ | lineNumber _ _ | frame | constant _ => True
  | call o callee _ => o.Takes .method ∧ IsMemberName callee.name
  | jump o _ => o.Takes .jump
  | slot o _ => o.Takes .slot
  | integer o _ => o.Takes .integer
  | type o _ => o.Takes .type
  | field o member => o.Takes .field ∧ IsMemberName member.name
  | plain o => o.Takes .none

/-- Properties of the texts that the instruction holds beside the names of members. -/
def Texts (word constant : String → Prop) : Instruction → Prop
  | label _ | lineNumber _ _ | frame | jump _ _ | slot _ _ | integer _ _ | plain _ => True
  | call _ callee _ => word callee.owner ∧ word callee.desc
  | type _ desc => word desc
  | field _ member => word member.owner ∧ word member.desc
  | .constant value => constant value

end Instruction

structure Method.Fits (m : Method) : Prop where
  labels : m.body.LabelsBound
  forms : ∀ i ∈ m.body, i.Fits

structure Method.Texts (word constant : String → Prop) (m : Method) : Prop where
  name : word m.name
  desc : word m.desc
  visible : ∀ d ∈ m.visible, word d
  invisible : ∀ d ∈ m.invisible, word d
  body : ∀ i ∈ m.body, i.Texts word constant

namespace ClassUnit

def Fits (c : ClassUnit) : Prop :=
  ∀ m ∈ c.methods, m.Fits

structure Texts (word constant : String → Prop) (c : ClassUnit) : Prop where
  name : word c.name
  methods : ∀ m ∈ c.methods, m.Texts word constant

/-- The trees that reading gives. -/
structure WellFormed (c : ClassUnit) : Prop where
  fits : c.Fits
  texts : c.Texts IsWord IsConstant

/-- None of the texts is taken for a comment where it is printed. -/
def MarkerFree (c : ClassUnit) : Prop :=
  c.Texts (fun s => Listing.opensComment s.toList = false) fun s => Listing.CommentSafe s.toList

/-- The trees that are read back from their printed form. -/
structure Printable (c : ClassUnit) : Prop where
  fits : c.Fits
  texts : c.Texts Listing.IsToken fun s => IsConstant s ∧ Listing.CommentSafe s.toList

end ClassUnit

/-! ## The conditions can be tested -/

instance (o : Opcode) (kind : OperandKind) : Decidable (o.Takes kind) :=
  inferInstanceAs (Decidable (_ ∧ _))

instance (s : String) : Decidable (IsMemberName s) :=
  inferInstanceAs (Decidable (_ ∧ _))

instance (s : String) : Decidable (IsConstant s) :=
  inferInstanceAs (Decidable (_ ∧ _ ∧ _))

instance Instruction.decidableFits : (i : Instruction) → Decidable i.Fits
  | label _ | lineNumber _ _ | frame | constant _ => isTrue trivial
  | call o callee _ => inferInstanceAs (Decidable (o.Takes .method ∧ IsMemberName callee.name))
  | jump o _ => inferInstanceAs (Decidable (o.Takes .jump))
  | slot o _ => inferInstanceAs (Decidable (o.Takes .slot))
  | integer o _ => inferInstanceAs (Decidable (o.Takes .integer))
  | type o _ => inferInstanceAs (Decidable (o.Takes .type))
  | field o member => inferInstanceAs (Decidable (o.Takes .field ∧ IsMemberName member.name))
  | plain o => inferInstanceAs (Decidable (o.Takes .none))

instance (m : Method) : Decidable m.Fits :=
  decidable_of_iff (m.body.LabelsBound ∧ ∀ i ∈ m.body, i.Fits)
    ⟨fun ⟨labels, forms⟩ => ⟨labels, forms⟩, fun ⟨labels, forms⟩ => ⟨labels, forms⟩⟩

instance (c : ClassUnit) : Decidable c.Fits :=
  inferInstanceAs (Decidable (∀ m ∈ c.methods, m.Fits))

section Texts
variable {word constant : String → Prop} [DecidablePred word] [DecidablePred constant]

instance Instruction.decidableTexts : (i : Instruction) → Decidable (i.Texts word constant)
  | label _ | lineNumber _ _ | frame | jump _ _ | slot _ _ | integer _ _ | plain _ => isTrue trivial
  | call _ callee _ => inferInstanceAs (Decidable (word callee.owner ∧ word callee.desc))
  | type _ desc => inferInstanceAs (Decidable (word desc))
  | field _ member => inferInstanceAs (Decidable (word member.owner ∧ word member.desc))
  | .constant value => inferInstanceAs (Decidable (constant value))

instance (m : Method) : Decidable (m.Texts word constant) :=
  decidable_of_iff (word m.name ∧ word m.desc ∧ (∀ d ∈ m.visible, word d) ∧
      (∀ d ∈ m.invisible, word d) ∧ ∀ i ∈ m.body, i.Texts word constant)
    ⟨fun ⟨name, desc, visible, invisible, body⟩ => ⟨name, desc, visible, invisible, body⟩,
      fun ⟨name, desc, visible, invisible, body⟩ => ⟨name, desc, visible, invisible, body⟩⟩

instance (c : ClassUnit) : Decidable (c.Texts word constant) :=
  decidable_of_iff (word c.name ∧ ∀ m ∈ c.methods, m.Texts word constant)
    ⟨fun ⟨name, methods⟩ => ⟨name, methods⟩, fun ⟨name, methods⟩ => ⟨name, methods⟩⟩

end Texts

instance (c : ClassUnit) : Decidable c.MarkerFree :=
  inferInstanceAs (Decidable (c.Texts _ _))

instance (c : ClassUnit) : Decidable c.Printable :=
  decidable_of_iff
    (c.Fits ∧ c.Texts Listing.IsToken fun s => IsConstant s ∧ Listing.CommentSafe s.toList)
    ⟨fun ⟨fits, texts⟩ => ⟨fits, texts⟩, fun ⟨fits, texts⟩ => ⟨fits, texts⟩⟩

/-! ## Opcodes with a name -/

theorem Opcode.takes_iff {o : Opcode} {kind : OperandKind} :
    o.Takes kind ↔ ∃ m, o.mnemonic? = some m ∧ m.operandKind = kind := by
  unfold Opcode.Takes Opcode.operandKind
  cases o.mnemonic? <;> simp

theorem Opcode.takes_named {m : Mnemonic} {kind : OperandKind} (h : m.operandKind = kind) :
    (Opcode.named m).Takes kind :=
  Opcode.takes_iff.mpr ⟨m, Mnemonic.ofByte?_byte m, h⟩

/-! ## Properties of texts -/

section Texts
variable {word word' constant constant' : String → Prop}

theorem Instruction.texts_and {i : Instruction} :
    i.Texts (fun s => word s ∧ word' s) (fun s => constant s ∧ constant' s) ↔
      i.Texts word constant ∧ i.Texts word' constant' := by
  cases i <;> simp only [Instruction.Texts, and_self] <;> tauto

theorem Method.texts_and {m : Method} :
    m.Texts (fun s => word s ∧ word' s) (fun s => constant s ∧ constant' s) ↔
      m.Texts word constant ∧ m.Texts word' constant' := by
  constructor
  · rintro ⟨name, desc, visible, invisible, body⟩
    exact ⟨⟨name.1, desc.1, fun d hd => (visible d hd).1, fun d hd => (invisible d hd).1,
        fun i hi => (Instruction.texts_and.mp (body i hi)).1⟩,
      ⟨name.2, desc.2, fun d hd => (visible d hd).2, fun d hd => (invisible d hd).2,
        fun i hi => (Instruction.texts_and.mp (body i hi)).2⟩⟩
  · rintro ⟨h, h'⟩
    exact ⟨⟨h.name, h'.name⟩, ⟨h.desc, h'.desc⟩,
      fun d hd => ⟨h.visible d hd, h'.visible d hd⟩,
      fun d hd => ⟨h.invisible d hd, h'.invisible d hd⟩,
      fun i hi => Instruction.texts_and.mpr ⟨h.body i hi, h'.body i hi⟩⟩

theorem ClassUnit.texts_and {c : ClassUnit} :
    c.Texts (fun s => word s ∧ word' s) (fun s => constant s ∧ constant' s) ↔
      c.Texts word constant ∧ c.Texts word' constant' := by
  constructor
  · rintro ⟨name, methods⟩
    exact ⟨⟨name.1, fun m hm => (Method.texts_and.mp (methods m hm)).1⟩,
      ⟨name.2, fun m hm => (Method.texts_and.mp (methods m hm)).2⟩⟩
  · rintro ⟨h, h'⟩
    exact ⟨⟨h.name, h'.name⟩, fun m hm => Method.texts_and.mpr ⟨h.methods m hm, h'.methods m hm⟩⟩

theorem Instruction.Texts.imp {i : Instruction} (h : i.Texts word constant)
    (hw : ∀ s, word s → word' s) (hc : ∀ s, constant s → constant' s) : i.Texts word' constant' := by
  cases i with
  | call o callee itf => exact ⟨hw _ h.1, hw _ h.2⟩
  | field o member => exact ⟨hw _ h.1, hw _ h.2⟩
  | type o desc => exact hw _ h
  | constant value => exact hc _ h
  | _ => trivial

theorem Method.Texts.imp {m : Method} (h : m.Texts word constant)
    (hw : ∀ s, word s → word' s) (hc : ∀ s, constant s → constant' s) : m.Texts word' constant' :=
  ⟨hw _ h.name, hw _ h.desc, fun d hd => hw _ (h.visible d hd), fun d hd => hw _ (h.invisible d hd),
    fun i hi => (h.body i hi).imp hw hc⟩

theorem ClassUnit.Texts.imp {c : ClassUnit} (h : c.Texts word constant)
    (hw : ∀ s, word s → word' s) (hc : ∀ s, constant s → constant' s) : c.Texts word' constant' :=
  ⟨hw _ h.name, fun m hm => (h.methods m hm).imp hw hc⟩

end Texts

/-- A printable tree is a well-formed one without a text that is taken for a comment. -/
theorem ClassUnit.printable_iff {c : ClassUnit} : c.Printable ↔ c.WellFormed ∧ c.MarkerFree := by
  constructor
  · rintro ⟨fits, texts⟩
    obtain ⟨hwell, hfree⟩ := ClassUnit.texts_and.mp texts
    exact ⟨⟨fits, hwell⟩, hfree⟩
  · rintro ⟨hwell, hfree⟩
    exact ⟨hwell.fits, ClassUnit.texts_and.mpr ⟨hwell.texts, hfree⟩⟩

/-! ## The form of opcodes -/

theorem Opcode.takes_normalize {o : Opcode} {kind : OperandKind} :
    o.normalize.Takes kind ↔ o.Takes kind := by
  have hname : o.normalize.mnemonic? = o.mnemonic? := Opcode.mnemonic?_congr o.byte_normalize
  rw [Opcode.takes_iff, Opcode.takes_iff, hname]

theorem Instruction.fits_normalize {i : Instruction} : i.normalize.Fits ↔ i.Fits := by
  cases i <;> simp [Instruction.normalize, Instruction.Fits, Opcode.takes_normalize]

theorem Instruction.texts_normalize {word constant : String → Prop} {i : Instruction} :
    i.normalize.Texts word constant ↔ i.Texts word constant := by
  cases i <;> rfl

theorem Body.labelsBound_normalize {b : Body} : b.normalize.LabelsBound ↔ b.LabelsBound := by
  have hdefined : b.normalize.definedLabels = b.definedLabels := by
    simp [Body.definedLabels, Body.normalize, List.filterMap_map]
  have hused : b.normalize.usedLabels = b.usedLabels := by
    simp [Body.usedLabels, Body.normalize, List.filterMap_map]
  constructor
  · rintro ⟨once, defined⟩
    rw [hdefined] at once
    rw [hdefined, hused] at defined
    exact ⟨once, defined⟩
  · rintro ⟨once, defined⟩
    rw [← hdefined] at once
    rw [← hdefined, ← hused] at defined
    exact ⟨once, defined⟩

theorem Method.fits_normalize {m : Method} : m.normalize.Fits ↔ m.Fits := by
  have hforms : (∀ i ∈ m.normalize.body, i.Fits) ↔ ∀ i ∈ m.body, i.Fits := by
    simp [Method.normalize, Body.normalize, Instruction.fits_normalize]
  constructor
  · rintro ⟨labels, forms⟩
    exact ⟨Body.labelsBound_normalize.mp labels, hforms.mp forms⟩
  · rintro ⟨labels, forms⟩
    exact ⟨Body.labelsBound_normalize.mpr labels, hforms.mpr forms⟩

theorem Method.texts_normalize {word constant : String → Prop} {m : Method} :
    m.normalize.Texts word constant ↔ m.Texts word constant := by
  have hbody : (∀ i ∈ m.normalize.body, i.Texts word constant) ↔
      ∀ i ∈ m.body, i.Texts word constant := by
    simp [Method.normalize, Body.normalize, Instruction.texts_normalize]
  constructor
  · rintro ⟨name, desc, visible, invisible, body⟩
    exact ⟨name, desc, visible, invisible, hbody.mp body⟩
  · rintro ⟨name, desc, visible, invisible, body⟩
    exact ⟨name, desc, visible, invisible, hbody.mpr body⟩

theorem ClassUnit.wellFormed_normalize {c : ClassUnit} : c.normalize.WellFormed ↔ c.WellFormed := by
  have hfits : c.normalize.Fits ↔ c.Fits := by
    simp [ClassUnit.Fits, ClassUnit.normalize, Method.fits_normalize]
  have hmethods : (∀ m ∈ c.normalize.methods, m.Texts IsWord IsConstant) ↔
      ∀ m ∈ c.methods, m.Texts IsWord IsConstant := by
    simp [ClassUnit.normalize, Method.texts_normalize]
  constructor
  · rintro ⟨fits, name, methods⟩
    exact ⟨hfits.mp fits, name, hmethods.mp methods⟩
  · rintro ⟨fits, name, methods⟩
    exact ⟨hfits.mpr fits, name, hmethods.mpr methods⟩

end ComposeGuards
