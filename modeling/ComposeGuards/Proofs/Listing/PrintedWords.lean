import ComposeGuards.Listing.Printer
import ComposeGuards.Proofs.Listing.ReadTrees
import ComposeGuards.Proofs.Text.Numerals

/-! # The words of printed lines

Every printed line is an indent and words that single spaces join. The words of an instruction of a
well-formed tree spell it up to the form of its opcode: labels, numerals and paths of members are
read back, and the first word is a name that neither starts a directive nor opens a comment.
-/
namespace ComposeGuards
open Text

namespace Instruction

def headWord : Instruction → String
  | label l => labelText l
  | lineNumber _ _ => "LINENUMBER"
  | frame => "FRAME"
  | constant _ => "LDC"
  | call o _ _ | jump o _ | slot o _ | integer o _ | type o _ | field o _ | plain o => o.text

/-- The words after the first; a constant counts as one. -/
def operandWords : Instruction → List String
  | label _ | frame | plain _ => []
  | lineNumber line start => [toString line.toNat, labelText start]
  | call _ callee onInterface =>
    callee.path :: callee.desc :: if onInterface then ["(itf)"] else []
  | jump _ target => [labelText target]
  | slot _ index => [toString index.toNat]
  | integer _ value => [signedText value.toInt]
  | type _ desc => [desc]
  | field _ member => [member.path, ":", member.desc]
  | constant value => [value]

def words (i : Instruction) : List String :=
  i.headWord :: i.operandWords

def indent : Instruction → List Char
  | label _ => []
  | _ => [' ', ' ']

theorem toList_text (i : Instruction) : i.text.toList = i.indent ++ spaced i.words := by
  cases i with
  | call o callee onInterface =>
    cases onInterface <;>
      simp [text, indent, words, headWord, operandWords, spaced, String.toList_append]
  | _ => simp [text, indent, words, headWord, operandWords, spaced, String.toList_append]

theorem eq_space_of_mem_indent {i : Instruction} {c : Char} (h : c ∈ i.indent) : c = ' ' := by
  cases i <;> simp_all [indent]

end Instruction

namespace Listing

/-! ## Operands are read back -/

theorem toList_labelText (l : Label) :
    (labelText l).toList = 'L' :: (toString l.toNat).toList := by
  rw [labelText, String.toList_append]
  rfl

theorem labelOfWord?_labelText (l : Label) : labelOfWord? (labelText l) = some l := by
  rw [labelOfWord?, toList_labelText]
  simp only [digits?_toString, Option.bind_some, word32?_toNat]

theorem isWord_labelText (l : Label) : IsWord (labelText l) := by
  have hnumber := isWord_toString l.toNat
  refine ⟨by simp [labelText], ?_⟩
  intro c hc
  rw [toList_labelText] at hc
  rcases List.mem_cons.mp hc with rfl | hc
  · decide
  · exact hnumber.2 c hc

theorem lineOfWord?_toString (line : UInt32) : lineOfWord? (toString line.toNat) = some line := by
  rw [lineOfWord?, unsigned?_toString, Option.bind_some, word32?_toNat]

theorem slotOfWord?_toString (index : UInt16) : slotOfWord? (toString index.toNat) = some index := by
  rw [slotOfWord?, unsigned?_toString, Option.bind_some, word16?_toNat]

theorem integerOfWord?_signedText (value : Int32) :
    integerOfWord? (signedText value.toInt) = some value := by
  rw [integerOfWord?, signed?_signedText, Option.bind_some, int32?_toInt]

theorem memberOfWord?_path {member : MemberRef} (howner : IsWord member.owner)
    (hname : IsMemberName member.name) :
    memberOfWord? member.path = some (member.owner, member.name) :=
  memberOfWord?_eq_some_iff.mpr ⟨rfl, howner.1, hname.1.1, hname.2⟩

theorem isWord_path {member : MemberRef} (howner : IsWord member.owner)
    (hname : IsMemberName member.name) : IsWord member.path := by
  refine ⟨by simp [MemberRef.path], ?_⟩
  intro c hc
  simp only [MemberRef.path, String.toList_append, List.mem_append] at hc
  rcases hc with (hc | hc) | hc
  · exact howner.2 c hc
  · rw [List.mem_singleton.mp hc]
    decide
  · exact hname.1.2 c hc

theorem opensComment_path {member : MemberRef} (howner : IsWord member.owner) :
    opensComment member.path.toList = opensComment member.owner.toList := by
  obtain ⟨c, cs, hcs, -⟩ := howner.head?_eq_some
  have hpath : member.path.toList = c :: (cs ++ '.' :: member.name.toList) := by
    simp [MemberRef.path, String.toList_append, hcs]
  rw [hpath, hcs, Bool.eq_iff_iff, opensComment_iff, opensComment_iff]
  cases cs with
  | nil => simp [List.cons_prefix_cons]
  | cons d ds => simp [List.cons_prefix_cons]

theorem exists_text_eq_name {o : Opcode} {kind : OperandKind} (h : o.Takes kind) :
    ∃ m, o.text = m.name ∧ o.normalize = .named m ∧ m.operandKind = kind := by
  obtain ⟨m, hm, hkind⟩ := Opcode.takes_iff.mp h
  refine ⟨m, by simp [Opcode.text, hm], ?_, hkind⟩
  rw [Opcode.normalize, Opcode.ofByte, show Mnemonic.ofByte? o.byte = some m from hm]

theorem isWord_name (m : Mnemonic) : IsWord m.name := by
  cases m <;> decide

/-! ## Words of an instruction -/

section Words
variable {i : Instruction}

theorem spells_of_takes {o : Opcode} {kind : OperandKind} {rest : List Char} {ws : List String}
    {f : Opcode → Instruction} (ho : o.Takes kind)
    (h : ∀ m, m.operandKind = kind → SpellsOperands m rest ws (f (.named m))) :
    Spells rest (o.text :: ws) (f o.normalize) := by
  obtain ⟨m, htext, hnamed, hkind⟩ := exists_text_eq_name ho
  rw [htext, hnamed]
  exact .opcode (h m hkind)

/-- Away from constants, the words spell the instruction with the name of its opcode. -/
theorem spells_words (hf : i.Fits) (ht : i.Texts IsWord IsConstant)
    (hc : ∀ value, i ≠ .constant value) (rest : List Char) :
    Spells rest i.words i.normalize := by
  cases i with
  | label l => exact .label (labelOfWord?_labelText l)
  | lineNumber line start =>
    exact .lineNumber (lineOfWord?_toString line) (labelOfWord?_labelText start)
  | frame => exact .frame
  | call o callee onInterface =>
    have hmember := memberOfWord?_path ht.1 hf.2
    refine spells_of_takes (f := fun o => .call o callee onInterface) hf.1 fun m hkind => ?_
    cases onInterface with
    | false => exact .call hkind hmember
    | true => exact .callOnInterface hkind hmember
  | jump o target =>
    have hread := labelOfWord?_labelText target
    exact spells_of_takes (f := fun o => .jump o target) hf fun m hkind => .jump hkind hread
  | slot o index =>
    have hread := slotOfWord?_toString index
    exact spells_of_takes (f := fun o => .slot o index) hf fun m hkind => .slot hkind hread
  | integer o value =>
    have hread := integerOfWord?_signedText value
    exact spells_of_takes (f := fun o => .integer o value) hf fun m hkind => .integer hkind hread
  | type o desc => exact spells_of_takes (f := fun o => .type o desc) hf fun m hkind => .type hkind
  | field o member =>
    have hmember := memberOfWord?_path ht.1 hf.2
    exact spells_of_takes (f := fun o => .field o member) hf.1 fun m hkind => .field hkind hmember
  | constant value => exact absurd rfl (hc value)
  | plain o => exact spells_of_takes (f := .plain) hf fun m hkind => .plain hkind

theorem exists_name_of_fits (hf : i.Fits) :
    (∃ l, i.headWord = labelText l) ∨ i.headWord = "LINENUMBER" ∨ i.headWord = "FRAME" ∨
      ∃ m : Mnemonic, i.headWord = m.name ∧
        (m.operandKind = .constant → ∃ value, i = .constant value) := by
  have hnamed : ∀ {o : Opcode} {kind : OperandKind}, o.Takes kind → kind ≠ .constant →
      ∃ m : Mnemonic, o.text = m.name ∧
        (m.operandKind = .constant → ∃ value, i = .constant value) := by
    intro o kind ho hne
    obtain ⟨m, htext, -, hkind⟩ := exists_text_eq_name ho
    exact ⟨m, htext, fun h => absurd (hkind.symm.trans h) hne⟩
  cases i with
  | label l => exact .inl ⟨l, rfl⟩
  | lineNumber line start => exact .inr (.inl rfl)
  | frame => exact .inr (.inr (.inl rfl))
  | call o callee onInterface => exact .inr (.inr (.inr (hnamed hf.1 (by decide))))
  | field o member => exact .inr (.inr (.inr (hnamed hf.1 (by decide))))
  | constant value => exact .inr (.inr (.inr ⟨.ldc, rfl, fun _ => ⟨value, rfl⟩⟩))
  | jump o target => exact .inr (.inr (.inr (hnamed hf (by decide))))
  | slot o index => exact .inr (.inr (.inr (hnamed hf (by decide))))
  | integer o value => exact .inr (.inr (.inr (hnamed hf (by decide))))
  | type o desc => exact .inr (.inr (.inr (hnamed hf (by decide))))
  | plain o => exact .inr (.inr (.inr (hnamed hf (by decide))))

/-- The first word starts with a capital letter, unlike directives and comments. -/
theorem exists_upper_headWord (hf : i.Fits) :
    ∃ c cs, i.headWord.toList = c :: cs ∧ c.isUpper = true := by
  rcases exists_name_of_fits hf with ⟨l, h⟩ | h | h | ⟨m, h, -⟩
  · exact ⟨'L', (toString l.toNat).toList, by rw [h, toList_labelText], by decide⟩
  · exact ⟨'L', "INENUMBER".toList, by rw [h]; rfl, by decide⟩
  · exact ⟨'F', "RAME".toList, by rw [h]; rfl, by decide⟩
  · rw [h]
    cases m <;> exact ⟨_, _, rfl, by decide⟩

theorem opensComment_headWord (hf : i.Fits) : opensComment i.headWord.toList = false := by
  obtain ⟨c, cs, hcs, hupper⟩ := exists_upper_headWord hf
  rw [hcs]
  unfold opensComment
  split
  · next h => cases h; exact absurd hupper (by decide)
  · next h => cases h; exact absurd hupper (by decide)
  · rfl

theorem headWord_not_mem_directives (hf : i.Fits) : i.headWord ∉ directives := by
  obtain ⟨c, cs, hcs, hupper⟩ := exists_upper_headWord hf
  have hpoint : ∀ d ∈ directives, d.toList.head? = some '.' := by decide
  intro hmem
  have hhead := hpoint _ hmem
  rw [hcs] at hhead
  cases hhead
  exact absurd hupper (by decide)

theorem headWord_ne_ldc (hf : i.Fits) (hc : ∀ value, i ≠ .constant value) :
    i.headWord ≠ "LDC" := by
  intro hldc
  rcases exists_name_of_fits hf with ⟨l, h⟩ | h | h | ⟨m, h, hm⟩
  · have hread := labelOfWord?_labelText l
    rw [← h, hldc, show labelOfWord? "LDC" = none by decide] at hread
    cases hread
  · rw [hldc] at h
    exact absurd h (by decide)
  · rw [hldc] at h
    exact absurd h (by decide)
  · obtain ⟨value, hvalue⟩ := hm (operandKind_of_name_eq_ldc (h.symm.trans hldc))
    exact hc value hvalue

theorem isWord_headWord (hf : i.Fits) : IsWord i.headWord := by
  rcases exists_name_of_fits hf with ⟨l, h⟩ | h | h | ⟨m, h, -⟩
  · rw [h]
    exact isWord_labelText l
  · rw [h]
    decide
  · rw [h]
    decide
  · rw [h]
    exact isWord_name m

/-- The operands are numerals, labels, paths, descriptors, and the two marks between them. -/
theorem forall_operandWords {word constant p : String → Prop} (hf : i.Fits)
    (ht : i.Texts word constant) (hc : ∀ value, i ≠ .constant value) (hword : ∀ s, word s → p s)
    (hpath : ∀ member : MemberRef, word member.owner → IsMemberName member.name → p member.path)
    (hlabel : ∀ l, p (labelText l)) (hnat : ∀ n : Nat, p (toString n))
    (hint : ∀ n, p (signedText n)) (hcolon : p ":") (hitf : p "(itf)") :
    ∀ w ∈ i.operandWords, p w := by
  cases i with
  | label l => exact List.forall_mem_nil _
  | lineNumber line start =>
    exact List.forall_mem_cons.mpr ⟨hnat _, List.forall_mem_singleton.mpr (hlabel start)⟩
  | frame => exact List.forall_mem_nil _
  | call o callee onInterface =>
    have hflag : ∀ w ∈ if onInterface then ["(itf)"] else [], p w := by
      cases onInterface with
      | false => exact List.forall_mem_nil _
      | true => exact List.forall_mem_singleton.mpr hitf
    exact List.forall_mem_cons.mpr
      ⟨hpath callee ht.1 hf.2, List.forall_mem_cons.mpr ⟨hword _ ht.2, hflag⟩⟩
  | jump o target => exact List.forall_mem_singleton.mpr (hlabel target)
  | slot o index => exact List.forall_mem_singleton.mpr (hnat _)
  | integer o value => exact List.forall_mem_singleton.mpr (hint _)
  | type o desc => exact List.forall_mem_singleton.mpr (hword _ ht)
  | field o member =>
    exact List.forall_mem_cons.mpr ⟨hpath member ht.1 hf.2,
      List.forall_mem_cons.mpr ⟨hcolon, List.forall_mem_singleton.mpr (hword _ ht.2)⟩⟩
  | constant value => exact absurd rfl (hc value)
  | plain o => exact List.forall_mem_nil _

theorem isWord_operandWords (hf : i.Fits) (ht : i.Texts IsWord IsConstant)
    (hc : ∀ value, i ≠ .constant value) : ∀ w ∈ i.operandWords, IsWord w :=
  forall_operandWords hf ht hc (fun _ h => h) (fun _ => isWord_path) isWord_labelText
    isWord_toString isWord_signedText (by decide) (by decide)

end Words

end Listing
end ComposeGuards
