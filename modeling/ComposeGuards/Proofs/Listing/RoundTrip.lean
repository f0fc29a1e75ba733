import ComposeGuards.Proofs.Listing.PrintedLines

/-! # Printing and reading back

The printed form of a tree whose names and descriptors are tokens is read, and everything but the
constants is read as it was printed. Conversely a well-formed tree whose printed form is read has
such names and descriptors, since a word less makes a line unreadable. So a tree is read back exactly
when moreover its constants are, which are then safe.
-/
namespace ComposeGuards
open Text Listing

/-- What reading makes of the printed instruction. -/
def Instruction.reread : Instruction → Instruction
  | constant value => constant (rereadConstant value)
  | i => i.normalize

theorem Instruction.reread_of_ne_constant {i : Instruction} (h : ∀ value, i ≠ .constant value) :
    i.reread = i.normalize := by
  cases i with
  | constant value => exact absurd rfl (h value)
  | _ => rfl

def Method.reread (m : Method) : Method :=
  { m with body := m.body.map Instruction.reread }

def ClassUnit.reread (c : ClassUnit) : ClassUnit :=
  { c with methods := c.methods.map Method.reread }

/-- A constant of which something is left when its line is read. -/
def LeavesConstant (s : String) : Prop :=
  IsConstant s ∧ rereadConstant s ≠ ""

/-- The trees whose printed form is read, if not back to the tree. -/
structure ClassUnit.Readable (c : ClassUnit) : Prop where
  fits : c.Fits
  texts : c.Texts IsToken LeavesConstant

theorem ClassUnit.Readable.wellFormed {c : ClassUnit} (h : c.Readable) : c.WellFormed :=
  ⟨h.fits, h.texts.imp (fun _ h => h.1) fun _ h => h.1⟩

namespace Listing

def Entry.reread : Entry → Entry
  | annotated retention desc => annotated retention desc
  | instruction i => instruction i.reread

/-! ## What is printed from tokens is read -/

section Reads
variable {i : Instruction} {e : Entry} {m : Method} {c : ClassUnit}

theorem texts_words (h : i.Texts IsToken LeavesConstant) : i.Texts IsWord IsConstant :=
  h.imp (fun _ h => h.1) fun _ h => h.1

theorem opensComment_toString (n : Nat) : opensComment (toString n).toList = false := by
  obtain ⟨d, ds, hn, hd⟩ := toString_eq_cons n
  rw [hn]
  apply opensComment_cons_eq_false
  · rintro rfl
    exact absurd hd (by decide)
  · rintro rfl
    exact absurd hd (by decide)

theorem opensComment_labelText (l : Label) : opensComment (labelText l).toList = false := by
  rw [toList_labelText]
  exact opensComment_cons_eq_false (by decide) (by decide) _

theorem opensComment_signedText (n : Int) : opensComment (signedText n).toList = false := by
  unfold signedText
  split
  · rw [String.toList_append]
    exact opensComment_cons_eq_false (by decide) (by decide) _
  · exact opensComment_toString _

theorem opensComment_operandWords (hf : i.Fits) (ht : i.Texts IsToken LeavesConstant)
    (hc : ∀ value, i ≠ .constant value) :
    ∀ w ∈ i.operandWords, opensComment w.toList = false :=
  forall_operandWords hf ht hc (fun _ h => h.2)
    (fun _ howner _ => (opensComment_path howner.1).trans howner.2) opensComment_labelText
    opensComment_toString opensComment_signedText (by decide) (by decide)

theorem spells_seen (hf : i.Fits) (ht : i.Texts IsToken LeavesConstant) :
    Spells (afterFirstWord (seen i.text)) (words (seen i.text)) i.reread := by
  by_cases hconstant : ∃ value, i = .constant value
  · obtain ⟨value, rfl⟩ := hconstant
    obtain ⟨us, -, -, hwords, -⟩ := read_uncommented_constant ht.1
    have hrest : afterFirstWord (uncommented (spaced ["LDC", value])) ≠ [] := by
      simpa [rereadConstant, String.ofList_eq_empty_iff] using ht.2
    have hseen : seen (Instruction.constant value).text = uncommented (spaced ["LDC", value]) :=
      seen_constant value
    rw [hseen, hwords]
    exact Spells.opcode (m := .ldc) (.constant rfl hrest)
  · have hc : ∀ value, i ≠ .constant value := fun value h => hconstant ⟨value, h⟩
    rw [words_seen_instruction hf (texts_words ht) hc,
      keptWords_eq_self (opensComment_operandWords hf ht hc), Instruction.reread_of_ne_constant hc]
    exact spells_words hf (texts_words ht) hc _

theorem isEntry_seen (hf : e.Fits) (ht : e.Texts IsToken LeavesConstant) :
    IsEntry (seen e.text) e.reread := by
  cases e with
  | annotated r d =>
    have hkept : keptWords [retentionWord r, d] = [retentionWord r, d] := by
      refine keptWords_eq_self (List.forall_mem_cons.mpr ⟨?_, List.forall_mem_singleton.mpr ht.2⟩)
      cases r <;> decide
    have hwords := words_seen_text (e := .annotated r d) hf ht.1 fun _ h => by cases h
    rw [Entry.operandWords, hkept] at hwords
    exact .annotated hwords
  | instruction i =>
    obtain ⟨ws, hwords⟩ := words_seen_instruction_eq_cons hf (texts_words ht)
    exact .instruction hwords (headWord_not_mem_directives hf)
      (readInstruction_eq_ok_iff.mpr (spells_seen hf ht))

theorem methodOf_reread (m : Method) :
    methodOf m.name m.desc ((entriesOf m).map Entry.reread) = m.reread := by
  have hentries : (entriesOf m).map Entry.reread = entriesOf m.reread := by
    simp only [entriesOf, Method.reread, List.map_append, List.map_map]
    rfl
  rw [hentries]
  exact methodOf_entriesOf m.reread

theorem Body.labelsBound_reread {b : Body} (h : b.LabelsBound) :
    Body.LabelsBound (b.map Instruction.reread) := by
  have hdefines : ∀ i : Instruction, i.reread.defines? = i.defines? := by
    intro i
    cases i <;> rfl
  have hrefers : ∀ i : Instruction, i.reread.refersTo? = i.refersTo? := by
    intro i
    cases i <;> rfl
  obtain ⟨once, defined⟩ := h
  refine ⟨?_, ?_⟩
  · simpa [Body.definedLabels, List.filterMap_map, Function.comp_def, hdefines] using once
  · simpa [Body.definedLabels, Body.usedLabels, List.filterMap_map, Function.comp_def, hdefines,
      hrefers] using defined

theorem isMethod_seen (hf : m.Fits) (ht : m.Texts IsToken LeavesConstant) :
    IsMethod (m.lines.map seen) m.reread := by
  have hheader : words (seen (methodHeader m)) = [".method", m.name, m.desc] := by
    have htokens : ∀ w ∈ [m.name, m.desc], opensComment w.toList = false :=
      List.forall_mem_cons.mpr ⟨ht.name.2, List.forall_mem_singleton.mpr ht.desc.2⟩
    rw [words_seen_methodHeader ht.name.1 ht.desc.1, keptWords_eq_self htokens]
  have hentries : List.Forall₂ IsEntry ((entriesOf m).map fun e => seen e.text)
      ((entriesOf m).map Entry.reread) := by
    rw [List.forall₂_map_left_iff, List.forall₂_map_right_iff, List.forall₂_same]
    intro e he
    exact isEntry_seen (forall_entries_of_fits hf e he) (forall_entries_of_texts ht e he)
  have hlabels : (methodOf m.name m.desc ((entriesOf m).map Entry.reread)).body.LabelsBound := by
    rw [methodOf_reread]
    exact Body.labelsBound_reread hf.labels
  have hlines : m.lines.map seen =
      seen (methodHeader m) :: ((entriesOf m).map (fun e => seen e.text) ++ [seen ".end"]) := by
    simp [lines_eq_entries]
  rw [hlines, ← methodOf_reread]
  exact .lines hheader hentries hlabels words_seen_end

theorem isClass_seen (h : c.Readable) : IsClass (c.lines.map seen) c.reread := by
  obtain ⟨hf, hname, hmethods⟩ := h
  have hblocks : List.Forall₂ IsMethod (c.methods.map fun m => m.lines.map seen)
      (c.methods.map Method.reread) := by
    rw [List.forall₂_map_left_iff, List.forall₂_map_right_iff, List.forall₂_same]
    intro m hm
    exact isMethod_seen (hf m hm) (hmethods m hm)
  have hlines : c.lines.map seen =
      seen (classHeader c) :: (c.methods.map fun m => m.lines.map seen).flatten := by
    have hcons : c.lines = classHeader c :: c.methods.flatMap Method.lines := rfl
    rw [hcons, List.map_cons, List.map_flatMap, List.flatMap_def]
  have htokens : ∀ w ∈ c.name :: if c.isKotlin then ["kotlin"] else [],
      opensComment w.toList = false := by
    have hflag : ∀ w ∈ if c.isKotlin then ["kotlin"] else [], opensComment w.toList = false := by
      cases c.isKotlin <;> decide
    exact List.forall_mem_cons.mpr ⟨hname.2, hflag⟩
  have hheader := words_seen_classHeader hname.1
  rw [keptWords_eq_self htokens] at hheader
  rw [hlines]
  obtain ⟨name, isKotlin, methods⟩ := c
  cases isKotlin with
  | false => exact .plain hheader hblocks
  | true => exact .kotlin hheader hblocks

end Reads

theorem read_print_of_readable {cs : List ClassUnit} (h : ∀ c ∈ cs, c.Readable) :
    read (print cs) = .ok (cs.map ClassUnit.reread) := by
  rw [read_eq_ok_iff_isListing, significant_print fun c hc => (h c hc).wellFormed]
  refine ⟨cs.map fun c => c.lines.map seen, by rw [List.map_flatMap, List.flatMap_def], ?_⟩
  rw [List.forall₂_map_left_iff, List.forall₂_map_right_iff, List.forall₂_same]
  intro c hc
  exact isClass_seen (h c hc)

/-! ## What is read was printed from tokens -/

section Accepted
variable {i : Instruction} {e : Entry} {c : ClassUnit}

/-- The mnemonic of a read line had as many words after it as it needs. -/
theorem wordCount_le_of_spells {o : Opcode} {kind : OperandKind} (ho : o.Takes kind)
    {rest : List Char} {ws : List String} (h : Spells rest (o.text :: ws) i) :
    wordCount kind ≤ ws.length := by
  obtain ⟨m, htext, -, rfl⟩ := exists_text_eq_name ho
  rw [htext] at h
  exact h.operands_of_name.wordCount_le

theorem ne_nil_of_spells_constant {rest : List Char} {ws : List String}
    (h : Spells rest ("LDC" :: ws) i) : rest ≠ [] := by
  have hldc : Spells rest (Mnemonic.ldc.name :: ws) i := h
  cases hldc.operands_of_name with
  | constant kind text => exact text
  | plain kind => exact absurd kind (by decide)
  | slot kind => exact absurd kind (by decide)
  | integer kind => exact absurd kind (by decide)
  | type kind => exact absurd kind (by decide)
  | field kind => exact absurd kind (by decide)
  | call kind => exact absurd kind (by decide)
  | callOnInterface kind => exact absurd kind (by decide)
  | jump kind => exact absurd kind (by decide)

theorem texts_of_spells {j : Instruction} (hf : i.Fits) (ht : i.Texts IsWord IsConstant)
    (h : Spells (afterFirstWord (seen i.text)) (words (seen i.text)) j) :
    i.Texts IsToken LeavesConstant := by
  cases i with
  | call o callee onInterface =>
    rw [words_seen_instruction hf ht fun _ h => by cases h] at h
    have hkept := opensComment_of_le_length_keptWords (wordCount_le_of_spells hf.1 h)
    have howner : opensComment callee.path.toList = false := hkept _ (by
      simp [Instruction.operandWords, wordCount])
    rw [opensComment_path ht.1] at howner
    exact ⟨⟨ht.1, howner⟩, ht.2, hkept _ (by simp [Instruction.operandWords, wordCount])⟩
  | field o member =>
    rw [words_seen_instruction hf ht fun _ h => by cases h] at h
    have hkept := opensComment_of_le_length_keptWords (wordCount_le_of_spells hf.1 h)
    have howner : opensComment member.path.toList = false := hkept _ (by
      simp [Instruction.operandWords, wordCount])
    rw [opensComment_path ht.1] at howner
    exact ⟨⟨ht.1, howner⟩, ht.2, hkept _ (by simp [Instruction.operandWords, wordCount])⟩
  | type o desc =>
    rw [words_seen_instruction hf ht fun _ h => by cases h] at h
    have hkept := opensComment_of_le_length_keptWords (wordCount_le_of_spells hf h)
    exact ⟨ht, hkept _ (by simp [Instruction.operandWords, wordCount])⟩
  | constant value =>
    obtain ⟨us, -, -, hwords, -⟩ := read_uncommented_constant ht
    have hseen : seen (Instruction.constant value).text = uncommented (spaced ["LDC", value]) :=
      seen_constant value
    rw [hseen, hwords] at h
    have hrest := ne_nil_of_spells_constant h
    exact ⟨ht, by simpa [rereadConstant, String.ofList_eq_empty_iff] using hrest⟩
  | _ => trivial

theorem texts_of_advances {p q : Progress} (hf : e.Fits) (ht : e.Texts IsWord IsConstant)
    (h : Advances (seen e.text) p q) : e.Texts IsToken LeavesConstant := by
  cases e with
  | annotated r d =>
    have hwords := words_seen_text (e := .annotated r d) hf ht fun _ h => by cases h
    have hcount : 2 ≤ (keptWords [retentionWord r, d]).length :=
      h.wordCount_le (d := .annotationLine) hwords
    exact ⟨ht, opensComment_of_le_length_keptWords hcount d (by simp)⟩
  | instruction i =>
    obtain ⟨ws, hwords⟩ := words_seen_instruction_eq_cons hf ht
    obtain ⟨-, -, j, -, -, hread, -⟩ :=
      h.instruction_cases hwords (headWord_not_mem_directives hf)
    exact texts_of_spells hf ht (readInstruction_eq_ok_iff.mp hread)

theorem readable_of_advances (hwf : c.WellFormed)
    (h : ∀ l ∈ c.lines, ∃ p q, Advances (seen l) p q) : c.Readable := by
  obtain ⟨hheader, hmethods⟩ := forall_mem_classLines.mp h
  refine ⟨hwf.fits, ⟨hwf.texts.name, ?_⟩, ?_⟩
  · obtain ⟨p, q, hline⟩ := hheader
    have hcount := hline.wordCount_le (d := .classHeader) (words_seen_classHeader hwf.texts.name)
    exact opensComment_of_le_length_keptWords hcount _ (by simp [Directive.wordCount])
  · intro m hm
    have hf := hwf.fits m hm
    have ht := hwf.texts.methods m hm
    obtain ⟨⟨p, q, hline⟩, hentries, -⟩ := forall_mem_methodLines.mp (hmethods m hm)
    have hcount := hline.wordCount_le (d := .methodHeader)
      (words_seen_methodHeader ht.name ht.desc)
    have hkept := opensComment_of_le_length_keptWords hcount
    have htexts : ∀ e ∈ entriesOf m, e.Texts IsToken LeavesConstant := by
      intro e he
      obtain ⟨p, q, hline⟩ := hentries e he
      exact texts_of_advances (forall_entries_of_fits hf e he) (forall_entries_of_texts ht e he)
        hline
    obtain ⟨hvisible, hinvisible, hbody⟩ := forall_mem_entriesOf.mp htexts
    exact ⟨⟨ht.name, hkept _ (by simp [Directive.wordCount])⟩,
      ⟨ht.desc, hkept _ (by simp [Directive.wordCount])⟩, hvisible, hinvisible, hbody⟩

theorem readable_of_read_print {cs ds : List ClassUnit} (hwf : ∀ c ∈ cs, c.WellFormed)
    (h : read (print cs) = .ok ds) : ∀ c ∈ cs, c.Readable := by
  intro c hc
  refine readable_of_advances (hwf c hc) ?_
  intro l hl
  rw [read_eq_ok_iff, significant_print hwf] at h
  exact h.exists_advances (List.mem_map_of_mem (List.mem_flatMap.mpr ⟨c, hc, hl⟩))

end Accepted

/-! ## What is read back -/

section Back

/-- Constants apart, nothing changes but the form of opcodes. -/
theorem normalize_reread_eq_iff {i : Instruction} :
    i.reread.normalize = i.normalize ↔
      i.Texts (fun _ => True) fun s => rereadConstant s = s := by
  have hopcode : ∀ o : Opcode, o.normalize.normalize = o.normalize := fun o =>
    Opcode.normalize_eq_iff.mpr o.byte_normalize
  cases i <;> simp [Instruction.reread, Instruction.normalize, Instruction.Texts, hopcode]

theorem normalize_reread_method_eq_iff {m : Method} :
    m.reread.normalize = m.normalize ↔ m.Texts (fun _ => True) fun s => rereadConstant s = s := by
  have hbody : m.reread.normalize = m.normalize ↔
      ∀ i ∈ m.body, i.reread.normalize = i.normalize := by
    rw [← List.map_inj_left (f := fun i : Instruction => i.reread.normalize)]
    simp [Method.normalize, Method.reread, Body.normalize, Function.comp_def]
  rw [hbody]
  simp only [normalize_reread_eq_iff]
  exact ⟨fun h => ⟨trivial, trivial, fun _ _ => trivial, fun _ _ => trivial, h⟩, fun h => h.body⟩

theorem normalize_reread_class_eq_iff {c : ClassUnit} :
    c.reread.normalize = c.normalize ↔ c.Texts (fun _ => True) fun s => rereadConstant s = s := by
  have hmethods : c.reread.normalize = c.normalize ↔
      ∀ m ∈ c.methods, m.reread.normalize = m.normalize := by
    rw [← List.map_inj_left (f := fun m : Method => m.reread.normalize)]
    simp [ClassUnit.normalize, ClassUnit.reread, Function.comp_def]
  rw [hmethods]
  simp only [normalize_reread_method_eq_iff]
  exact ⟨fun h => ⟨trivial, h⟩, fun h => h.methods⟩

theorem printable_iff_readable {c : ClassUnit} :
    c.Printable ↔ c.Readable ∧ c.reread.normalize = c.normalize := by
  rw [normalize_reread_class_eq_iff]
  constructor
  · rintro ⟨fits, texts⟩
    refine ⟨⟨fits, texts.imp (fun _ h => h) ?_⟩, texts.imp (fun _ _ => trivial) ?_⟩
    · rintro s ⟨hs, hsafe⟩
      exact ⟨hs, by rw [(rereadConstant_eq_iff hs).mpr hsafe]; exact hs.1⟩
    · rintro s ⟨hs, hsafe⟩
      exact (rereadConstant_eq_iff hs).mpr hsafe
  · rintro ⟨⟨fits, texts⟩, same⟩
    refine ⟨fits, (ClassUnit.texts_and.mpr ⟨texts, same⟩).imp (fun _ h => h.1) ?_⟩
    rintro s ⟨⟨hs, -⟩, heq⟩
    exact ⟨hs, (rereadConstant_eq_iff hs).mp heq⟩

theorem sameAll_iff {cs ds : List ClassUnit} :
    ClassUnit.sameAll cs ds = true ↔ cs.map ClassUnit.normalize = ds.map ClassUnit.normalize :=
  decide_eq_true_iff

theorem exists_same_of_printable {cs : List ClassUnit} (h : ∀ c ∈ cs, c.Printable) :
    ∃ ds, read (print cs) = .ok ds ∧ ClassUnit.sameAll ds cs = true := by
  refine ⟨_, read_print_of_readable fun c hc => (printable_iff_readable.mp (h c hc)).1, ?_⟩
  rw [sameAll_iff, List.map_map]
  exact List.map_congr_left fun c hc => (printable_iff_readable.mp (h c hc)).2

/-- The tree that was read is well formed, so the printed one is. -/
theorem wellFormed_of_same {text : String} {cs ds : List ClassUnit} (h : read text = .ok ds)
    (hsame : ClassUnit.sameAll ds cs = true) : ∀ c ∈ cs, c.WellFormed := by
  intro c hc
  have hmem : c.normalize ∈ ds.map ClassUnit.normalize := by
    rw [sameAll_iff.mp hsame]
    exact List.mem_map_of_mem hc
  obtain ⟨d, hd, hdc⟩ := List.mem_map.mp hmem
  rw [← ClassUnit.wellFormed_normalize, ← hdc, ClassUnit.wellFormed_normalize]
  exact wellFormed_of_read h d hd

theorem printable_of_same {cs ds : List ClassUnit} (h : read (print cs) = .ok ds)
    (hsame : ClassUnit.sameAll ds cs = true) : ∀ c ∈ cs, c.Printable := by
  have hreadable := readable_of_read_print (wellFormed_of_same h hsame) h
  have hds : ds = cs.map ClassUnit.reread :=
    Except.ok.inj (h.symm.trans (read_print_of_readable hreadable))
  rw [sameAll_iff, hds, List.map_map] at hsame
  intro c hc
  exact printable_iff_readable.mpr ⟨hreadable c hc, List.map_inj_left.mp hsame c hc⟩

end Back

/-- Printing and reading back gives the same tree exactly when the tree is printable. -/
theorem print_then_read_same_iff_printable (cs : List ClassUnit) :
    (∃ ds, read (print cs) = .ok ds ∧ ClassUnit.sameAll ds cs = true) ↔
      ∀ c ∈ cs, c.Printable := by
  constructor
  · rintro ⟨ds, hread, hsame⟩
    exact printable_of_same hread hsame
  · exact exists_same_of_printable

end Listing
end ComposeGuards
