import ComposeGuards.Proofs.Listing.Grammar
import ComposeGuards.Proofs.Listing.WellFormed
import ComposeGuards.Proofs.Text.LineBreaks

/-! # What is read

Every part of a tree that was read stands in some line of the text, so what holds of the words and
constants of the lines holds of the texts of the tree. The tree is well formed, and its opcodes carry
their names.
-/
namespace ComposeGuards.Listing
open ComposeGuards.Text

/-- What holds of the words after the first, and of the rest of the line after `LDC`. -/
structure Supplies (word constant : String → Prop) (line : List Char) : Prop where
  words : ∀ head ws, words line = head :: ws → head ≠ "LDC" → ∀ w ∈ ws, word w
  constant : ∀ ws, Text.words line = "LDC" :: ws → afterFirstWord line ≠ [] →
    constant (String.ofList (afterFirstWord line))

theorem exists_of_mem_right {α β : Type} {R : α → β → Prop} {xs : List α} {ys : List β}
    (h : List.Forall₂ R xs ys) {b : β} (hb : b ∈ ys) : ∃ a ∈ xs, R a b := by
  induction h with
  | nil => cases hb
  | @cons x y xs ys hxy _ ih =>
    rcases List.mem_cons.mp hb with rfl | hb
    · exact ⟨x, List.mem_cons_self, hxy⟩
    · obtain ⟨a, ha, hab⟩ := ih hb
      exact ⟨a, List.mem_cons_of_mem x ha, hab⟩

/-! ## One instruction -/

section Instructions
variable {rest line : List Char} {ws : List String} {i : Instruction} {m : Mnemonic}

theorem isWord_of_memberOfWord? {w owner name : String} (hw : IsWord w)
    (h : memberOfWord? w = some (owner, name)) : IsWord owner ∧ IsMemberName name := by
  obtain ⟨rfl, howner, hname, hpoint⟩ := memberOfWord?_eq_some_iff.mp h
  have hall := hw.2
  simp only [String.toList_append, List.mem_append] at hall
  exact ⟨⟨howner, fun c hc => hall c (.inl (.inl hc))⟩,
    ⟨hname, fun c hc => hall c (.inr hc)⟩, hpoint⟩

theorem SpellsOperands.fits (h : SpellsOperands m rest ws i) (hws : ∀ w ∈ ws, IsWord w) :
    i.Fits := by
  cases h with
  | plain kind => exact Opcode.takes_named kind
  | slot kind => exact Opcode.takes_named kind
  | integer kind => exact Opcode.takes_named kind
  | type kind => exact Opcode.takes_named kind
  | field kind member =>
    exact ⟨Opcode.takes_named kind, (isWord_of_memberOfWord? (hws _ List.mem_cons_self) member).2⟩
  | call kind member =>
    exact ⟨Opcode.takes_named kind, (isWord_of_memberOfWord? (hws _ List.mem_cons_self) member).2⟩
  | callOnInterface kind member =>
    exact ⟨Opcode.takes_named kind, (isWord_of_memberOfWord? (hws _ List.mem_cons_self) member).2⟩
  | jump kind => exact Opcode.takes_named kind
  | constant => trivial

theorem SpellsOperands.texts {word constant : String → Prop} (h : SpellsOperands m rest ws i)
    (howner : ∀ w owner name, word w → memberOfWord? w = some (owner, name) → word owner)
    (hwords : m.operandKind ≠ .constant → ∀ w ∈ ws, word w)
    (hconstant : m.operandKind = .constant → rest ≠ [] → constant (String.ofList rest)) :
    i.Texts word constant := by
  cases h with
  | type kind => exact hwords (by simp [kind]) _ List.mem_cons_self
  | field kind member =>
    have hws := hwords (by simp [kind])
    exact ⟨howner _ _ _ (hws _ List.mem_cons_self) member, hws _ (by simp)⟩
  | call kind member =>
    have hws := hwords (by simp [kind])
    exact ⟨howner _ _ _ (hws _ List.mem_cons_self) member, hws _ (by simp)⟩
  | callOnInterface kind member =>
    have hws := hwords (by simp [kind])
    exact ⟨howner _ _ _ (hws _ List.mem_cons_self) member, hws _ (by simp)⟩
  | constant kind text => exact hconstant kind text
  | _ => trivial

theorem SpellsOperands.normalize_eq (h : SpellsOperands m rest ws i) : i.normalize = i := by
  cases h <;> simp [Instruction.normalize, Opcode.normalize_named]

theorem fits_of_readInstruction (h : readInstruction line = .ok i) : i.Fits := by
  have hwords := forall_isWord_words line
  have hspells := readInstruction_eq_ok_iff.mp h
  generalize words line = ws at hspells hwords
  cases hspells with
  | opcode operands => exact operands.fits fun w hw => hwords w (List.mem_cons_of_mem _ hw)
  | _ => trivial

theorem texts_of_readInstruction {word constant : String → Prop}
    (h : readInstruction line = .ok i) (hline : Supplies word constant line)
    (howner : ∀ w owner name, word w → memberOfWord? w = some (owner, name) → word owner) :
    i.Texts word constant := by
  have hspells := readInstruction_eq_ok_iff.mp h
  generalize hall : words line = all at hspells
  cases hspells with
  | @opcode m ws i operands =>
    refine operands.texts howner (fun hkind => hline.words m.name ws hall ?_) fun hkind => ?_
    · exact fun hname => hkind (operandKind_of_name_eq_ldc hname)
    · rw [name_eq_ldc hkind] at hall
      exact hline.constant ws hall
  | _ => trivial

theorem normalize_eq_of_readInstruction (h : readInstruction line = .ok i) :
    i.normalize = i := by
  have hspells := readInstruction_eq_ok_iff.mp h
  generalize words line = ws at hspells
  cases hspells with
  | opcode operands => exact operands.normalize_eq
  | _ => rfl

end Instructions

/-! ## Where the parts of a tree stand -/

section Parts
variable {ls : List (List Char)} {m : Method} {c : ClassUnit} {cs : List ClassUnit}

theorem IsMethod.exists_instruction (h : IsMethod ls m) {i : Instruction} (hi : i ∈ m.body) :
    ∃ line ∈ ls, readInstruction line = .ok i := by
  cases h with
  | lines header entries labels ending =>
    obtain ⟨e, he, hei⟩ := List.mem_filterMap.mp hi
    obtain ⟨line, hline, hentry⟩ := exists_of_mem_right entries he
    cases hentry with
    | annotated => cases hei
    | instruction words other read =>
      cases hei
      exact ⟨line, by simp [hline], read⟩

theorem exists_of_annotated {es : List Entry} (h : List.Forall₂ IsEntry ls es) {r : Retention}
    {d : String} (hd : d ∈ es.filterMap (Entry.annotated? r)) :
    ∃ line ∈ ls, ∃ ws, words line = ".annotation" :: ws ∧ d ∈ ws := by
  obtain ⟨e, he, hed⟩ := List.mem_filterMap.mp hd
  obtain ⟨line, hline, hentry⟩ := exists_of_mem_right h he
  cases hentry with
  | annotated words =>
    rw [Entry.annotated?] at hed
    split at hed
    · cases hed
      exact ⟨line, hline, _, words, by simp⟩
    · cases hed
  | instruction => cases hed

theorem IsClass.exists_method (h : IsClass ls c) (hm : m ∈ c.methods) :
    ∃ block, block ⊆ ls ∧ IsMethod block m := by
  cases h with
  | plain header methods =>
    obtain ⟨block, hblock, hmethod⟩ := exists_of_mem_right methods hm
    exact ⟨block, fun l hl => List.mem_cons_of_mem _ (List.mem_flatten_of_mem hblock hl), hmethod⟩
  | kotlin header methods =>
    obtain ⟨block, hblock, hmethod⟩ := exists_of_mem_right methods hm
    exact ⟨block, fun l hl => List.mem_cons_of_mem _ (List.mem_flatten_of_mem hblock hl), hmethod⟩

theorem IsListing.exists_class (h : IsListing ls cs) (hc : c ∈ cs) :
    ∃ block, block ⊆ ls ∧ IsClass block c := by
  obtain ⟨blocks, rfl, hblocks⟩ := h
  obtain ⟨block, hblock, hclass⟩ := exists_of_mem_right hblocks hc
  exact ⟨block, fun l hl => List.mem_flatten_of_mem hblock hl, hclass⟩

theorem IsMethod.fits (h : IsMethod ls m) : m.Fits := by
  refine ⟨?_, ?_⟩
  · cases h with
    | lines header entries labels ending => exact labels
  · intro i hi
    obtain ⟨line, -, hread⟩ := h.exists_instruction hi
    exact fits_of_readInstruction hread

theorem IsClass.fits (h : IsClass ls c) : c.Fits := by
  intro m hm
  obtain ⟨block, -, hmethod⟩ := h.exists_method hm
  exact hmethod.fits

theorem IsMethod.normalize_eq (h : IsMethod ls m) : m.normalize = m := by
  have hbody : m.body.normalize = m.body := by
    refine List.map_congr_left (g := id) ?_ |>.trans (List.map_id _)
    intro i hi
    obtain ⟨line, -, hread⟩ := h.exists_instruction hi
    exact normalize_eq_of_readInstruction hread
  rw [Method.normalize, hbody]

theorem IsClass.normalize_eq (h : IsClass ls c) : c.normalize = c := by
  have hmethods : c.methods.map Method.normalize = c.methods := by
    refine List.map_congr_left (g := id) ?_ |>.trans (List.map_id _)
    intro m hm
    obtain ⟨block, -, hmethod⟩ := h.exists_method hm
    exact hmethod.normalize_eq
  rw [ClassUnit.normalize, hmethods]

section Texts
variable {word constant : String → Prop}
  (howner : ∀ w owner name, word w → memberOfWord? w = some (owner, name) → word owner)
include howner

theorem IsMethod.texts (h : IsMethod ls m) (hls : ∀ line ∈ ls, Supplies word constant line) :
    m.Texts word constant := by
  have hbody : ∀ i ∈ m.body, i.Texts word constant := by
    intro i hi
    obtain ⟨line, hline, hread⟩ := h.exists_instruction hi
    exact texts_of_readInstruction hread (hls line hline) howner
  cases h with
  | @lines first last name desc extra extra' ls es header entries labels ending =>
    have hheader := (hls first List.mem_cons_self).words _ _ header (by decide)
    have hannotated : ∀ r, ∀ d ∈ es.filterMap (Entry.annotated? r), word d := by
      intro r d hd
      obtain ⟨line, hline, ws, hwords, hmem⟩ := exists_of_annotated entries hd
      exact (hls line (by simp [hline])).words _ _ hwords (by decide) d hmem
    exact ⟨hheader _ (by simp [methodOf]), hheader _ (by simp [methodOf]), hannotated .visible,
      hannotated .invisible, hbody⟩

theorem IsClass.texts (h : IsClass ls c) (hls : ∀ line ∈ ls, Supplies word constant line) :
    c.Texts word constant := by
  refine ⟨?_, ?_⟩
  · cases h with
    | plain header =>
      exact (hls _ List.mem_cons_self).words _ _ header (by decide) _ (by simp)
    | kotlin header =>
      exact (hls _ List.mem_cons_self).words _ _ header (by decide) _ (by simp)
  · intro m hm
    obtain ⟨block, hblock, hmethod⟩ := h.exists_method hm
    exact hmethod.texts howner fun line hline => hls line (hblock hline)

end Texts

end Parts

/-! ## Every tree that is read -/

theorem texts_of_read {word constant : String → Prop} {text : String} {cs : List ClassUnit}
    (h : read text = .ok cs)
    (howner : ∀ w owner name, word w → memberOfWord? w = some (owner, name) → word owner)
    (hlines : ∀ raw ∈ lines text.toList, Supplies word constant (uncommented raw)) :
    ∀ c ∈ cs, c.Texts word constant := by
  intro c hc
  obtain ⟨block, hblock, hclass⟩ := (read_eq_ok_iff_isListing.mp h).exists_class hc
  refine hclass.texts howner ?_
  intro line hline
  obtain ⟨raw, hraw, rfl⟩ := List.mem_map.mp (List.mem_filter.mp (hblock hline)).1
  exact hlines raw hraw

theorem lf_not_mem_afterFirstWord {line : List Char} (h : '\n' ∉ line) :
    '\n' ∉ afterFirstWord line := by
  intro hmem
  have htrim := (trimEnd_isPrefix _).subset hmem
  have hdrop := (List.dropWhile_suffix _).subset htrim
  have hstart := (List.dropWhile_suffix _).subset hdrop
  exact h ((List.dropWhile_suffix _).subset hstart)

theorem supplies_words {line : List Char} (h : '\n' ∉ line) : Supplies IsWord IsConstant line := by
  refine ⟨?_, ?_⟩
  · intro head ws hwords _ w hw
    exact isWord_of_mem_words (by rw [hwords]; exact List.mem_cons_of_mem head hw)
  · intro ws _ hne
    have hlf := lf_not_mem_afterFirstWord h
    exact ⟨by simpa [String.ofList_eq_empty_iff] using hne, by simpa using hlf,
      by rw [String.toList_ofList]; exact trimmed_trim _⟩

theorem wellFormed_of_read {text : String} {cs : List ClassUnit} (h : read text = .ok cs) :
    ∀ c ∈ cs, c.WellFormed := by
  intro c hc
  obtain ⟨block, -, hclass⟩ := (read_eq_ok_iff_isListing.mp h).exists_class hc
  refine ⟨hclass.fits, texts_of_read h ?_ ?_ c hc⟩
  · intro w owner name hw hmember
    exact (isWord_of_memberOfWord? hw hmember).1
  · intro raw hraw
    exact supplies_words (lf_not_mem_uncommented (lf_not_mem_of_mem_lines hraw))

theorem normalize_eq_of_read {text : String} {cs : List ClassUnit} (h : read text = .ok cs) :
    ∀ c ∈ cs, c.normalize = c := by
  intro c hc
  obtain ⟨block, -, hclass⟩ := (read_eq_ok_iff_isListing.mp h).exists_class hc
  exact hclass.normalize_eq

end ComposeGuards.Listing
