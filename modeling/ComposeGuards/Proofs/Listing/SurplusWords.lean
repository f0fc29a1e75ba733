import ComposeGuards.Proofs.Listing.SpacedTexts

/-! # Words that reading keeps and words that it drops

The printed form of an instruction has the words of the line that it was read from, up to the way
numbers are written. Only the line of a line number may hold words after those, and so may a method
header, an annotation, the end of a method and the header of a Kotlin class: reading drops these
surplus words without a fault. Every other accepted line has no word too many.
-/
namespace ComposeGuards.Listing
open ComposeGuards.Text

/-- Two words that differ at most in how one number is written, its leading zeros and its sign. -/
inductive SameWord : String → String → Prop
  | same (w : String) : SameWord w w
  | number {w v : String} {n : Int} (left : signed? w.toList = some n)
      (right : signed? v.toList = some n) : SameWord w v
  | label {w v : String} {l : Label} (left : labelOfWord? w = some l)
      (right : labelOfWord? v = some l) : SameWord w v

/-- The words that may follow the first one of a directive. -/
inductive Directive.Takes : Directive → List String → Prop
  | className (name : String) : Takes .classHeader [name]
  | kotlinClass (name : String) : Takes .classHeader [name, "kotlin"]
  | method (name desc : String) : Takes .methodHeader [name, desc]
  | annotated (retention : Retention) (desc : String) :
      Takes .annotationLine [retentionWord retention, desc]
  | methodEnd : Takes .methodEnd []

/-- How many words at most may follow the first one of a directive. -/
def Directive.maxWords : Directive → Nat
  | .classHeader | .methodHeader | .annotationLine => 2
  | .methodEnd => 0

/-! ## Numbers written otherwise -/

theorem signed?_of_unsigned? {cs : List Char} {n : Nat} (h : unsigned? cs = some n) :
    signed? cs = some (n : Int) := by
  unfold signed?
  split
  · -- a minus sign is no digit
    next ds =>
    have hdigits := (digits?_eq_some_iff.mp (show digits? ('-' :: ds) = some n from h)).2.1
    exact absurd (hdigits '-' List.mem_cons_self) (by decide)
  · rw [h]
    rfl

theorem sameWord_toString {w : String} {n : Nat} (h : unsigned? w.toList = some n) :
    SameWord w (toString n) :=
  .number (signed?_of_unsigned? h) (signed?_of_unsigned? (unsigned?_toString n))

theorem sameWord_labelText {w : String} {l : Label} (h : labelOfWord? w = some l) :
    SameWord w (labelText l) :=
  .label h (labelOfWord?_labelText l)

theorem sameWord_of_lineOfWord? {w : String} {line : UInt32} (h : lineOfWord? w = some line) :
    SameWord w (toString line.toNat) := by
  obtain ⟨n, hn, hline⟩ := Option.bind_eq_some_iff.mp h
  rw [← word32?_eq_some_iff.mp hline]
  exact sameWord_toString hn

theorem sameWord_of_slotOfWord? {w : String} {index : UInt16} (h : slotOfWord? w = some index) :
    SameWord w (toString index.toNat) := by
  obtain ⟨n, hn, hindex⟩ := Option.bind_eq_some_iff.mp h
  rw [← word16?_eq_some_iff.mp hindex]
  exact sameWord_toString hn

theorem sameWord_of_integerOfWord? {w : String} {value : Int32}
    (h : integerOfWord? w = some value) : SameWord w (signedText value.toInt) := by
  obtain ⟨n, hn, hvalue⟩ := Option.bind_eq_some_iff.mp h
  rw [← toInt_eq_of_int32? hvalue] at hn
  exact .number hn (signed?_signedText value.toInt)

theorem eq_path_of_memberOfWord? {w owner name : String}
    (h : memberOfWord? w = some (owner, name)) (desc : String) :
    w = MemberRef.path ⟨owner, name, desc⟩ :=
  (memberOfWord?_eq_some_iff.mp h).1

/-! ## The words of a printed instruction -/

section Words
variable {text : List Char} {i : Instruction} {m : Mnemonic} {rest : List Char} {ws : List String}

theorem words_text_constant (value : String) :
    words (Instruction.constant value).text.toList = "LDC" :: words value.toList := by
  have htext : (Instruction.constant value).text.toList =
      [' ', ' '] ++ 'L' :: 'D' :: 'C' :: ' ' :: value.toList := by
    rw [Instruction.toList_text]
    simp [Instruction.indent, Instruction.words, Instruction.headWord, Instruction.operandWords,
      spaced]
  rw [htext, words_blanks_append (List.all_eq_true.mp rfl), words_ldc]

theorem words_text (hf : i.Fits) (ht : i.Texts IsWord fun _ => True)
    (hc : ∀ value, i ≠ .constant value) : words i.text.toList = i.words := by
  have hoperands : ∀ w ∈ i.operandWords, IsWord w :=
    forall_operandWords hf ht hc (fun _ h => h) (fun _ => isWord_path) isWord_labelText
      isWord_toString isWord_signedText (by decide) (by decide)
  have hindent : ∀ c ∈ i.indent, isBlank c = true := by
    intro c hc
    rw [Instruction.eq_space_of_mem_indent hc]
    exact isBlank_space
  rw [Instruction.toList_text, words_blanks_append hindent]
  exact words_spaced (List.forall_mem_cons.mpr ⟨isWord_headWord hf, hoperands⟩)

theorem supplies_isWord (text : List Char) : Supplies IsWord (fun _ => True) text where
  words := by
    intro head ws hwords _ w hw
    exact isWord_of_mem_words (by rw [hwords]; exact List.mem_cons_of_mem head hw)
  constant := fun _ _ _ => trivial

theorem words_text_of_readInstruction (h : readInstruction text = .ok i)
    (hc : ∀ value, i ≠ .constant value) : words i.text.toList = i.words := by
  have hfits := fits_of_readInstruction h
  refine words_text hfits (texts_of_readInstruction h (supplies_isWord text) ?_) hc
  intro w owner name hw hmember
  exact (isWord_of_memberOfWord? hw hmember).1

/-- The operands are printed with the words that spell them. -/
theorem SpellsOperands.sameWords (h : SpellsOperands m rest ws i)
    (hc : ∀ value, i ≠ .constant value) :
    List.Forall₂ SameWord (m.name :: ws) i.words := by
  have hname : SameWord m.name (Opcode.named m).text := by
    rw [Opcode.text_named]
    exact .same _
  cases h with
  | plain kind => exact .cons hname .nil
  | slot kind number => exact .cons hname (.cons (sameWord_of_slotOfWord? number) .nil)
  | integer kind number => exact .cons hname (.cons (sameWord_of_integerOfWord? number) .nil)
  | type kind => exact .cons hname (.cons (.same _) .nil)
  | @field w owner name desc kind member =>
    rw [eq_path_of_memberOfWord? member desc]
    exact .cons hname (.cons (.same _) (.cons (.same _) (.cons (.same _) .nil)))
  | @call w owner name desc kind member =>
    rw [eq_path_of_memberOfWord? member desc]
    exact .cons hname (.cons (.same _) (.cons (.same _) .nil))
  | @callOnInterface w owner name desc kind member =>
    rw [eq_path_of_memberOfWord? member desc]
    exact .cons hname (.cons (.same _) (.cons (.same _) (.cons (.same _) .nil)))
  | jump kind label => exact .cons hname (.cons (sameWord_labelText label) .nil)
  | constant => exact absurd rfl (hc _)

/-- Away from constants, the printed words are those of the line as far as they go. -/
theorem Spells.exists_sameWords (h : Spells rest ws i) (hf : i ≠ .frame)
    (hc : ∀ value, i ≠ .constant value) :
    ∃ kept surplus, ws = kept ++ surplus ∧ List.Forall₂ SameWord kept i.words ∧
      (surplus ≠ [] → ∃ line start, i = .lineNumber line start) := by
  cases h with
  | @label w l label =>
    exact ⟨[w], [], rfl, .cons (sameWord_labelText label) .nil, fun hne => absurd rfl hne⟩
  | @lineNumber n w line start surplus number label =>
    refine ⟨["LINENUMBER", n, w], surplus, rfl, ?_, fun _ => ⟨line, start, rfl⟩⟩
    exact .cons (.same _)
      (.cons (sameWord_of_lineOfWord? number) (.cons (sameWord_labelText label) .nil))
  | frame => exact absurd rfl hf
  | @opcode m ws i operands =>
    exact ⟨m.name :: ws, [], by simp, operands.sameWords hc, fun hne => absurd rfl hne⟩

/-- A constant is printed with the words of the rest of its line. -/
theorem words_afterFirstWord {head : String} (h : words text = head :: ws) :
    words (afterFirstWord text) = ws := by
  have hword : IsWord head := isWord_of_mem_words (by rw [h]; exact List.mem_cons_self)
  obtain ⟨rest, hline, hblank, hrest⟩ := exists_of_words_eq_cons h
  rw [afterFirstWord_eq hword hline hblank, words_trim, hrest]

theorem words_text_of_constant {value : String} (h : readInstruction text = .ok (.constant value)) :
    words (Instruction.constant value).text.toList = words text := by
  have hspells := spells_of_readInstruction h
  generalize hws : words text = ws at hspells
  cases hspells with
  | opcode operands =>
    cases operands with
    | constant kind =>
      rw [name_eq_ldc kind] at hws ⊢
      rw [words_text_constant, String.toList_ofList, words_afterFirstWord hws]

/-- The words of an accepted line are printed again, and only a line number may have more. -/
theorem exists_sameWords_of_readInstruction (h : readInstruction text = .ok i) (hf : i ≠ .frame) :
    ∃ kept surplus, words text = kept ++ surplus ∧
      List.Forall₂ SameWord kept (words i.text.toList) ∧
      (surplus ≠ [] → ∃ line start, i = .lineNumber line start) := by
  by_cases hc : ∃ value, i = .constant value
  · obtain ⟨value, rfl⟩ := hc
    rw [words_text_of_constant h]
    exact ⟨words text, [], by simp, List.forall₂_same.mpr fun w _ => .same w,
      fun hne => absurd rfl hne⟩
  · have hother : ∀ value, i ≠ .constant value := fun value hi => hc ⟨value, hi⟩
    rw [words_text_of_readInstruction h hother]
    exact (spells_of_readInstruction h).exists_sameWords hf hother

end Words

/-! ## The words of a directive -/

/-- An accepted directive has the words of its grammar, and more only after as many as it takes. -/
theorem Advances.exists_takes {p q : Progress} {line : List Char} {d : Directive}
    {operands : List String} (h : Advances line p q) (hw : words line = d.word :: operands) :
    ∃ kept surplus, operands = kept ++ surplus ∧ d.Takes kept ∧
      (surplus ≠ [] → kept.length = d.maxWords) := by
  cases h with
  | @classHeader cs name words =>
    obtain ⟨rfl, rfl⟩ := Directive.eq_of_words_eq .classHeader hw words
    exact ⟨[name], [], rfl, .className name, fun hne => absurd rfl hne⟩
  | @kotlinHeader cs name extra words =>
    obtain ⟨rfl, rfl⟩ := Directive.eq_of_words_eq .classHeader hw words
    exact ⟨[name, "kotlin"], extra, rfl, .kotlinClass name, fun _ => rfl⟩
  | @methodHeader cs name desc extra words inClass =>
    obtain ⟨rfl, rfl⟩ := Directive.eq_of_words_eq .methodHeader hw words
    exact ⟨[name, desc], extra, rfl, .method name desc, fun _ => rfl⟩
  | entry entry fresh =>
    cases entry with
    | @annotated retention desc extra words =>
      obtain ⟨rfl, rfl⟩ := Directive.eq_of_words_eq .annotationLine hw words
      exact ⟨[retentionWord retention, desc], extra, rfl, .annotated retention desc, fun _ => rfl⟩
    | instruction words other read =>
      exact absurd hw (Directive.words_ne words other d operands)
  | methodEnd words defined =>
    obtain ⟨rfl, rfl⟩ := Directive.eq_of_words_eq .methodEnd hw words
    exact ⟨[], _, rfl, .methodEnd, fun _ => rfl⟩

theorem Directive.Takes.length_le {d : Directive} {operands : List String}
    (h : d.Takes operands) : operands.length ≤ d.maxWords := by
  cases h <;> simp [Directive.maxWords]

theorem Directive.takes_append_iff {d : Directive} {kept surplus : List String}
    (hkept : d.Takes kept) (hfull : surplus ≠ [] → kept.length = d.maxWords) :
    d.Takes (kept ++ surplus) ↔ surplus = [] := by
  constructor
  · intro h
    by_contra hne
    have hlength := h.length_le
    have hpos := List.length_pos_of_ne_nil hne
    rw [List.length_append, hfull hne] at hlength
    omega
  · rintro rfl
    rwa [List.append_nil]

theorem forall₂_append_iff_surplus {kept surplus printed : List String}
    (h : List.Forall₂ SameWord kept printed) :
    List.Forall₂ SameWord (kept ++ surplus) printed ↔ surplus = [] := by
  constructor
  · intro hall
    have hlength := hall.length_eq
    rw [List.length_append, ← h.length_eq] at hlength
    exact List.length_eq_zero_iff.mp (by omega)
  · rintro rfl
    rwa [List.append_nil]

/-- An accepted line is printed with its words, numbers perhaps written otherwise, and an accepted
directive has the words of its grammar. Surplus words, the only ones dropped, follow those of a line
number, or of a directive that has as many words as it takes. -/
theorem words_kept_iff_no_surplus (text : List Char) (listing : String) :
    (∀ i, readInstruction text = .ok i → i ≠ .frame →
      ∃ kept surplus, words text = kept ++ surplus ∧
        List.Forall₂ SameWord kept (words i.text.toList) ∧
        (List.Forall₂ SameWord (words text) (words i.text.toList) ↔ surplus = []) ∧
        (surplus ≠ [] → ∃ line start, i = .lineNumber line start)) ∧
    ∀ cs, read listing = .ok cs → ∀ raw ∈ lines listing.toList,
      ∀ (d : Directive) (operands : List String), words (uncommented raw) = d.word :: operands →
        ∃ kept surplus, operands = kept ++ surplus ∧ d.Takes kept ∧
          (d.Takes operands ↔ surplus = []) ∧
          (surplus ≠ [] → kept.length = d.maxWords) := by
  constructor
  · intro i hread hframe
    obtain ⟨kept, surplus, hwords, hsame, hnumber⟩ :=
      exists_sameWords_of_readInstruction hread hframe
    refine ⟨kept, surplus, hwords, hsame, ?_, hnumber⟩
    rw [hwords]
    exact forall₂_append_iff_surplus hsame
  · intro cs hread raw hraw d operands hwords
    have hne : uncommented raw ≠ [] := by
      intro hnil
      rw [hnil, words_nil] at hwords
      cases hwords
    have hmem : uncommented raw ∈ significant (lines listing.toList) := by
      simp only [significant, List.mem_filter, List.mem_map]
      exact ⟨⟨raw, hraw, rfl⟩, by simpa using hne⟩
    obtain ⟨p, q, hadvances⟩ := (read_eq_ok_iff.mp hread).exists_advances hmem
    obtain ⟨kept, surplus, rfl, htakes, hfull⟩ := hadvances.exists_takes hwords
    exact ⟨kept, surplus, rfl, htakes, Directive.takes_append_iff htakes hfull, hfull⟩

/-- A number with a sign and zeros is kept as a number, and nothing follows the name of a class. -/
theorem words_kept_iff_no_surplus_signed :
    (∃ kept surplus, words "  BIPUSH +007".toList = kept ++ surplus ∧
      List.Forall₂ SameWord kept (words (Instruction.integer (.named .bipush) 7).text.toList) ∧
      (List.Forall₂ SameWord (words "  BIPUSH +007".toList)
        (words (Instruction.integer (.named .bipush) 7).text.toList) ↔ surplus = []) ∧
      (surplus ≠ [] →
        ∃ line start, Instruction.integer (.named .bipush) 7 = .lineNumber line start)) ∧
    ∃ kept surplus, ["A"] = kept ++ surplus ∧ Directive.Takes .classHeader kept ∧
      (Directive.Takes .classHeader ["A"] ↔ surplus = []) ∧
      (surplus ≠ [] → kept.length = Directive.maxWords .classHeader) := by
  have hread : readInstruction "  BIPUSH +007".toList = .ok (.integer (.named .bipush) 7) := by
    rfl
  have hlisting : read ".class A" = .ok [⟨"A", false, []⟩] := by rfl
  have hraw : ".class A".toList ∈ lines ".class A".toList := by decide
  have hkept := words_kept_iff_no_surplus "  BIPUSH +007".toList ".class A"
  exact ⟨hkept.1 _ hread (by simp), hkept.2 _ hlisting _ hraw .classHeader ["A"] (by rfl)⟩

/-- A second label after a line number and a second flag of a class are dropped. -/
theorem not_words_kept_second_label :
    (readInstruction "LINENUMBER 12 L0 L1".toList = .ok (.lineNumber 12 0) ∧
      words "LINENUMBER 12 L0 L1".toList = ["LINENUMBER", "12", "L0", "L1"] ∧
      words (Instruction.lineNumber 12 0).text.toList = ["LINENUMBER", "12", "L0"] ∧
      ¬ List.Forall₂ SameWord (words "LINENUMBER 12 L0 L1".toList)
        (words (Instruction.lineNumber 12 0).text.toList)) ∧
    (read ".class A kotlin jvm\n" = .ok [⟨"A", true, []⟩] ∧
      ".class A kotlin jvm".toList ∈ lines ".class A kotlin jvm\n".toList ∧
      words (uncommented ".class A kotlin jvm".toList) =
        Directive.word .classHeader :: ["A", "kotlin", "jvm"] ∧
      ¬ Directive.Takes .classHeader ["A", "kotlin", "jvm"]) := by
  have hline : words "LINENUMBER 12 L0 L1".toList = ["LINENUMBER", "12", "L0", "L1"] := by rfl
  have hprinted : words (Instruction.lineNumber 12 0).text.toList = ["LINENUMBER", "12", "L0"] := by
    rfl
  refine ⟨⟨by rfl, hline, hprinted, ?_⟩, by rfl, by decide, by rfl, ?_⟩
  · intro h
    have hlength := h.length_eq
    rw [hline, hprinted] at hlength
    exact absurd hlength (by decide)
  · intro h
    exact absurd h.length_le (by decide)

end ComposeGuards.Listing
