import ComposeGuards.Proofs.Listing.PrintedWords

/-! # The lines of a printed listing

The printed form of a well-formed tree is read line by line as it was written, and reading finds
something in every line. What it finds is the words up to the first that opens a comment, or, after
`LDC`, a part of the constant that is the whole constant exactly when the constant is safe.
-/
namespace ComposeGuards
open Text

namespace Listing

/-! ## One line -/

theorem isLine_of_trimmed {cs : List Char} (ht : Trimmed cs) (hlf : '\n' ∉ cs) : IsLine cs := by
  refine ⟨hlf, ?_⟩
  intro hlast
  exact absurd (ht.2 _ hlast) (by decide)

theorem isLine_indent_append {bs cs : List Char} (hbs : ∀ c ∈ bs, c = ' ') (h : IsLine cs) :
    IsLine (bs ++ cs) := by
  constructor
  · intro hmem
    rcases List.mem_append.mp hmem with hmem | hmem
    · exact absurd (hbs _ hmem) (by decide)
    · exact h.1 hmem
  · intro hlast
    rw [List.getLast?_append] at hlast
    cases hcs : cs.getLast? with
    | some c =>
      rw [hcs] at hlast
      exact h.2 (hcs.trans hlast)
    | none =>
      rw [hcs] at hlast
      exact absurd (hbs _ (List.mem_of_getLast? hlast)) (by decide)

theorem isLine_spaced {ws : List String} (h : ∀ w ∈ ws, IsWord w) : IsLine (spaced ws) := by
  refine isLine_of_trimmed (trimmed_spaced h) ?_
  induction ws with
  | nil => exact List.not_mem_nil
  | cons w ws ih =>
    have hw : '\n' ∉ w.toList := by
      intro hmem
      exact absurd ((h w List.mem_cons_self).2 _ hmem) (by decide)
    cases ws with
    | nil => exact hw
    | cons v ws =>
      have hrest := ih fun u hu => h u (List.mem_cons_of_mem w hu)
      rw [spaced_cons_cons]
      simp only [List.mem_append, List.mem_cons, not_or]
      exact ⟨hw, by decide, hrest⟩

/-- The words before the first that opens a comment. -/
def keptWords (ws : List String) : List String :=
  ws.takeWhile fun w => !opensComment w.toList

theorem words_uncommented_spaced {w : String} {ws : List String} (h : ∀ v ∈ w :: ws, IsWord v)
    (hw : w ≠ "LDC") (hopen : opensComment w.toList = false) :
    words (uncommented (spaced (w :: ws))) = w :: keptWords ws := by
  rw [uncommented_spaced h hw hopen]
  refine words_spaced (List.forall_mem_cons.mpr ⟨h w List.mem_cons_self, ?_⟩)
  intro v hv
  exact h v (List.mem_cons_of_mem w ((List.takeWhile_prefix _).subset hv))

theorem keptWords_eq_self {ws : List String} (h : ∀ w ∈ ws, opensComment w.toList = false) :
    keptWords ws = ws :=
  List.takeWhile_eq_self_iff.mpr fun w hw => by simp [h w hw]

/-- Where so many words are kept, so many words open no comment. -/
theorem opensComment_of_le_length_keptWords {ws : List String} {n : Nat}
    (h : n ≤ (keptWords ws).length) : ∀ w ∈ ws.take n, opensComment w.toList = false := by
  obtain ⟨rest, hrest⟩ : keptWords ws <+: ws := List.takeWhile_prefix _
  have htake : ws.take n = (keptWords ws).take n := by
    conv_lhs => rw [← hrest, List.take_append_of_le_length h]
  intro w hw
  rw [htake] at hw
  simpa using List.mem_takeWhile_imp (List.mem_of_mem_take hw)

/-! ## A line with a constant -/

theorem isPrefix_trimEnd_append {w : String} (hw : IsWord w) (cs : List Char) :
    w.toList <+: trimEnd (w.toList ++ cs) := by
  obtain ⟨bs, hbs, hblank⟩ := trimEnd_append_blanks (w.toList ++ cs)
  generalize trimEnd (w.toList ++ cs) = kept at hbs ⊢
  rcases List.prefix_or_prefix_of_prefix (List.prefix_append w.toList cs) ⟨bs, hbs.symm⟩ with
    h | ⟨ds, hds⟩
  · exact h
  · -- what the word had more would be blank
    have hds' : ds <+: bs := by
      rw [← hds, List.append_assoc] at hbs
      exact ⟨cs, List.append_cancel_left hbs⟩
    cases ds with
    | nil => exact ⟨[], by rw [List.append_nil, ← hds, List.append_nil]⟩
    | cons d ds =>
      have hd : isBlank d = true := List.all_eq_true.mp hblank d (hds'.subset List.mem_cons_self)
      have hmem : d ∈ w.toList := by
        rw [← hds]
        simp
      rw [hw.2 d hmem] at hd
      cases hd

theorem spaced_constant (value : String) :
    spaced ["LDC", value] = 'L' :: 'D' :: 'C' :: ' ' :: value.toList := rfl

theorem ldc_isPrefix_of_strips {value rest : List Char}
    (h : Strips ('L' :: 'D' :: 'C' :: ' ' :: value) rest) : "LDC".toList <+: rest := by
  have hline : "LDC".toList <+: 'L' :: 'D' :: 'C' :: ' ' :: value := ⟨' ' :: value, rfl⟩
  cases h with
  | comment opens => cases opens
  | plain =>
    have hbefore : beforeComment ('L' :: 'D' :: 'C' :: ' ' :: value) =
        "LDC".toList ++ beforeComment (' ' :: value) :=
      beforeComment_append isWord_ldc.space_not_mem (' ' :: value)
    rw [hbefore]
    exact isPrefix_trimEnd_append isWord_ldc _
  | unclosed => exact hline
  | closed => exact ⟨_, rfl⟩
  | kept => exact hline

/-- The mnemonic stays, and with it a part of what follows. -/
theorem exists_uncommented_constant {value : String} (h : IsConstant value) :
    ∃ us, us <+: ' ' :: value.toList ∧
      uncommented (spaced ["LDC", value]) = "LDC".toList ++ us := by
  have hne : value.toList ≠ [] := by simpa using h.1
  have hline := trim_eq_self (trimmed_constant hne h.2.2)
  have hstrips := strips_uncommented (spaced ["LDC", value])
  rw [spaced_constant, hline] at hstrips
  obtain ⟨us, hus⟩ := ldc_isPrefix_of_strips hstrips
  refine ⟨us, ?_, hus.symm⟩
  have hprefix := hstrips.isPrefix
  rw [← hus] at hprefix
  exact (List.prefix_append_right_inj "LDC".toList).mp hprefix

/-- The constant that reading finds in the printed line. -/
def rereadConstant (value : String) : String :=
  String.ofList (afterFirstWord (uncommented (spaced ["LDC", value])))

theorem read_uncommented_constant {value : String} (h : IsConstant value) :
    ∃ us, us <+: ' ' :: value.toList ∧
      uncommented (spaced ["LDC", value]) = "LDC".toList ++ us ∧
      words (uncommented (spaced ["LDC", value])) = "LDC" :: words us ∧
      afterFirstWord (uncommented (spaced ["LDC", value])) = trim us := by
  obtain ⟨us, hus, hline⟩ := exists_uncommented_constant h
  have hblank : ∀ c, us.head? = some c → isBlank c = true := by
    intro c hc
    cases us with
    | nil => cases hc
    | cons d us =>
      cases hc
      rw [(List.cons_prefix_cons.mp hus).1]
      exact isBlank_space
  have hstart : trimStart ("LDC".toList ++ us) = "LDC".toList ++ us := by
    refine trimStart_eq_self ?_
    intro c hc
    cases hc
    decide
  refine ⟨us, hus, hline, ?_, ?_⟩
  · rw [hline, words_toList_append isWord_ldc hblank]
  · rw [hline, afterFirstWord_eq isWord_ldc hstart hblank]

theorem trim_cons_space (cs : List Char) : trim (' ' :: cs) = trim cs := by
  rw [← List.singleton_append, trim_blanks_append (List.forall_mem_singleton.mpr isBlank_space)]

theorem length_trim_le (cs : List Char) : (trim cs).length ≤ cs.length :=
  (trimEnd_isPrefix _).length_le.trans (List.dropWhile_suffix _).length_le

/-- A constant is read back exactly when it is safe. -/
theorem rereadConstant_eq_iff {value : String} (h : IsConstant value) :
    rereadConstant value = value ↔ CommentSafe value.toList := by
  have hne : value.toList ≠ [] := by simpa using h.1
  rw [← uncommented_constant_eq_self_iff hne h.2.2]
  obtain ⟨us, hus, hline, -, hafter⟩ := read_uncommented_constant h
  have hreread : rereadConstant value = value ↔ trim us = value.toList := by
    rw [rereadConstant, hafter, ← String.toList_inj, String.toList_ofList]
  have hwhole : uncommented ('L' :: 'D' :: 'C' :: ' ' :: value.toList) =
      'L' :: 'D' :: 'C' :: ' ' :: value.toList ↔ us = ' ' :: value.toList := by
    rw [← spaced_constant, hline]
    exact List.append_right_inj "LDC".toList
  rw [hreread, hwhole]
  constructor
  · intro htrim
    cases us with
    | nil => exact absurd htrim.symm hne
    | cons c us =>
      obtain ⟨rfl, hrest⟩ := List.cons_prefix_cons.mp hus
      rw [trim_cons_space] at htrim
      have hlength := length_trim_le us
      rw [htrim] at hlength
      rw [hrest.eq_of_length_le hlength]
  · rintro rfl
    rw [trim_cons_space, trim_eq_self h.2.2]

/-! ## The lines of a tree -/

def Entry.text : Entry → String
  | annotated retention desc => ".annotation " ++ retentionWord retention ++ " " ++ desc
  | instruction i => i.text

def Entry.headWord : Entry → String
  | annotated _ _ => ".annotation"
  | instruction i => i.headWord

def Entry.operandWords : Entry → List String
  | annotated retention desc => [retentionWord retention, desc]
  | instruction i => i.operandWords

def Entry.Fits : Entry → Prop
  | annotated _ _ => True
  | instruction i => i.Fits

def Entry.Texts (word constant : String → Prop) : Entry → Prop
  | annotated _ desc => word desc
  | instruction i => i.Texts word constant

/-- What the lines between the header of the printed method and its end say. -/
def entriesOf (m : Method) : List Entry :=
  m.visible.map (.annotated .visible) ++ m.invisible.map (.annotated .invisible) ++
    m.body.map .instruction

def methodHeader (m : Method) : String :=
  ".method " ++ m.name ++ " " ++ m.desc

def classHeader (c : ClassUnit) : String :=
  ".class " ++ c.name ++ (if c.isKotlin then " kotlin" else "")

theorem lines_eq_entries (m : Method) :
    m.lines = methodHeader m :: ((entriesOf m).map Entry.text ++ [".end"]) := by
  have hvisible : ".annotation visible " = ".annotation " ++ retentionWord .visible ++ " " := rfl
  have hinvisible : ".annotation invisible " = ".annotation " ++ retentionWord .invisible ++ " " :=
    rfl
  simp only [Method.lines, entriesOf, methodHeader, hvisible, hinvisible, List.map_append,
    List.map_map, List.cons_append]
  rfl

theorem methodOf_entriesOf (m : Method) : methodOf m.name m.desc (entriesOf m) = m := by
  have hother : ∀ (r r' : Retention) (ds : List String), r ≠ r' →
      (ds.map (Entry.annotated r)).filterMap (Entry.annotated? r') = [] := by
    intro r r' ds hne
    simp [List.filterMap_map, Function.comp_def, Entry.annotated?, hne]
  have hsame : ∀ (r : Retention) (ds : List String),
      (ds.map (Entry.annotated r)).filterMap (Entry.annotated? r) = ds := by
    intro r ds
    simp [List.filterMap_map, Function.comp_def, Entry.annotated?]
  have hbody : ∀ (r : Retention) (b : Body),
      (b.map Entry.instruction).filterMap (Entry.annotated? r) = [] := by
    intro r b
    simp [List.filterMap_map, Function.comp_def, Entry.annotated?]
  have hinstructions : ∀ (r : Retention) (ds : List String),
      (ds.map (Entry.annotated r)).filterMap Entry.instruction? = [] := by
    intro r ds
    simp [List.filterMap_map, Function.comp_def, Entry.instruction?]
  have hown : (m.body.map Entry.instruction).filterMap Entry.instruction? = m.body := by
    simp [List.filterMap_map, Function.comp_def, Entry.instruction?]
  simp [methodOf, entriesOf, hother, hsame, hbody, hinstructions, hown]

theorem forall_mem_entriesOf {p : Entry → Prop} {m : Method} :
    (∀ e ∈ entriesOf m, p e) ↔
      (∀ d ∈ m.visible, p (.annotated .visible d)) ∧
        (∀ d ∈ m.invisible, p (.annotated .invisible d)) ∧ ∀ i ∈ m.body, p (.instruction i) := by
  simp [entriesOf, or_imp, forall_and]

/-- What reading keeps of a line. -/
def seen (line : String) : List Char :=
  uncommented line.toList

theorem seen_text (e : Entry) : seen e.text = uncommented (spaced (e.headWord :: e.operandWords)) := by
  cases e with
  | annotated r d =>
    have htext : (Entry.annotated r d).text.toList = spaced [".annotation", retentionWord r, d] := by
      simp [Entry.text, spaced, String.toList_append]
    rw [seen, htext]
    rfl
  | instruction i =>
    have hblank : ∀ c ∈ i.indent, isBlank c = true := by
      intro c hc
      rw [Instruction.eq_space_of_mem_indent hc]
      exact isBlank_space
    rw [seen, Entry.text, Instruction.toList_text, uncommented_blanks_append hblank]
    rfl

theorem seen_constant (value : String) :
    seen (Entry.instruction (.constant value)).text = uncommented (spaced ["LDC", value]) :=
  seen_text _

theorem toList_methodHeader (m : Method) :
    (methodHeader m).toList = spaced [".method", m.name, m.desc] := by
  simp [methodHeader, spaced, String.toList_append]

theorem toList_classHeader (c : ClassUnit) :
    (classHeader c).toList = spaced (".class" :: c.name :: if c.isKotlin then ["kotlin"] else []) := by
  cases hk : c.isKotlin <;> simp [classHeader, spaced, String.toList_append, hk]

theorem forall_mem_methodLines {p : String → Prop} {m : Method} :
    (∀ l ∈ m.lines, p l) ↔ p (methodHeader m) ∧ (∀ e ∈ entriesOf m, p e.text) ∧ p ".end" := by
  rw [lines_eq_entries]
  simp [or_imp, forall_and]

theorem forall_mem_classLines {p : String → Prop} {c : ClassUnit} :
    (∀ l ∈ c.lines, p l) ↔ p (classHeader c) ∧ ∀ m ∈ c.methods, ∀ l ∈ m.lines, p l := by
  have hlines : c.lines = classHeader c :: c.methods.flatMap Method.lines := rfl
  rw [hlines, List.forall_mem_cons]
  simp only [List.mem_flatMap, forall_exists_index, and_imp]
  grind

section Seen
variable {m : Method} {c : ClassUnit} {e : Entry}

theorem isWord_retentionWord (r : Retention) : IsWord (retentionWord r) := by
  cases r <;> decide

theorem forall_entries_of_fits (h : m.Fits) : ∀ e ∈ entriesOf m, e.Fits :=
  forall_mem_entriesOf.mpr ⟨fun _ _ => trivial, fun _ _ => trivial, h.forms⟩

theorem forall_entries_of_texts {word constant : String → Prop} (h : m.Texts word constant) :
    ∀ e ∈ entriesOf m, e.Texts word constant :=
  forall_mem_entriesOf.mpr ⟨h.visible, h.invisible, h.body⟩

theorem isWord_entryWords (hf : e.Fits) (ht : e.Texts IsWord IsConstant)
    (hc : ∀ value, e ≠ .instruction (.constant value)) :
    ∀ w ∈ e.headWord :: e.operandWords, IsWord w := by
  cases e with
  | annotated r d =>
    have hhead : IsWord ".annotation" := by decide
    exact List.forall_mem_cons.mpr ⟨hhead, List.forall_mem_cons.mpr
      ⟨isWord_retentionWord r, List.forall_mem_singleton.mpr ht⟩⟩
  | instruction i =>
    have hi : ∀ value, i ≠ .constant value := fun value h => hc value (congrArg _ h)
    exact List.forall_mem_cons.mpr ⟨isWord_headWord hf, isWord_operandWords hf ht hi⟩

theorem words_seen_text (hf : e.Fits) (ht : e.Texts IsWord IsConstant)
    (hc : ∀ value, e ≠ .instruction (.constant value)) :
    words (seen e.text) = e.headWord :: keptWords e.operandWords := by
  rw [seen_text]
  apply words_uncommented_spaced (isWord_entryWords hf ht hc)
  · cases e with
    | annotated r d => exact show ".annotation" ≠ "LDC" by decide
    | instruction i => exact headWord_ne_ldc hf fun value h => hc value (congrArg _ h)
  · cases e with
    | annotated r d => exact show opensComment ".annotation".toList = false by decide
    | instruction i => exact opensComment_headWord hf

theorem words_seen_instruction {i : Instruction} (hf : i.Fits) (ht : i.Texts IsWord IsConstant)
    (hc : ∀ value, i ≠ .constant value) :
    words (seen i.text) = i.headWord :: keptWords i.operandWords :=
  words_seen_text (e := .instruction i) hf ht fun value h => hc value (by cases h; rfl)

theorem words_seen_instruction_eq_cons {i : Instruction} (hf : i.Fits)
    (ht : i.Texts IsWord IsConstant) : ∃ ws, words (seen i.text) = i.headWord :: ws := by
  by_cases hconstant : ∃ value, i = .constant value
  · obtain ⟨value, rfl⟩ := hconstant
    obtain ⟨us, -, -, hwords, -⟩ := read_uncommented_constant ht
    rw [← seen_constant] at hwords
    exact ⟨words us, hwords⟩
  · have hc : ∀ value, i ≠ .constant value := fun value h => hconstant ⟨value, h⟩
    exact ⟨_, words_seen_instruction hf ht hc⟩

theorem isWord_methodHeader (hname : IsWord m.name) (hdesc : IsWord m.desc) :
    ∀ w ∈ [".method", m.name, m.desc], IsWord w := by
  have hhead : IsWord ".method" := by decide
  exact List.forall_mem_cons.mpr ⟨hhead, List.forall_mem_cons.mpr
    ⟨hname, List.forall_mem_singleton.mpr hdesc⟩⟩

theorem words_seen_methodHeader (hname : IsWord m.name) (hdesc : IsWord m.desc) :
    words (seen (methodHeader m)) = ".method" :: keptWords [m.name, m.desc] := by
  rw [seen, toList_methodHeader]
  exact words_uncommented_spaced (isWord_methodHeader hname hdesc) (by decide) (by decide)

theorem isWord_classHeader (hname : IsWord c.name) :
    ∀ w ∈ ".class" :: c.name :: if c.isKotlin then ["kotlin"] else [], IsWord w := by
  have hhead : IsWord ".class" := by decide
  have hflag : ∀ w ∈ if c.isKotlin then ["kotlin"] else [], IsWord w := by
    cases c.isKotlin <;> decide
  exact List.forall_mem_cons.mpr ⟨hhead, List.forall_mem_cons.mpr ⟨hname, hflag⟩⟩

theorem words_seen_classHeader (hname : IsWord c.name) :
    words (seen (classHeader c)) =
      ".class" :: keptWords (c.name :: if c.isKotlin then ["kotlin"] else []) := by
  rw [seen, toList_classHeader]
  exact words_uncommented_spaced (isWord_classHeader hname) (by decide) (by decide)

theorem words_seen_end : words (seen ".end") = [".end"] := by decide

theorem isLine_text (hf : e.Fits) (ht : e.Texts IsWord IsConstant) : IsLine e.text.toList := by
  cases e with
  | annotated r d =>
    have htext : (Entry.annotated r d).text.toList = spaced [".annotation", retentionWord r, d] := by
      simp [Entry.text, spaced, String.toList_append]
    rw [htext]
    exact isLine_spaced (isWord_entryWords (e := .annotated r d) hf ht fun _ h => by cases h)
  | instruction i =>
    rw [Entry.text, Instruction.toList_text]
    refine isLine_indent_append (fun c hc => Instruction.eq_space_of_mem_indent hc) ?_
    by_cases hc : ∃ value, i = .constant value
    · obtain ⟨value, rfl⟩ := hc
      obtain ⟨hne, hlf, htrim⟩ := ht
      have hline : spaced (Instruction.constant value).words =
          'L' :: 'D' :: 'C' :: ' ' :: value.toList := spaced_constant value
      rw [hline]
      exact isLine_of_trimmed (trimmed_constant (by simpa using hne) htrim) (by simpa using hlf)
    · have hi : ∀ value, i ≠ .constant value := fun value h => hc ⟨value, h⟩
      exact isLine_spaced
        (List.forall_mem_cons.mpr ⟨isWord_headWord hf, isWord_operandWords hf ht hi⟩)

theorem seen_ne_nil {line : String} {w : String} {ws : List String}
    (h : words (seen line) = w :: ws) : seen line ≠ [] := by
  intro hnil
  rw [hnil, words_nil] at h
  cases h

theorem seen_text_ne_nil (hf : e.Fits) (ht : e.Texts IsWord IsConstant) : seen e.text ≠ [] := by
  cases e with
  | annotated r d => exact seen_ne_nil (words_seen_text hf ht fun _ h => by cases h)
  | instruction i =>
    obtain ⟨ws, hwords⟩ := words_seen_instruction_eq_cons hf ht
    exact seen_ne_nil hwords

/-- Every line of the printed form is read as a line that holds something. -/
theorem forall_lines_of_wellFormed (h : c.WellFormed) :
    ∀ l ∈ c.lines, IsLine l.toList ∧ seen l ≠ [] := by
  have hclass := h.texts.name
  refine forall_mem_classLines.mpr ⟨⟨?_, seen_ne_nil (words_seen_classHeader hclass)⟩, ?_⟩
  · rw [toList_classHeader]
    exact isLine_spaced (isWord_classHeader hclass)
  · intro m hm
    obtain ⟨hname, hdesc, -, -, -⟩ := h.texts.methods m hm
    have hf := forall_entries_of_fits (h.fits m hm)
    have ht := forall_entries_of_texts (h.texts.methods m hm)
    refine forall_mem_methodLines.mpr
      ⟨⟨?_, seen_ne_nil (words_seen_methodHeader hname hdesc)⟩, ?_, ⟨by decide, by decide⟩,
        seen_ne_nil words_seen_end⟩
    · rw [toList_methodHeader]
      exact isLine_spaced (isWord_methodHeader hname hdesc)
    · intro e he
      exact ⟨isLine_text (hf e he) (ht e he), seen_text_ne_nil (hf e he) (ht e he)⟩

theorem significant_print {cs : List ClassUnit} (h : ∀ c ∈ cs, c.WellFormed) :
    significant (lines (print cs).toList) = (cs.flatMap ClassUnit.lines).map seen := by
  have hlines : ∀ l ∈ cs.flatMap ClassUnit.lines, IsLine l.toList ∧ seen l ≠ [] := by
    intro l hl
    obtain ⟨c, hc, hlc⟩ := List.mem_flatMap.mp hl
    exact forall_lines_of_wellFormed (h c hc) l hlc
  rw [print, lines_unlines fun l hl => (hlines l hl).1, significant, List.map_map,
    List.filter_eq_self.mpr]
  · rfl
  · intro line hline
    obtain ⟨l, hl, rfl⟩ := List.mem_map.mp hline
    simpa [seen] using (hlines l hl).2

end Seen

end Listing
end ComposeGuards
