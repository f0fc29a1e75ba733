import ComposeGuards.Proofs.Listing.Outline
import ComposeGuards.Proofs.Listing.ReadTrees
import ComposeGuards.Proofs.Listing.Refusals

/-! # Which label is reported

A line offends if it defines a label again within its method, or if it ends a method that refers to
a label defined nowhere in it. Both are said about the lines of the text alone: which method a line
stands in is decided by the headers and ends before it. A text whose lines are outlined is refused
exactly for its first line that offends.
-/
namespace ComposeGuards.Listing
open ComposeGuards.Text

/-- The instruction in a line of the text, if there is one. -/
def instructionOf? (raw : List Char) : Option Instruction :=
  (readInstruction (uncommented raw)).toOption

/-- The lines end inside the method of that name, after the instructions of `b`: a header, and no
end after it. -/
def Inside (ls : List (List Char)) (name : String) (b : Body) : Prop :=
  ∃ earlier header since desc extra, ls = earlier ++ header :: since ∧
    words (uncommented header) = ".method" :: name :: desc :: extra ∧
    (∀ raw ∈ since, ∀ ws, words (uncommented raw) ≠ ".end" :: ws) ∧
    since.filterMap instructionOf? = b

/-- What a line that follows the lines `before` does wrong with labels. -/
inductive Offends (before : List (List Char)) (raw : List Char) : Error → Prop
  | definedAgain {name word : String} {b : Body} {l : Label} (inside : Inside before name b)
      (words : words (uncommented raw) = [word]) (label : labelOfWord? word = some l)
      (defined : l ∈ b.definedLabels) : Offends before raw (.duplicateLabel (before.length + 1) l)
  | undefined {name : String} {extra : List String} {b : Body} {l : Label}
      (inside : Inside before name b) (words : words (uncommented raw) = ".end" :: extra)
      (once : b.definedLabels.Nodup) (used : l ∈ b.usedLabels) (missing : l ∉ b.definedLabels)
      (least : ∀ k ∈ b.usedLabels, k ∉ b.definedLabels → l ≤ k) :
      Offends before raw (.undefinedLabel name l)

/-- The error of the first line that offends. -/
def FirstOffence (ls : List (List Char)) (e : Error) : Prop :=
  ∃ before raw after, ls = before ++ raw :: after ∧ Offends before raw e ∧
    ∀ earlier line rest f, before = earlier ++ line :: rest → ¬ Offends earlier line f

/-! ## What an arranged line is refused for -/

/-- Why a line that labels aside is in place can be refused. -/
inductive LabelFault (line : List Char) (n : Nat) : Progress → Error → Prop
  | definedAgain {cs : List ClassUnit} {m : Method} {l : Label}
      (entry : IsEntry line (.instruction (.label l))) (defined : l ∈ m.body.definedLabels) :
      LabelFault line n ⟨cs, some m⟩ (.duplicateLabel n l)
  | undefined {cs : List ClassUnit} {m : Method} {ws : List String} {l : Label}
      (words : words line = ".end" :: ws) (least : m.body.undefinedLabels.head? = some l) :
      LabelFault line n ⟨cs, some m⟩ (.undefinedLabel m.name l)

section Fault
variable {line raw : List Char} {n : Nat} {p q : Progress} {e : Error}

theorem LabelFault.refuses (h : LabelFault line n p e) : Refuses line n raw p e := by
  cases h with
  | definedAgain entry defined =>
    cases entry with
    | instruction words other read => exact .definedTwice words other read rfl defined
  | undefined words least =>
    obtain ⟨ls, hls⟩ := List.head?_eq_some_iff.mp least
    exact .methodEnd words hls

theorem Entry.eq_of_defines?_eq_some {x : Entry} {l : Label} (h : x.defines? = some l) :
    x = .instruction (.label l) := by
  cases x with
  | annotated r d => cases h
  | instruction i =>
    cases i with
    | label k => cases h; rfl
    | _ => cases h

theorem Arranges.advances_or_labelFault (h : Arranges line p q) (n : Nat) :
    Advances line p q ∨ ∃ e, LabelFault line n p e := by
  cases h with
  | classHeader words => exact .inl (.classHeader words)
  | kotlinHeader words => exact .inl (.kotlinHeader words)
  | methodHeader words inClass => exact .inl (.methodHeader words inClass)
  | @entry cs m x entry =>
    by_cases hfresh : ∀ l ∈ x.defines?, l ∉ m.body.definedLabels
    · exact .inl (.entry entry hfresh)
    · simp only [not_forall, not_not] at hfresh
      obtain ⟨l, hl, hdefined⟩ := hfresh
      rw [Entry.eq_of_defines?_eq_some hl] at entry
      exact .inr ⟨_, .definedAgain entry hdefined⟩
  | @methodEnd cs m extra words =>
    cases hundefined : m.body.undefinedLabels with
    | nil => exact .inl (.methodEnd words (Body.undefinedLabels_eq_nil_iff.mp hundefined))
    | cons l ls => exact .inr ⟨_, .undefined words (by rw [hundefined]; rfl)⟩

theorem Arranges.ne_nil (h : Arranges line p q) : line ≠ [] := by
  rintro rfl
  cases h with
  | classHeader words | kotlinHeader words | methodHeader words | methodEnd words => cases words
  | entry entry =>
    cases entry with
    | annotated words | instruction words => cases words

/-- A line that is in place is refused for its labels only. -/
theorem Arranges.step_eq_error_iff (h : Arranges (uncommented raw) p q) :
    step p (raw, n) = .error e ↔ LabelFault (uncommented raw) n p e := by
  constructor
  · intro herror
    rcases h.advances_or_labelFault n with hadvances | ⟨f, hf⟩
    · have hok : step p (raw, n) = .ok q := by
        rw [step_eq_ok_iff, if_neg h.ne_nil]
        exact hadvances
      rw [hok] at herror
      cases herror
    · have hrefused : step p (raw, n) = .error f := step_of_refuses hf.refuses
      rw [hrefused] at herror
      cases herror
      exact hf
  · intro hf
    exact step_of_refuses hf.refuses

end Fault

/-! ## Where a line stands -/

/-- The reading is inside the method of that name, after the instructions of `b`. -/
def Progress.IsInside (p : Progress) (name : String) (b : Body) : Prop :=
  ∃ m, p.current = some m ∧ m.name = name ∧ m.body = b

theorem readInstruction_directive {line : List Char} {ws : List String} (d : Directive)
    (h : words line = d.word :: ws) :
    readInstruction line = .error (.unknownMnemonic d.word) := by
  cases d <;> simp only [readInstruction, h] <;> rfl

section Inside
variable {before : List (List Char)} {raw : List Char} {name : String} {b : Body}
  {ws : List String} {p : Progress}

theorem instructionOf?_directive (d : Directive) (h : words (uncommented raw) = d.word :: ws) :
    instructionOf? raw = none := by
  rw [instructionOf?, readInstruction_directive d h]
  rfl

theorem instructionOf?_of_words_eq_nil (h : words (uncommented raw) = []) :
    instructionOf? raw = none := by
  simp [instructionOf?, readInstruction, h, Except.toOption]

theorem not_inside_nil : ¬ Inside [] name b := by
  rintro ⟨earlier, header, since, _, _, h, -⟩
  cases earlier <;> cases h

/-- One more line opens a method, or is a line of the method around it. -/
theorem inside_append_singleton_iff :
    Inside (before ++ [raw]) name b ↔
      (∃ desc extra, words (uncommented raw) = ".method" :: name :: desc :: extra ∧ b = []) ∨
        ∃ b', Inside before name b' ∧ (∀ ws, words (uncommented raw) ≠ ".end" :: ws) ∧
          b = b' ++ (instructionOf? raw).toList := by
  constructor
  · rintro ⟨earlier, header, since, desc, extra, hls, hheader, hopen, rfl⟩
    rcases List.eq_nil_or_concat since with rfl | ⟨since, line, rfl⟩
    · obtain ⟨rfl, hraw⟩ := List.append_inj' hls rfl
      cases hraw
      exact .inl ⟨desc, extra, hheader, rfl⟩
    · rw [List.concat_eq_append, ← List.cons_append, ← List.append_assoc] at hls
      obtain ⟨rfl, hraw⟩ := List.append_inj' hls rfl
      cases hraw
      simp only [List.concat_eq_append, List.mem_append, List.mem_singleton] at hopen
      refine .inr ⟨_, ⟨earlier, header, since, desc, extra, rfl, hheader, ?_, rfl⟩, ?_, ?_⟩
      · exact fun line hline => hopen line (.inl hline)
      · exact hopen raw (.inr rfl)
      · cases hi : instructionOf? raw <;> simp [hi]
  · rintro (⟨desc, extra, hheader, rfl⟩ | ⟨_, ⟨earlier, header, since, desc, extra, rfl, hheader,
      hopen, rfl⟩, hraw, rfl⟩)
    · exact ⟨before, raw, [], desc, extra, rfl, hheader, by simp, rfl⟩
    · refine ⟨earlier, header, since ++ [raw], desc, extra, by simp, hheader, ?_, ?_⟩
      · intro line hline
        rcases List.mem_append.mp hline with hline | hline
        · exact hopen line hline
        · rw [List.mem_singleton.mp hline]
          exact hraw
      · cases hi : instructionOf? raw <;> simp [hi]

theorem Arranges.inside_iff {q : Progress} (h : Arranges (uncommented raw) p q)
    (hbefore : ∀ name b, Inside before name b ↔ p.IsInside name b) :
    Inside (before ++ [raw]) name b ↔ q.IsInside name b := by
  rw [inside_append_singleton_iff]
  simp only [hbefore, Progress.IsInside]
  cases h with
  | classHeader words | kotlinHeader words =>
    have hno := words_ne_methodHeader words
    simp [hno]
  | @methodHeader cs name' desc extra words =>
    simp [words, eq_comm]
  | @entry cs m x entry =>
    cases entry with
    | @annotated r d extra words =>
      have hnone : instructionOf? raw = none := instructionOf?_directive .annotationLine words
      cases r <;> simp [words, hnone, addEntry, Method.annotate, eq_comm]
    | @instruction head operands i words other read =>
      have hno := Directive.words_ne words other
      have hsome : instructionOf? raw = some i := by simp [instructionOf?, read, Except.toOption]
      have hmethod : ∀ rest, ComposeGuards.Text.words (uncommented raw) ≠ ".method" :: rest :=
        hno .methodHeader
      have hend : ∀ rest, ComposeGuards.Text.words (uncommented raw) ≠ ".end" :: rest :=
        hno .methodEnd
      simp [hmethod, hend, hsome, addEntry, eq_comm]
  | @methodEnd cs m extra words =>
    simp [words]

/-- The method around the end of the lines is the one that the progress is in. -/
theorem Arranged.inside_iff (h : Arranged {} (significant before) p) :
    Inside before name b ↔ p.IsInside name b := by
  induction before using List.reverseRecOn generalizing name b p with
  | nil =>
    cases h
    simp [not_inside_nil, Progress.IsInside]
  | append_singleton before raw ih =>
    rw [significant_append] at h
    obtain ⟨r, hbefore, hraw⟩ := h.exists_of_append
    by_cases hnil : uncommented raw = []
    · have hwords : words (uncommented raw) = [] := words_uncommented_eq_nil_iff.mpr hnil
      have hnone : instructionOf? raw = none := instructionOf?_of_words_eq_nil hwords
      rw [significant_cons_of_eq_nil hnil] at hraw
      cases hraw
      rw [inside_append_singleton_iff]
      simp [hwords, hnone, ih hbefore]
    · rw [significant_cons_of_ne_nil hnil] at hraw
      cases hraw with
      | line first next =>
        cases next
        exact first.inside_iff fun _ _ => ih hbefore

end Inside

/-! ## The first line that offends -/

section First
variable {before after ls : List (List Char)} {raw line : List Char} {p q : Progress} {e : Error}
  {cs : List ClassUnit}

theorem not_mem_directives_of_labelOfWord?_eq_some {word : String} {l : Label}
    (h : labelOfWord? word = some l) : word ∉ directives := by
  intro hmem
  obtain ⟨ds, hword, -⟩ := labelOfWord?_eq_some_iff.mp h
  simp only [directives, List.mem_cons, List.not_mem_nil, or_false] at hmem
  rcases hmem with rfl | rfl | rfl | rfl <;> cases hword

theorem isEntry_label_iff {l : Label} :
    IsEntry line (.instruction (.label l)) ↔
      ∃ word, words line = [word] ∧ labelOfWord? word = some l := by
  constructor
  · intro h
    cases h with
    | instruction words other read =>
      have hspells := readInstruction_eq_ok_iff.mp read
      generalize Text.words line = all at hspells
      cases hspells with
      | label label => exact ⟨_, rfl, label⟩
      | opcode operands => cases operands
  · rintro ⟨word, hwords, hlabel⟩
    have hread : readInstruction line = .ok (.label l) :=
      readInstruction_eq_ok_iff.mpr (by rw [hwords]; exact .label hlabel)
    exact .instruction hwords (not_mem_directives_of_labelOfWord?_eq_some hlabel) hread

theorem Runs.nodup_definedLabels (h : Runs {} ls p) {m : Method} (hm : p.current = some m) :
    m.body.definedLabels.Nodup := by
  cases reached_of_runs h with
  | between listing => cases hm
  | inside listing inClass header entries once => cases hm; exact once

/-- What offends in the lines is what the progress after the lines before cannot take. -/
theorem offends_iff_labelFault (h : Runs {} (significant before) p) :
    Offends before raw e ↔ LabelFault (uncommented raw) (before.length + 1) p e := by
  have hinside (name : String) (b : Body) : Inside before name b ↔ p.IsInside name b :=
    h.arranged.inside_iff
  obtain ⟨cs, current⟩ := p
  constructor
  · intro ho
    cases ho with
    | definedAgain inside words label defined =>
      obtain ⟨m, rfl, rfl, rfl⟩ := (hinside _ _).mp inside
      exact .definedAgain (isEntry_label_iff.mpr ⟨_, words, label⟩) defined
    | undefined inside words once used missing least =>
      obtain ⟨m, rfl, rfl, rfl⟩ := (hinside _ _).mp inside
      exact .undefined words
        (Body.head?_undefinedLabels_eq_some_iff.mpr ⟨⟨used, missing⟩, least⟩)
  · intro hf
    cases hf with
    | @definedAgain _ m l entry defined =>
      obtain ⟨word, hwords, hlabel⟩ := isEntry_label_iff.mp entry
      exact .definedAgain ((hinside _ _).mpr ⟨m, rfl, rfl, rfl⟩) hwords hlabel defined
    | @undefined _ m ws l words least =>
      obtain ⟨⟨hused, hmissing⟩, hleast⟩ := Body.head?_undefinedLabels_eq_some_iff.mp least
      exact .undefined ((hinside _ _).mpr ⟨m, rfl, rfl, rfl⟩) words (h.nodup_definedLabels rfl)
        hused hmissing hleast

/-- Of an outlined text, a line that follows accepted lines is refused if it offends. -/
theorem Outlines.step_eq_error_iff (h : Outlines (significant (before ++ raw :: after)) cs)
    (hbefore : readLines {} 1 before = .ok p) :
    step p (raw, before.length + 1) = .error e ↔ Offends before raw e := by
  have hruns : Runs {} (significant before) p := readLines_eq_ok_iff.mp hbefore
  rw [offends_iff_labelFault hruns]
  by_cases hnil : uncommented raw = []
  · have hwords : words (uncommented raw) = [] := words_uncommented_eq_nil_iff.mpr hnil
    rw [step_of_words_eq_nil hwords]
    simp only [reduceCtorEq, false_iff]
    intro hf
    cases hf with
    | definedAgain entry =>
      obtain ⟨word, hword, -⟩ := isEntry_label_iff.mp entry
      rw [hwords] at hword
      cases hword
    | undefined words => rw [hwords] at words; cases words
  · have harranged := h.arranged
    rw [significant_append, significant_cons_of_ne_nil hnil] at harranged
    obtain ⟨p', hp', hrest⟩ := harranged.exists_of_append
    rw [hp'.unique hruns.arranged] at hrest
    cases hrest with
    | line first => exact first.step_eq_error_iff

theorem Outlines.not_offends_of_readLines_eq_ok {f : Error} {rest : List (List Char)}
    (h : Outlines (significant (before ++ line :: rest)) cs)
    (hok : readLines {} 1 (before ++ line :: after) = .ok q) : ¬ Offends before line f := by
  intro ho
  rw [readLines_append, bind_eq_ok_iff] at hok
  obtain ⟨r, hbefore, hok⟩ := hok
  rw [readLines_cons, Nat.add_comm, (h.step_eq_error_iff hbefore).mpr ho] at hok
  cases hok

/-- The lines of an outlined text are refused for the first one that offends. -/
theorem Outlines.readLines_eq_error_iff (h : Outlines (significant ls) cs) :
    readLines {} 1 ls = .error e ↔ FirstOffence ls e := by
  rw [Listing.readLines_eq_error_iff]
  constructor
  · rintro ⟨before, raw, after, q, rfl, hbefore, hrefused⟩
    rw [Nat.add_comm] at hrefused
    have ho := (h.step_eq_error_iff hbefore).mp (step_of_refuses hrefused)
    refine ⟨before, raw, after, rfl, ho, ?_⟩
    rintro earlier line rest f rfl
    have hlonger : Outlines (significant (earlier ++ line :: (rest ++ raw :: after))) cs := by
      simpa using h
    exact hlonger.not_offends_of_readLines_eq_ok hbefore
  · rintro ⟨before, raw, after, rfl, ho, hfirst⟩
    cases hbefore : readLines {} 1 before with
    | ok q =>
      have hstep := (h.step_eq_error_iff hbefore).mpr ho
      rw [Nat.add_comm] at hstep
      exact ⟨before, raw, after, q, rfl, hbefore, Listing.step_eq_error_iff.mp hstep⟩
    | error f =>
      -- the line at which the lines before fail would offend before this one
      obtain ⟨earlier, line, rest, q, rfl, hearlier, hrefused⟩ :=
        Listing.readLines_eq_error_iff.mp hbefore
      have hlonger : Outlines (significant (earlier ++ line :: (rest ++ raw :: after))) cs := by
        simpa using h
      rw [Nat.add_comm] at hrefused
      exact absurd ((hlonger.step_eq_error_iff hearlier).mp (step_of_refuses hrefused))
        (hfirst earlier line rest f rfl)

end First

/-! ## Reading an outlined text -/

section Text
variable {text : String} {cs cs' : List ClassUnit} {e : Error}

theorem Outlines.eq_of_readLines_eq_ok {q : Progress}
    (h : Outlines (significant (lines text.toList)) cs)
    (hok : readLines {} 1 (lines text.toList) = .ok q) : q = ⟨cs, none⟩ :=
  (readLines_eq_ok_iff.mp hok).arranged.unique h.arranged

theorem Outlines.read_eq_error_iff (h : Outlines (significant (lines text.toList)) cs) :
    read text = .error e ↔ FirstOffence (lines text.toList) e := by
  rw [Listing.read_eq_error_iff, ← h.readLines_eq_error_iff]
  constructor
  · rintro (herror | ⟨cs', m, hok, -⟩)
    · exact herror
    · cases h.eq_of_readLines_eq_ok hok
  · exact .inl

theorem Outlines.read_eq_ok_iff (h : Outlines (significant (lines text.toList)) cs) :
    read text = .ok cs' ↔ cs = cs' ∧ ∀ c ∈ cs, ∀ m ∈ c.methods, m.body.LabelsBound := by
  constructor
  · intro hok
    have hruns := Listing.read_eq_ok_iff.mp hok
    cases hruns.arranged.unique h.arranged
    exact ⟨rfl, fun c hc m hm => ((wellFormed_of_read hok c hc).fits m hm).labels⟩
  · rintro ⟨rfl, hlabels⟩
    exact read_eq_ok_iff_isListing.mpr (h.isListing hlabels)

end Text

/-- A text whose lines are well formed one by one and bracketed into classes and methods is refused
if and only if a method defines a label twice or refers to a label that it does not define. The
error is that of the first line that offends, and labels are compared by their numbers. -/
theorem read_reports_first_label_offence (text : String) (cs : List ClassUnit)
    (h : Outlines (significant (lines text.toList)) cs) :
    ((∃ e, read text = .error e) ↔
        ∃ c ∈ cs, ∃ m ∈ c.methods, ¬ m.body.definedLabels.Nodup ∨
          ∃ l ∈ m.body.usedLabels, l ∉ m.body.definedLabels) ∧
      (∀ e, read text = .error e ↔ FirstOffence (lines text.toList) e) ∧
      ∀ word l, labelOfWord? word = some l ↔
        ∃ ds, word.toList = 'L' :: ds ∧ ds ≠ [] ∧ (∀ c ∈ ds, c.isDigit = true) ∧
          Nat.ofDigitChars 10 ds 0 = l.toNat := by
  refine ⟨?_, fun e => h.read_eq_error_iff, fun word l => labelOfWord?_eq_some_iff⟩
  have hfails : (∃ e, read text = .error e) ↔ ¬ read text = .ok cs := by
    cases hread : read text with
    | error e => simp
    | ok cs' => simp [(h.read_eq_ok_iff.mp hread).1]
  simp only [hfails, h.read_eq_ok_iff, true_and, not_forall, exists_prop,
    Body.not_labelsBound_iff]

/-- Two methods that use the same numbers; the second one defines one of them twice. -/
def reusedLabels : String :=
  ".class A\n.method f ()V\nL1\nGOTO L1\n.end\n\n.method g ()V\nIFEQ L2\nL1\nL01 # again\n.end\n"

def reusedLabelsClass : ClassUnit where
  name := "A"
  isKotlin := false
  methods :=
    [methodOf "f" "()V" [.instruction (.label 1), .instruction (.jump (.named .goto) 1)],
      methodOf "g" "()V" [.instruction (.jump (.named .ifeq) 2), .instruction (.label 1),
        .instruction (.label 1)]]

theorem outlines_reusedLabels :
    Outlines (significant (lines reusedLabels.toList)) [reusedLabelsClass] := by
  have hf : OutlinesMethod
      (".method f ()V".toList :: (["L1".toList, "GOTO L1".toList] ++ [".end".toList]))
      (methodOf "f" "()V" [.instruction (.label 1), .instruction (.jump (.named .goto) 1)]) :=
    .lines (by rfl) (.cons (.instruction (by rfl) (by decide) (by rfl))
      (.cons (.instruction (by rfl) (by decide) (by rfl)) .nil)) (by rfl)
  have hg : OutlinesMethod
      (".method g ()V".toList ::
        (["IFEQ L2".toList, "L1".toList, "L01".toList] ++ [".end".toList]))
      (methodOf "g" "()V" [.instruction (.jump (.named .ifeq) 2), .instruction (.label 1),
        .instruction (.label 1)]) :=
    .lines (by rfl) (.cons (.instruction (by rfl) (by decide) (by rfl))
      (.cons (.instruction (by rfl) (by decide) (by rfl))
        (.cons (.instruction (by rfl) (by decide) (by rfl)) .nil))) (by rfl)
  exact ⟨[_], by rfl, .cons (.plain (by rfl) (.cons hf (.cons hg .nil))) .nil⟩

/-- The second definition comes before the end that misses a label, and counts although the number
is spelled with a zero; the definition in the method before does not. -/
theorem reusedLabels_offends_at_tenth_line :
    read reusedLabels = .error (.duplicateLabel 10 1) ∧
      FirstOffence (lines reusedLabels.toList) (.duplicateLabel 10 1) ∧
      ∃ c ∈ [reusedLabelsClass], ∃ m ∈ c.methods, ¬ m.body.definedLabels.Nodup ∨
        ∃ l ∈ m.body.usedLabels, l ∉ m.body.definedLabels := by
  have hread : read reusedLabels = .error (.duplicateLabel 10 1) := by rfl
  obtain ⟨hfails, hfirst, -⟩ :=
    read_reports_first_label_offence reusedLabels [reusedLabelsClass] outlines_reusedLabels
  exact ⟨hread, (hfirst _).mp hread, hfails.mp ⟨_, hread⟩⟩

/-- Of two labels that the method misses, the smaller one is reported, wherever they are used. -/
example :
    read ".class A\n.method f ()V\nL2\n.end\n.method g ()V\nGOTO L7\nLINENUMBER 3 L2\n.end\n" =
      .error (.undefinedLabel "g" 2) := by rfl

end ComposeGuards.Listing
