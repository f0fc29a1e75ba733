import ComposeGuards.Proofs.Listing.Remarks

/-! # Quoted constants

A quotation is spelled by its grammar: after the opening quote characters and escapes, then the
closing quote. The line reader looks for the closing quote by a scan, and on a quotation the scan
stops at the last character. So a line inside a method that loads a quotation is read as exactly
that constant, whatever the quotation holds and whatever comment follows it.
-/
namespace ComposeGuards.Listing
open ComposeGuards.Text

/-- The text after an opening quote: characters and escapes, a backslash taking the next character
with it whatever that is, and the first quote that none of them takes. -/
inductive Closes : List Char → Prop
  | quote : Closes ['"']
  | escape (c : Char) {cs : List Char} (rest : Closes cs) : Closes ('\\' :: c :: cs)
  | char {c : Char} {cs : List Char} (other : c ≠ '"') (plain : c ≠ '\\') (rest : Closes cs) :
      Closes (c :: cs)

/-- A text in double quotes. -/
inductive IsQuotation : List Char → Prop
  | opened {cs : List Char} (closes : Closes cs) : IsQuotation ('"' :: cs)

/-- What may follow a quotation in its line: blanks, and perhaps a comment. -/
inductive EndsLine : List Char → Prop
  | blank {bs : List Char} (blank : ∀ c ∈ bs, isBlank c = true) : EndsLine bs
  | hash {bs : List Char} (blank : ∀ c ∈ bs, isBlank c = true) (text : List Char) :
      EndsLine (bs ++ '#' :: text)
  | slashes {bs : List Char} (blank : ∀ c ∈ bs, isBlank c = true) (text : List Char) :
      EndsLine (bs ++ '/' :: '/' :: text)

/-- A line that loads the quotation: indentation, the mnemonic, a space and perhaps more blanks, the
quotation, and the end of the line. -/
inductive LoadsQuotation (quotation : List Char) : List Char → Prop
  | line {indent gap rest : List Char} (indented : ∀ c ∈ indent, isBlank c = true)
      (blank : ∀ c ∈ gap, isBlank c = true) (quoted : IsQuotation quotation)
      (ends : EndsLine rest) :
      LoadsQuotation quotation
        (indent ++ ("LDC".toList ++ (' ' :: gap ++ (quotation ++ rest))))

/-! ## The scan for the closing quote -/

theorem Closes.ne_nil {cs : List Char} (h : Closes cs) : cs ≠ [] := by
  rintro rfl
  cases h

theorem Closes.length_pos {cs : List Char} (h : Closes cs) : 0 < cs.length :=
  List.length_pos_of_ne_nil h.ne_nil

/-- The scan passes over characters and escapes alike, and stops at the last character. -/
theorem unescapedQuote?_of_closes {cs : List Char} (h : Closes cs) :
    unescapedQuote? cs = some (cs.length - 1) := by
  induction h with
  | quote => rfl
  | escape c rest ih =>
    have hpos := rest.length_pos
    rw [unescapedQuote?, ih, Option.map_some]
    congr 1
    simp only [List.length_cons]
    omega
  | char other plain rest ih =>
    have hpos := rest.length_pos
    rw [unescapedQuote?_cons other plain, ih, Option.map_some]
    congr 1
    simp only [List.length_cons]
    omega

theorem closes_of_unescapedQuote? {cs : List Char} (hpos : 0 < cs.length)
    (h : unescapedQuote? cs = some (cs.length - 1)) : Closes cs := by
  fun_induction unescapedQuote? cs with
  | case1 => cases hpos
  | case2 => cases h
  | case3 c cs ih =>
    obtain ⟨j, hj, hlast⟩ := Option.map_eq_some_iff.mp h
    have hlt := unescapedQuote?_lt_length hj
    simp only [List.length_cons] at hlast
    refine .escape c (ih (by omega) ?_)
    rw [hj]
    congr 1
    omega
  | case4 cs =>
    have hnil : cs.length = 0 := by simpa [eq_comm] using h
    rw [List.length_eq_zero_iff.mp hnil]
    exact .quote
  | case5 c cs hlone hpair hquote ih =>
    obtain ⟨j, hj, hlast⟩ := Option.map_eq_some_iff.mp h
    have hlt := unescapedQuote?_lt_length hj
    have hslash := ne_backslash_of_no_escape hlone hpair
    simp only [List.length_cons] at hlast
    refine .char hquote hslash (ih (by omega) ?_)
    rw [hj]
    congr 1
    omega

/-- What the scan takes for one literal is a quotation, and the other way round. -/
theorem isLiteral_iff_isQuotation {cs : List Char} : IsLiteral cs ↔ IsQuotation cs := by
  constructor
  · rintro ⟨hopens, hcloses⟩
    obtain ⟨ds, rfl⟩ := List.head?_eq_some_iff.mp hopens
    obtain ⟨j, hj, hlast⟩ := Option.map_eq_some_iff.mp hcloses
    have hlt := unescapedQuote?_lt_length hj
    simp only [List.length_cons] at hlast
    refine .opened (closes_of_unescapedQuote? (by omega) ?_)
    rw [hj]
    congr 1
    omega
  · rintro ⟨hcloses⟩
    have hpos := hcloses.length_pos
    refine ⟨rfl, ?_⟩
    rw [closingQuote?, unescapedQuote?_of_closes hcloses, Option.map_some]
    congr 1
    simp only [List.length_cons]
    omega

/-! ## The line -/

theorem EndsLine.trimStart_eq {rest : List Char} (h : EndsLine rest) :
    trimStart rest = [] ∨ opensComment (trimStart rest) = true := by
  cases h with
  | blank blank => exact .inl (trimStart_eq_nil_iff.mpr blank)
  | hash blank text =>
    right
    rw [trimStart_blanks_append blank, trimStart_eq_self fun c hc => by cases hc; decide]
    rfl
  | slashes blank text =>
    right
    rw [trimStart_blanks_append blank, trimStart_eq_self fun c hc => by cases hc; decide]
    rfl

theorem readInstruction_loadsQuotation {quotation line : List Char}
    (h : LoadsQuotation quotation line) :
    (∃ ws, words (uncommented line) = "LDC" :: ws) ∧
      readInstruction (uncommented line) = .ok (.constant (String.ofList quotation)) := by
  cases h with
  | @line indent gap rest indented blank quoted ends =>
    have hliteral := isLiteral_iff_isQuotation.mpr quoted
    have hline : uncommented (indent ++ ("LDC".toList ++ (' ' :: gap ++ (quotation ++ rest)))) =
        'L' :: 'D' :: 'C' :: ' ' :: (gap ++ quotation) := by
      rw [uncommented_blanks_append indented]
      exact uncommented_literal blank hliteral ends.trimStart_eq
    have hwords := words_ldc (gap ++ quotation)
    have hafter := afterFirstWord_ldc blank hliteral.trimmed
    rw [hline]
    refine ⟨⟨_, hwords⟩, ?_⟩
    rw [readInstruction_of_ldc hwords, hafter, if_neg (by simpa using hliteral.ne_nil)]

/-- A line that loads a quotation adds it to the method as it stands. -/
theorem step_loadsQuotation {quotation raw line : List Char} (h : LoadsQuotation quotation line)
    (hraw : uncommented raw = uncommented line) (cs : List ClassUnit) (m : Method) (n : Nat) :
    step ⟨cs, some m⟩ (raw, n) =
      .ok ⟨cs, some { m with body := m.body ++ [.constant (String.ofList quotation)] }⟩ := by
  obtain ⟨⟨ws, hwords⟩, hread⟩ := readInstruction_loadsQuotation h
  rw [← hraw] at hwords hread
  rw [step_instruction hwords (by decide)]
  simp only [instructionStep, hread]
  rfl

/-- In a text whose lines so far end inside a method, a line that loads a quotation is read as that
constant, character for character, and the reading goes on with the next line. -/
theorem quotation_read_verbatim {a l r : String} {quotation rest : List Char}
    {cs : List ClassUnit} {m : Method} (ha : Closed a.toList)
    (hinside : readLines {} 1 (lines a.toList) = .ok ⟨cs, some m⟩)
    (hl : LoadsQuotation quotation l.toList) (hline : '\n' ∉ l.toList)
    (hr : Ending r.toList rest) :
    read (a ++ l ++ r) =
      readLines ⟨cs, some { m with body := m.body ++ [.constant (String.ofList quotation)] }⟩
        ((lines a.toList).length + 2) (lines rest) >>= Progress.close := by
  have hne : l.toList ++ r.toList ≠ [] := by
    intro hnil
    rw [(List.append_eq_nil_iff.mp hnil).1] at hl
    obtain ⟨⟨ws, hwords⟩, -⟩ := readInstruction_loadsQuotation hl
    cases hwords
  obtain ⟨raw, hraw, hsame⟩ := exists_line hline hr hne
  have hlines : lines (a ++ l ++ r).toList = lines a.toList ++ raw :: lines rest := by
    rw [String.toList_append, String.toList_append, List.append_assoc, lines_append ha, hraw]
  have hstep := step_loadsQuotation hl hsame cs m (1 + (lines a.toList).length)
  have hnumber : 1 + (lines a.toList).length + 1 = (lines a.toList).length + 2 := by omega
  have hloaded : readLines ⟨cs, some m⟩ (1 + (lines a.toList).length) (raw :: lines rest) =
      readLines ⟨cs, some { m with body := m.body ++ [.constant (String.ofList quotation)] }⟩
        ((lines a.toList).length + 2) (lines rest) := by
    rw [readLines_cons, hstep, ← hnumber]
    rfl
  rw [read, hlines, readLines_append, hinside, ← hloaded]
  rfl

/-- Neither markers nor escaped quotes cut the quotation, and a quote in the comment is none. -/
theorem quotation_read_verbatim_escaped_quote :
    readLines {} 1 (lines ".class A\n.method m ()V\n".toList) =
        .ok ⟨[⟨"A", false, []⟩], some { name := "m", desc := "()V" }⟩ ∧
      LoadsQuotation "\"a # \\\" // é\\\\\"".toList
        "\t LDC \t\"a # \\\" // é\\\\\"\t//say \"x".toList ∧
      read (".class A\n.method m ()V\n" ++ "\t LDC \t\"a # \\\" // é\\\\\"\t//say \"x" ++
          "\r\n.end\n") =
        .ok [⟨"A", false,
          [⟨"m", "()V", [], [], [.constant "\"a # \\\" // é\\\\\""]⟩]⟩] := by
  have hinside : readLines {} 1 (lines ".class A\n.method m ()V\n".toList) =
      .ok ⟨[⟨"A", false, []⟩], some { name := "m", desc := "()V" }⟩ := by rfl
  have hquoted : IsQuotation "\"a # \\\" // é\\\\\"".toList :=
    isLiteral_iff_isQuotation.mp (by decide)
  have hindent : ∀ c ∈ ['\t', ' '], isBlank c = true := List.all_eq_true.mp rfl
  have htab : ∀ c ∈ ['\t'], isBlank c = true := List.all_eq_true.mp rfl
  have hload : LoadsQuotation "\"a # \\\" // é\\\\\"".toList
      "\t LDC \t\"a # \\\" // é\\\\\"\t//say \"x".toList :=
    .line hindent htab hquoted (.slashes htab "say \"x".toList)
  have hending : Ending "\r\n.end\n".toList ".end\n".toList := .crlf _
  exact ⟨hinside, hload, quotation_read_verbatim (by decide) hinside hload (by decide) hending⟩

end ComposeGuards.Listing
