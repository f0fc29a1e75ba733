import ComposeGuards.Proofs.Listing.Remarks

/-! # Lines with other blanks between their parts

A row is a line taken apart: words, or `LDC` and a literal, then perhaps a comment, with a run of
blanks between each two parts. Which blanks these are does not matter between words. Before a
comment the last of them must be a space, or the comment is taken for words; and after `LDC` the
first must be one, or the literal is not kept from being cut at a marker.
-/
namespace ComposeGuards.Listing
open ComposeGuards.Text

/-- Blanks between two parts of a line. -/
structure Gap where
  chars : List Char
  nonempty : chars ≠ []
  blank : ∀ c ∈ chars, isBlank c = true

/-- The gap with these characters; that they are blank is checked one by one. -/
def Gap.of (chars : List Char) (nonempty : chars ≠ []) (blank : chars.all isBlank = true) : Gap :=
  ⟨chars, nonempty, List.all_eq_true.mp blank⟩

def Gap.space : Gap :=
  .of [' '] (by decide) (by decide)

structure Token where
  word : String
  isToken : IsToken word

/-- A comment and the blanks before it. -/
structure Remark where
  gap : Gap
  text : List Char
  isRemark : IsRemark text

/-- What a row says. -/
inductive Content
  | words (first : Token) (other : first.word ≠ "LDC") (rest : List (Gap × Token))
  | constant (gap : Gap) (literal : List Char) (isLiteral : IsLiteral literal)

structure Row where
  content : Content
  remark : Option Remark := none

/-! ## The text of a row -/

def tokenChars (rest : List (Gap × Token)) : List Char :=
  rest.flatMap fun p => p.1.chars ++ p.2.word.toList

def remarkChars : Option Remark → List Char
  | none => []
  | some r => r.gap.chars ++ r.text

def Content.chars : Content → List Char
  | words first _ rest => first.word.toList ++ tokenChars rest
  | constant gap literal _ => 'L' :: 'D' :: 'C' :: (gap.chars ++ literal)

def Row.text (row : Row) : List Char :=
  row.content.chars ++ remarkChars row.remark

/-- The same with one space in each gap. -/
def Content.spaced : Content → Content
  | words first other rest => words first other (rest.map fun p => (.space, p.2))
  | constant _ literal isLiteral => constant .space literal isLiteral

def Row.spaced (row : Row) : Row where
  content := row.content.spaced
  remark := row.remark.map fun r => { r with gap := .space }

/-- The parts that a row is meant to have. -/
def Content.parts : Content → List String
  | words first _ rest => first.word :: rest.map fun p => p.2.word
  | constant _ literal _ => ["LDC", String.ofList literal]

/-- The comment, if there is one, comes right after a space. -/
def CutOff (remark : Option Remark) : Prop :=
  ∀ r ∈ remark, r.gap.chars.getLast? = some ' '

/-- The spaces that are needed are there. Among words that is one right before the comment. In a row
with a literal it is one right after `LDC`; without it the literal must hold no marker after a
space, and the comment needs its space as among words. -/
def Row.KeepsSpaces (row : Row) : Prop :=
  match row.content with
  | .words _ _ _ => CutOff row.remark
  | .constant gap literal _ =>
    gap.chars.head? = some ' ' ∨
      (¬ [' ', '#'] <:+: literal ∧ ¬ [' ', '/', '/'] <:+: literal) ∧ CutOff row.remark

/-! ## Gaps, words and comments -/

/-- What follows is nothing or starts with a blank. -/
def StartsBlank (cs : List Char) : Prop :=
  ∀ c, cs.head? = some c → isBlank c = true

theorem Gap.startsBlank (g : Gap) (cs : List Char) : StartsBlank (g.chars ++ cs) := by
  intro c hc
  rw [List.head?_append_of_ne_nil _ g.nonempty] at hc
  exact g.blank c (List.mem_of_mem_head? hc)

theorem Gap.getLast?_ne_slash (g : Gap) : g.chars.getLast? ≠ some '/' := by
  intro h
  have hblank := g.blank '/' (List.mem_of_getLast? h)
  cases hblank

theorem Gap.beforeComment_append (g : Gap) {cs : List Char}
    (h : g.chars.getLast? = some ' ' → opensComment cs = false) :
    beforeComment (g.chars ++ cs) = g.chars ++ beforeComment cs :=
  beforeComment_append_of_eq_self (beforeComment_eq_self_of_blank g.blank) g.getLast?_ne_slash h

theorem startsBlank_remarkChars (remark : Option Remark) : StartsBlank (remarkChars remark) := by
  cases remark with
  | none => intro c hc; cases hc
  | some r => exact r.gap.startsBlank r.text

theorem StartsBlank.of_isPrefix {cs ds : List Char} (h : StartsBlank ds) (hcs : cs <+: ds) :
    StartsBlank cs := by
  intro c hc
  obtain ⟨es, rfl⟩ := List.head?_eq_some_iff.mp hc
  obtain ⟨fs, rfl⟩ := hcs
  exact h c rfl

/-- A comment is cut off exactly when a space comes right before it. -/
theorem blank_beforeComment_iff (remark : Option Remark) :
    (∀ c ∈ beforeComment (remarkChars remark), isBlank c = true) ↔ CutOff remark := by
  cases remark with
  | none => simp [remarkChars, beforeComment, CutOff]
  | some r =>
    simp only [CutOff, Option.mem_def, Option.some.injEq, forall_eq', remarkChars]
    by_cases hspace : r.gap.chars.getLast? = some ' '
    · obtain ⟨before, hbefore⟩ := List.getLast?_eq_some_iff.mp hspace
      have hblank : ∀ c ∈ before, isBlank c = true := by
        intro c hc
        exact r.gap.blank c (by rw [hbefore]; exact List.mem_append_left _ hc)
      rw [hbefore, List.append_assoc, List.singleton_append,
        beforeComment_append_comment r.isRemark.opens, beforeComment_eq_self_of_blank hblank]
      simpa using hblank
    · obtain ⟨m, ds, htext, hm⟩ := exists_marker_of_opensComment r.isRemark.opens
      have hkept : beforeComment r.text = m :: beforeComment ds := by
        rw [htext, beforeComment, if_neg]
        rcases hm with rfl | rfl <;> simp
      have hmark : isBlank m = false := by rcases hm with rfl | rfl <;> decide
      rw [r.gap.beforeComment_append fun h => absurd h hspace, hkept]
      simp only [hspace, iff_false]
      intro hall
      rw [hall m (by simp)] at hmark
      cases hmark

theorem tokenChars_cons_append (g : Gap) (t : Token) (rest : List (Gap × Token))
    (cs : List Char) :
    tokenChars ((g, t) :: rest) ++ cs =
      g.chars ++ (t.word.toList ++ (tokenChars rest ++ cs)) := by
  simp [tokenChars]

theorem startsBlank_tokenChars (rest : List (Gap × Token)) {cs : List Char}
    (h : StartsBlank cs) : StartsBlank (tokenChars rest ++ cs) := by
  cases rest with
  | nil => exact h
  | cons p rest =>
    rw [tokenChars_cons_append]
    exact p.1.startsBlank _

/-- No word is cut, and none is part of what follows it. -/
theorem beforeComment_tokenChars (rest : List (Gap × Token)) {cs : List Char}
    (h : StartsBlank cs) :
    beforeComment (tokenChars rest ++ cs) = tokenChars rest ++ beforeComment cs := by
  induction rest with
  | nil => rfl
  | cons p rest ih =>
    obtain ⟨g, t⟩ := p
    have htoken : opensComment (t.word.toList ++ (tokenChars rest ++ cs)) = false := by
      rw [opensComment_append_of_blank (startsBlank_tokenChars rest h), t.isToken.2]
    rw [tokenChars_cons_append, tokenChars_cons_append, g.beforeComment_append fun _ => htoken,
      beforeComment_append t.isToken.1.space_not_mem, ih]

theorem words_tokenChars (rest : List (Gap × Token)) {cs : List Char} (h : StartsBlank cs) :
    words (tokenChars rest ++ cs) = (rest.map fun p => p.2.word) ++ words cs := by
  induction rest with
  | nil => rfl
  | cons p rest ih =>
    obtain ⟨g, t⟩ := p
    rw [tokenChars_cons_append, words_blanks_append g.blank,
      words_toList_append t.isToken.1 (startsBlank_tokenChars rest h), ih]
    rfl

/-! ## Rows of words -/

/-- A line that starts with a token has the words before its comment, unless it is a constant. -/
theorem parts_uncommented_token (first : Token) (other : first.word ≠ "LDC") {cs : List Char}
    (h : StartsBlank cs) :
    parts (uncommented (first.word.toList ++ cs)) = first.word :: words (beforeComment cs) := by
  have hword := first.isToken.1
  have hstart : trimStart (first.word.toList ++ cs) = first.word.toList ++ cs :=
    trimStart_append_of_head hword.toList_ne_nil hword.trimmed.1 cs
  have hopen : opensComment (first.word.toList ++ cs) = false := by
    rw [opensComment_append_of_blank h, first.isToken.2]
  have htrim : words (trim (first.word.toList ++ cs)) = first.word :: words cs := by
    rw [words_trim, words_toList_append hword h]
  have hleft : uncommented (first.word.toList ++ cs) =
      trimEnd (first.word.toList ++ beforeComment cs) := by
    rw [uncommented_of_unquoted (by rw [hstart, hopen]) (quotedOperand?_of_words_ne htrim other),
      hstart, beforeComment_append hword.space_not_mem]
  have hwords : words (uncommented (first.word.toList ++ cs)) =
      first.word :: words (beforeComment cs) := by
    rw [hleft, words_trimEnd,
      words_toList_append hword (h.of_isPrefix (beforeComment_isPrefix cs))]
  exact parts_of_ne_ldc hwords other

theorem parts_uncommented_words (first : Token) (other : first.word ≠ "LDC")
    (rest : List (Gap × Token)) (remark : Option Remark) :
    parts (uncommented (first.word.toList ++ tokenChars rest ++ remarkChars remark)) =
        first.word :: (rest.map fun p => p.2.word) ↔ CutOff remark := by
  have hremark := startsBlank_remarkChars remark
  have hkept := hremark.of_isPrefix (beforeComment_isPrefix (remarkChars remark))
  rw [List.append_assoc, parts_uncommented_token first other (startsBlank_tokenChars rest hremark),
    beforeComment_tokenChars rest hremark, words_tokenChars rest hkept,
    ← blank_beforeComment_iff, ← trimStart_eq_nil_iff, ← words_eq_nil_iff]
  simp

/-! ## Rows with a literal -/

theorem trimStart_remarkChars (remark : Option Remark) :
    trimStart (remarkChars remark) = [] ∨ opensComment (trimStart (remarkChars remark)) = true := by
  cases remark with
  | none => exact .inl rfl
  | some r =>
    right
    have hopens := r.isRemark.opens
    rw [remarkChars, trimStart_blanks_append r.gap.blank,
      trimStart_eq_self fun c hc => head_not_blank_of_opensComment hopens hc, hopens]

theorem parts_uncommented_constant {gap : Gap} (hgap : gap.chars.head? = some ' ')
    {literal : List Char} (hl : IsLiteral literal) (remark : Option Remark) :
    parts (uncommented ('L' :: 'D' :: 'C' :: (gap.chars ++ literal) ++ remarkChars remark)) =
      ["LDC", String.ofList literal] := by
  obtain ⟨bs, hbs⟩ := List.head?_eq_some_iff.mp hgap
  have hblank : ∀ c ∈ bs, isBlank c = true :=
    fun c hc => gap.blank c (by rw [hbs]; exact List.mem_cons_of_mem _ hc)
  have hline : 'L' :: 'D' :: 'C' :: (gap.chars ++ literal) ++ remarkChars remark =
      'L' :: 'D' :: 'C' :: ' ' :: (bs ++ (literal ++ remarkChars remark)) := by
    simp [hbs]
  rw [hline, uncommented_literal hblank hl (trimStart_remarkChars remark),
    parts_of_ldc (words_ldc _), afterFirstWord_ldc hblank hl.trimmed]

/-- If no space follows `LDC`, the operand is cut like any other text, be it a literal or not. -/
theorem parts_uncommented_constant_of_ne {gap : Gap} (hgap : gap.chars.head? ≠ some ' ')
    {cs : List Char} (hcs : opensComment cs = false) :
    parts (uncommented ("LDC".toList ++ (gap.chars ++ cs))) =
      ["LDC", String.ofList (trim (beforeComment cs))] := by
  have hstart : trimStart ("LDC".toList ++ (gap.chars ++ cs)) =
      "LDC".toList ++ (gap.chars ++ cs) := trimStart_eq_self fun c hc => by cases hc; decide
  have hopen : opensComment ("LDC".toList ++ (gap.chars ++ cs)) = false :=
    opensComment_cons_eq_false (by decide) (by decide) _
  have hquoted : quotedOperand? (trim ("LDC".toList ++ (gap.chars ++ cs))) = none := by
    rw [quotedOperand?_eq_none_iff, trim, opensLiteral_trimEnd_iff, hstart]
    rintro ⟨gap', -, es, hes⟩
    obtain ⟨c, ds, hchars⟩ := List.exists_cons_of_ne_nil gap.nonempty
    rw [hchars] at hes
    have hfourth : (literalStart gap' ++ es)[3]? = ("LDC".toList ++ (c :: ds ++ cs))[3]? := by
      rw [hes]
    have hc : ' ' = c := Option.some.inj hfourth
    exact hgap (by rw [hchars, ← hc]; rfl)
  have hleft : uncommented ("LDC".toList ++ (gap.chars ++ cs)) =
      trimEnd ("LDC".toList ++ (gap.chars ++ beforeComment cs)) := by
    rw [uncommented_of_unquoted (by rw [hstart, hopen]) hquoted, hstart,
      beforeComment_append (by decide), gap.beforeComment_append fun _ => hcs]
  have hblank := gap.startsBlank (beforeComment cs)
  have hwords : words (trimEnd ("LDC".toList ++ (gap.chars ++ beforeComment cs))) =
      "LDC" :: words (beforeComment cs) := by
    rw [words_trimEnd, words_toList_append isWord_ldc hblank, words_blanks_append gap.blank]
  rw [hleft, parts_of_ldc hwords, afterFirstWord_trimEnd isWord_ldc hblank,
    trim_blanks_append gap.blank]

/-- A literal that is cut like any other text stays if no marker in it is cut at and the comment
after it is. -/
theorem trim_beforeComment_eq_literal_iff {literal : List Char} (hl : IsLiteral literal)
    (remark : Option Remark) :
    trim (beforeComment (literal ++ remarkChars remark)) = literal ↔
      beforeComment literal = literal ∧ CutOff remark := by
  by_cases hkept : beforeComment literal = literal
  · have hcut : beforeComment (literal ++ remarkChars remark) =
        literal ++ beforeComment (remarkChars remark) := by
      refine beforeComment_append_of_eq_self hkept ?_ ?_
      · rw [hl.getLast?_eq]
        decide
      · intro hspace
        rw [hl.getLast?_eq] at hspace
        cases hspace
    rw [hcut, trim, trimStart_append_of_head hl.ne_nil hl.trimmed.1,
      trimEnd_append_of_last hl.ne_nil hl.trimmed.2, List.append_right_eq_self,
      trimEnd_eq_nil_iff, blank_beforeComment_iff]
    simp only [hkept, true_and]
  · rw [beforeComment_append_of_ne_self hkept]
    simp only [hkept, false_and, iff_false]
    intro htrim
    have hlength := length_trim_le (beforeComment literal)
    rw [htrim] at hlength
    exact hkept ((beforeComment_isPrefix literal).eq_of_length_le hlength)

/-! ## Rows and their parts -/

/-- A row has the parts that it is meant to have exactly when the spaces that are needed are
there. -/
theorem parts_uncommented_text_iff (row : Row) :
    parts (uncommented row.text) = row.content.parts ↔ row.KeepsSpaces := by
  obtain ⟨content, remark⟩ := row
  cases content with
  | words first other rest => exact parts_uncommented_words first other rest remark
  | constant gap literal hl =>
    by_cases hgap : gap.chars.head? = some ' '
    · have hparts := parts_uncommented_constant hgap hl remark
      simp only [Row.text, Content.chars, Content.parts, Row.KeepsSpaces, hparts, hgap, true_or]
    · have hopen : opensComment (literal ++ remarkChars remark) = false := by
        obtain ⟨cs, rfl⟩ := List.head?_eq_some_iff.mp hl.opens
        exact opensComment_cons_eq_false (by decide) (by decide) _
      have hline : 'L' :: 'D' :: 'C' :: (gap.chars ++ literal) ++ remarkChars remark =
          "LDC".toList ++ (gap.chars ++ (literal ++ remarkChars remark)) := by
        simp
      simp only [Row.text, Content.chars, Content.parts, Row.KeepsSpaces, hline,
        parts_uncommented_constant_of_ne hgap hopen, hgap, false_or, List.cons.injEq, and_true,
        true_and, String.ofList_inj]
      rw [trim_beforeComment_eq_literal_iff hl, beforeComment_eq_self_iff]

theorem keepsSpaces_spaced (row : Row) : row.spaced.KeepsSpaces := by
  have hcut : CutOff row.spaced.remark := by
    intro r hr
    obtain ⟨r', -, rfl⟩ := Option.map_eq_some_iff.mp hr
    rfl
  obtain ⟨content, remark⟩ := row
  cases content with
  | words first other rest => exact hcut
  | constant gap literal hl => exact .inl rfl

theorem parts_spaced (row : Row) : row.spaced.content.parts = row.content.parts := by
  obtain ⟨content, remark⟩ := row
  cases content with
  | words first other rest => simp [Row.spaced, Content.spaced, Content.parts]
  | constant gap literal hl => rfl

theorem sameParts_spaced_iff (row : Row) :
    SameParts row.text row.spaced.text ↔ row.KeepsSpaces := by
  have hspaced := (parts_uncommented_text_iff row.spaced).mpr (keepsSpaces_spaced row)
  rw [SameParts, hspaced, parts_spaced, parts_uncommented_text_iff]

/-- A row keeps its parts under other blanks exactly when the spaces that are needed stay. If they
do in every row, the text is read as with single spaces: to the same classes, or to the same error
up to the line that it quotes. -/
theorem respaced_text_read_alike (rows : List Row) :
    (∀ row ∈ rows, SameParts row.text row.spaced.text ↔ row.KeepsSpaces) ∧
      ((∀ row ∈ rows, row.KeepsSpaces) → ∀ text text' : String,
        lines text.toList = rows.map (fun row => row.spaced.text) →
        lines text'.toList = rows.map (fun row => row.text) →
        (read text').mapError Error.unquoted = (read text).mapError Error.unquoted) := by
  refine ⟨fun row _ => sameParts_spaced_iff row, ?_⟩
  intro hkeeps text text' htext htext'
  refine read_unquoted ?_
  rw [htext, htext', List.forall₂_map_left_iff, List.forall₂_map_right_iff, List.forall₂_same]
  exact fun row hrow => (sameParts_spaced_iff row).mpr (hkeeps row hrow)

/-- A listing whose one instruction loads a literal that holds a marker after a space. -/
def literalRows (gap : Gap) (remark : Option Remark) : List Row :=
  [{ content := .words ⟨".class", by decide⟩ (by decide) [(.space, ⟨"A", by decide⟩)] },
    { content := .words ⟨".method", by decide⟩ (by decide)
        [(.space, ⟨"m", by decide⟩),
          (.of ['\t'] (by decide) (by decide), ⟨"()V", by decide⟩)] },
    { content := .constant gap "\"a # b\"".toList (by decide), remark },
    { content := .words ⟨".end", by decide⟩ (by decide) [] }]

/-- After the first space any blanks may follow, and before the last one too. -/
theorem respaced_literal_read_alike :
    read ".class A\n.method m ()V\nLDC \"a # b\" // c\n.end\n" =
        .ok [⟨"A", false, [⟨"m", "()V", [], [], [.constant "\"a # b\""]⟩]⟩] ∧
      (read ".class A\n.method m\t()V\r\nLDC \t\"a # b\"\t // c\n.end").mapError
          Error.unquoted =
        .ok [⟨"A", false, [⟨"m", "()V", [], [], [.constant "\"a # b\""]⟩]⟩] := by
  have hread : read ".class A\n.method m ()V\nLDC \"a # b\" // c\n.end\n" =
      .ok [⟨"A", false, [⟨"m", "()V", [], [], [.constant "\"a # b\""]⟩]⟩] := by rfl
  refine ⟨hread, ?_⟩
  have halike := (respaced_text_read_alike (literalRows (.of [' ', '\t'] (by decide) (by decide))
    (some ⟨.of ['\t', ' '] (by decide) (by decide), "// c".toList, by decide⟩))).2
  refine (halike ?_ _ _ ?_ ?_).trans (congrArg _ hread)
  · intro row hrow
    simp only [literalRows, List.mem_cons, List.not_mem_nil, or_false] at hrow
    rcases hrow with rfl | rfl | rfl | rfl
    · rintro r ⟨⟩
    · rintro r ⟨⟩
    · exact .inl rfl
    · rintro r ⟨⟩
  · rfl
  · rfl

/-- With a tab for the space after `LDC` the literal is cut at its own marker. -/
theorem not_respaced_literal_after_tab :
    ¬ ∀ (rows : List Row) (text text' : String),
      lines text.toList = rows.map (fun row => row.spaced.text) →
      lines text'.toList = rows.map (fun row => row.text) →
      (read text').mapError Error.unquoted = (read text).mapError Error.unquoted := by
  intro h
  have hspace : read ".class A\n.method m ()V\nLDC \"a # b\"\n.end\n" =
      .ok [⟨"A", false, [⟨"m", "()V", [], [], [.constant "\"a # b\""]⟩]⟩] := by rfl
  have htab : read ".class A\n.method m\t()V\nLDC\t\"a # b\"\n.end\n" =
      .ok [⟨"A", false, [⟨"m", "()V", [], [], [.constant "\"a"]⟩]⟩] := by rfl
  have halike := h (literalRows (.of ['\t'] (by decide) (by decide)) none)
    ".class A\n.method m ()V\nLDC \"a # b\"\n.end\n"
    ".class A\n.method m\t()V\nLDC\t\"a # b\"\n.end\n" rfl rfl
  rw [hspace, htab] at halike
  revert halike
  decide

end ComposeGuards.Listing
