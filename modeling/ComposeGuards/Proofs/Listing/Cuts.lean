import ComposeGuards.Proofs.Listing.SpacedTexts

/-! # Where a comment is cut off

A line without a literal is cut at the first space that a marker follows. Blanks at the end of the
line change nothing, a comment after a space changes nothing, and a part that neither holds such a
space nor runs into the marker of the next part is kept whole.
-/
namespace ComposeGuards.Listing
open ComposeGuards.Text

/-! ## What opens a comment -/

theorem opensComment_cons_blank {c : Char} (hc : isBlank c = true) (cs : List Char) :
    opensComment (c :: cs) = false := by
  refine opensComment_cons_eq_false ?_ ?_ cs
  · rintro rfl
    cases hc
  · rintro rfl
    cases hc

/-- Two slashes may come one from each part; apart from that the first part decides. -/
theorem opensComment_append {cs : List Char} (hne : cs ≠ []) (hslash : cs ≠ ['/'])
    (ds : List Char) : opensComment (cs ++ ds) = opensComment cs := by
  match cs with
  | [] => exact absurd rfl hne
  | [c] =>
    have hc : c ≠ '/' := fun h => hslash (by rw [h])
    by_cases hhash : c = '#'
    · subst hhash
      rfl
    · rw [List.singleton_append, opensComment_cons_eq_false hhash hc,
        opensComment_cons_eq_false hhash hc]
  | c :: d :: cs =>
    rw [Bool.eq_iff_iff, opensComment_iff, opensComment_iff]
    simp [List.cons_prefix_cons]

theorem opensComment_append_of_blank {ds : List Char}
    (hd : ∀ c, ds.head? = some c → isBlank c = true) (cs : List Char) :
    opensComment (cs ++ ds) = opensComment cs := by
  cases ds with
  | nil => rw [List.append_nil]
  | cons d ds =>
    have hblank : isBlank d = true := hd d rfl
    by_cases hnil : cs = []
    · rw [hnil, List.nil_append, opensComment_cons_blank hblank]
      rfl
    · by_cases hslash : cs = ['/']
      · have hd : d ≠ '/' := by rintro rfl; cases hblank
        rw [hslash, Bool.eq_iff_iff, opensComment_iff, opensComment_iff]
        simp [List.cons_prefix_cons, hd.symm]
      · exact opensComment_append hnil hslash _

theorem opensComment_trimEnd (cs : List Char) : opensComment (trimEnd cs) = opensComment cs := by
  obtain ⟨bs, hcs, hbs⟩ := exists_trimEnd_append cs
  conv_rhs => rw [hcs, opensComment_append_of_blank fun c hc => hbs c (List.mem_of_mem_head? hc)]

theorem exists_marker_of_opensComment {cs : List Char} (h : opensComment cs = true) :
    ∃ c ds, cs = c :: ds ∧ (c = '#' ∨ c = '/') := by
  rcases opensComment_iff.mp h with ⟨ds, rfl⟩ | ⟨ds, rfl⟩
  · exact ⟨'#', ds, rfl, .inl rfl⟩
  · exact ⟨'/', '/' :: ds, rfl, .inr rfl⟩

theorem head_not_blank_of_opensComment {cs : List Char} (h : opensComment cs = true) {c : Char}
    (hc : cs.head? = some c) : isBlank c = false := by
  obtain ⟨d, ds, rfl, hd⟩ := exists_marker_of_opensComment h
  cases hc
  rcases hd with rfl | rfl <;> decide

/-! ## Cutting -/

theorem beforeComment_eq_self_of_blank {bs : List Char} (hb : ∀ c ∈ bs, isBlank c = true) :
    beforeComment bs = bs := by
  have hno : ∀ c, isBlank c = false → c ∉ bs := by
    intro c hc hmem
    rw [hb c hmem] at hc
    cases hc
  rw [beforeComment_eq_self_iff]
  constructor
  · intro h
    exact hno '#' (by decide) (h.subset (by simp))
  · intro h
    exact hno '/' (by decide) (h.subset (by simp))

/-- A comment after a space is cut off, whatever it holds. -/
theorem beforeComment_append_comment {ds : List Char} (h : opensComment ds = true)
    (cs : List Char) : beforeComment (cs ++ ' ' :: ds) = beforeComment cs := by
  induction cs with
  | nil => simp [beforeComment, h]
  | cons c cs ih =>
    have hsame : opensComment (cs ++ ' ' :: ds) = opensComment cs :=
      opensComment_append_of_blank (fun d hd => by cases hd; exact isBlank_space) cs
    rw [List.cons_append, beforeComment, beforeComment, hsame, ih]

theorem trimEnd_beforeComment_append_of_blank {bs : List Char} (hb : ∀ c ∈ bs, isBlank c = true)
    (cs : List Char) : trimEnd (beforeComment (cs ++ bs)) = trimEnd (beforeComment cs) := by
  induction cs with
  | nil =>
    rw [List.nil_append, beforeComment_eq_self_of_blank hb]
    exact trimEnd_append_of_blank hb []
  | cons c cs ih =>
    have hsame : opensComment (cs ++ bs) = opensComment cs :=
      opensComment_append_of_blank (fun d hd => hb d (List.mem_of_mem_head? hd)) cs
    rw [List.cons_append, beforeComment, beforeComment, hsame]
    split
    · rfl
    · rw [trimEnd, trimEnd, ih]

theorem trimEnd_beforeComment_trimEnd (cs : List Char) :
    trimEnd (beforeComment (trimEnd cs)) = trimEnd (beforeComment cs) := by
  obtain ⟨bs, hcs, hbs⟩ := exists_trimEnd_append cs
  conv_rhs => rw [hcs, trimEnd_beforeComment_append_of_blank hbs]

/-- A part without a marker after a space is kept whole, if no marker of the next part follows a
space at its end. -/
theorem beforeComment_append_of_eq_self {cs ds : List Char} (hcs : beforeComment cs = cs)
    (hslash : cs.getLast? ≠ some '/')
    (hspace : cs.getLast? = some ' ' → opensComment ds = false) :
    beforeComment (cs ++ ds) = cs ++ beforeComment ds := by
  induction cs with
  | nil => rfl
  | cons c cs ih =>
    by_cases hnil : cs = []
    · subst hnil
      have hcut : ¬ (decide (c = ' ') && opensComment ds) = true := by
        simp only [Bool.and_eq_true, decide_eq_true_eq, not_and, Bool.not_eq_true]
        rintro rfl
        exact hspace rfl
      rw [List.singleton_append, beforeComment, if_neg hcut]
      rfl
    · have hlast : (c :: cs).getLast? = cs.getLast? := List.getLast?_cons_of_ne_nil hnil
      have hsame : opensComment (cs ++ ds) = opensComment cs := by
        refine opensComment_append hnil ?_ ds
        rintro rfl
        exact hslash rfl
      have htail : beforeComment cs = cs :=
        beforeComment_eq_self_of_isInfix (List.suffix_cons c cs).isInfix hcs
      rw [hlast] at hslash hspace
      rw [beforeComment] at hcs
      split at hcs
      · cases hcs
      · next hcut =>
        rw [List.cons_append, beforeComment, hsame, if_neg hcut, ih htail hslash hspace]
        rfl

/-- A part that is cut is cut there, whatever follows it. -/
theorem beforeComment_append_of_ne_self {cs : List Char} (hcs : beforeComment cs ≠ cs)
    (ds : List Char) : beforeComment (cs ++ ds) = beforeComment cs := by
  induction cs with
  | nil => exact absurd rfl hcs
  | cons c cs ih =>
    rw [beforeComment] at hcs
    rw [List.cons_append, beforeComment, beforeComment]
    by_cases hcut : c = ' ' ∧ opensComment cs = true
    · have hopen := opensComment_of_isPrefix (List.prefix_append cs ds) hcut.2
      simp [hcut.1, hcut.2, hopen]
    · have hkept : ¬ (decide (c = ' ') && opensComment cs) = true := by simpa using hcut
      rw [if_neg hkept, ne_eq, List.cons.injEq, eq_self, true_and] at hcs
      have hsame : opensComment (cs ++ ds) = opensComment cs := by
        refine opensComment_append ?_ ?_ ds
        · rintro rfl
          exact hcs rfl
        · rintro rfl
          exact hcs rfl
      rw [hsame, if_neg hkept, if_neg hkept, ih hcs]

/-! ## Lines without a literal -/

theorem uncommented_of_blank {raw : List Char} (h : trimStart raw = []) : uncommented raw = [] := by
  have htrim : trim raw = [] := by rw [trim, h]; rfl
  rw [uncommented, htrim]
  rfl

theorem uncommented_of_comment {raw : List Char} (h : opensComment (trimStart raw) = true) :
    uncommented raw = [] := by
  have htrim : opensComment (trim raw) = true := by rw [trim, opensComment_trimEnd, h]
  simp only [uncommented, htrim, ↓reduceIte]

theorem uncommented_of_unquoted {raw : List Char} (hopen : opensComment (trimStart raw) = false)
    (hquoted : quotedOperand? (trim raw) = none) :
    uncommented raw = trimEnd (beforeComment (trimStart raw)) := by
  have htrim : opensComment (trim raw) = false := by rw [trim, opensComment_trimEnd, hopen]
  simp only [uncommented, htrim, hquoted, Bool.false_eq_true, ↓reduceIte]
  rw [trim, trimEnd_beforeComment_trimEnd]

/-! ## Lines with a literal -/

/-- The start of a line with a literal, up to the opening quote. -/
def literalStart (gap : List Char) : List Char :=
  ['L', 'D', 'C', ' '] ++ (gap ++ ['"'])

/-- A line `LDC`, a space and an operand that starts with a quote. -/
def OpensLiteral (line : List Char) : Prop :=
  ∃ gap, (∀ c ∈ gap, isBlank c = true) ∧ literalStart gap <+: line

theorem getLast?_literalStart (gap : List Char) : (literalStart gap).getLast? = some '"' := by
  rw [literalStart, ← List.append_assoc, List.getLast?_concat]

theorem marker_not_mem_literalStart {gap : List Char} (hgap : ∀ c ∈ gap, isBlank c = true)
    {c : Char} (hc : c = '#' ∨ c = '/') : c ∉ literalStart gap := by
  have hnot : c ∉ gap := by
    intro hmem
    have hblank := hgap c hmem
    rcases hc with rfl | rfl <;> cases hblank
  rcases hc with rfl | rfl <;> simp [literalStart, hnot]

theorem OpensLiteral.of_isPrefix {line rest : List Char} (h : OpensLiteral rest)
    (hrest : rest <+: line) : OpensLiteral line := by
  obtain ⟨gap, hgap, hstart⟩ := h
  exact ⟨gap, hgap, hstart.trans hrest⟩

theorem opensLiteral_of_quotedOperand? {line gap operand : List Char}
    (h : quotedOperand? line = some (gap, operand)) : OpensLiteral line := by
  obtain ⟨hgap, hhead⟩ := quotedOperand?_spec h
  obtain ⟨rest, rfl⟩ := List.head?_eq_some_iff.mp hhead
  refine ⟨gap, hgap, rest, ?_⟩
  rw [quotedOperand?_eq_some h]
  simp [literalStart]

theorem quotedOperand?_eq_none_iff {line : List Char} :
    quotedOperand? line = none ↔ ¬ OpensLiteral line := by
  constructor
  · rintro h ⟨gap, hgap, rest, rfl⟩
    refine quotedOperand?_ne_none hgap rest ?_
    simpa [literalStart] using h
  · intro h
    cases hq : quotedOperand? line with
    | none => rfl
    | some p => exact absurd (opensLiteral_of_quotedOperand? hq) h

theorem opensLiteral_trimEnd_iff {cs : List Char} :
    OpensLiteral (trimEnd cs) ↔ OpensLiteral cs := by
  constructor
  · intro h
    exact h.of_isPrefix (trimEnd_isPrefix cs)
  · rintro ⟨gap, hgap, hline⟩
    refine ⟨gap, hgap, isPrefix_trimEnd hline ?_⟩
    intro c hc
    rw [getLast?_literalStart] at hc
    cases hc
    decide

/-- The start of a line with a literal holds no marker and ends in no space, so none starts across a
comment. -/
theorem opensLiteral_of_append_comment {cs ds : List Char} (hd : opensComment ds = true)
    (h : OpensLiteral (cs ++ ' ' :: ds)) : OpensLiteral cs := by
  obtain ⟨gap, hgap, hline⟩ := h
  rcases List.prefix_or_prefix_of_prefix hline (List.prefix_append cs (' ' :: ds)) with h | h
  · exact ⟨gap, hgap, h⟩
  · obtain ⟨es, hes⟩ := h
    rw [← hes, List.prefix_append_right_inj] at hline
    obtain ⟨c, rest, rfl, hc⟩ := exists_marker_of_opensComment hd
    match es, hline with
    | [], _ => exact ⟨gap, hgap, by simp [← hes]⟩
    | [e], hline =>
      have hlast := getLast?_literalStart gap
      rw [← hes, List.getLast?_concat, (List.cons_prefix_cons.mp hline).1] at hlast
      cases hlast
    | e :: d :: es, hline =>
      have hmem : d ∈ literalStart gap := by rw [← hes]; simp
      obtain ⟨rfl, -⟩ := List.cons_prefix_cons.mp (List.cons_prefix_cons.mp hline).2
      exact absurd hmem (marker_not_mem_literalStart hgap hc)

theorem quotedOperand?_append {gap operand : List Char} (hgap : ∀ c ∈ gap, isBlank c = true)
    (hhead : operand.head? = some '"') :
    quotedOperand? ('L' :: 'D' :: 'C' :: ' ' :: (gap ++ operand)) = some (gap, operand) := by
  obtain ⟨cs, rfl⟩ := List.head?_eq_some_iff.mp hhead
  have hquote : isBlank '"' = false := by decide
  have hstart : trimStart (gap ++ '"' :: cs) = '"' :: cs := by
    rw [trimStart_blanks_append hgap]
    exact trimStart_eq_self fun c hc => by cases hc; exact hquote
  have htake : (gap ++ '"' :: cs).takeWhile isBlank = gap := by
    rw [List.takeWhile_append_of_pos hgap, List.takeWhile_cons_of_neg (by simp [hquote]),
      List.append_nil]
  simp only [quotedOperand?, hstart, htake]

/-- A quoted text with its closing quote at its end. -/
structure IsLiteral (cs : List Char) : Prop where
  opens : cs.head? = some '"'
  closes : closingQuote? cs = some (cs.length - 1)

instance (cs : List Char) : Decidable (IsLiteral cs) :=
  decidable_of_iff (cs.head? = some '"' ∧ closingQuote? cs = some (cs.length - 1))
    ⟨fun h => ⟨h.1, h.2⟩, fun h => ⟨h.1, h.2⟩⟩

theorem IsLiteral.ne_nil {cs : List Char} (h : IsLiteral cs) : cs ≠ [] := by
  rintro rfl
  cases h.opens

theorem IsLiteral.getLast?_eq {cs : List Char} (h : IsLiteral cs) : cs.getLast? = some '"' := by
  have hlast := getLast?_take_closingQuote? h.closes
  rwa [Nat.sub_add_cancel (List.length_pos_of_ne_nil h.ne_nil), List.take_length] at hlast

theorem IsLiteral.trimmed {cs : List Char} (h : IsLiteral cs) : Trimmed cs := by
  constructor
  · intro c hc
    rw [h.opens] at hc
    cases hc
    decide
  · intro c hc
    rw [h.getLast?_eq] at hc
    cases hc
    decide

theorem IsLiteral.closingQuote?_append {cs : List Char} (h : IsLiteral cs) (ds : List Char) :
    closingQuote? (cs ++ ds) = some (cs.length - 1) :=
  closingQuote?_of_isPrefix h.closes ((List.take_prefix _ cs).trans (List.prefix_append cs ds))

/-- After `LDC` and a space a literal stays whole, and blanks and a comment after it go. -/
theorem uncommented_literal {gap literal rest : List Char} (hgap : ∀ c ∈ gap, isBlank c = true)
    (hl : IsLiteral literal) (hrest : trimStart rest = [] ∨ opensComment (trimStart rest) = true) :
    uncommented ('L' :: 'D' :: 'C' :: ' ' :: (gap ++ (literal ++ rest))) =
      'L' :: 'D' :: 'C' :: ' ' :: (gap ++ literal) := by
  have hne : 'L' :: 'D' :: 'C' :: ' ' :: (gap ++ literal) ≠ [] := by simp
  have hlast : ∀ c, ('L' :: 'D' :: 'C' :: ' ' :: (gap ++ literal)).getLast? = some c →
      isBlank c = false := by
    intro c hc
    rw [← List.cons_append, ← List.cons_append, ← List.cons_append, ← List.cons_append,
      List.getLast?_append_of_ne_nil _ hl.ne_nil] at hc
    exact hl.trimmed.2 c hc
  have htrim : trim ('L' :: 'D' :: 'C' :: ' ' :: (gap ++ (literal ++ rest))) =
      'L' :: 'D' :: 'C' :: ' ' :: (gap ++ (literal ++ trimEnd rest)) := by
    rw [trim, trimStart_eq_self fun c hc => by cases hc; decide]
    simpa using trimEnd_append_of_last hne hlast rest
  have hopen : opensComment ('L' :: 'D' :: 'C' :: ' ' :: (gap ++ (literal ++ trimEnd rest))) =
      false := opensComment_cons_eq_false (by decide) (by decide) _
  have hquoted : quotedOperand? ('L' :: 'D' :: 'C' :: ' ' :: (gap ++ (literal ++ trimEnd rest))) =
      some (gap, literal ++ trimEnd rest) := by
    refine quotedOperand?_append hgap ?_
    rw [List.head?_append_of_ne_nil _ hl.ne_nil, hl.opens]
  have hlength : literal.length - 1 + 1 = literal.length :=
    Nat.sub_add_cancel (List.length_pos_of_ne_nil hl.ne_nil)
  have hend : ((trim rest).isEmpty || opensComment (trim rest)) = true := by
    rw [trim, opensComment_trimEnd]
    rcases hrest with hnil | hcomment
    · rw [hnil]
      rfl
    · rw [hcomment, Bool.or_true]
  simp only [uncommented_charwise, htrim, hopen, hquoted, hl.closingQuote?_append, hlength,
    List.drop_left, List.take_left, trimStart_trimEnd, hend, Bool.false_eq_true, ↓reduceIte]
  rfl

end ComposeGuards.Listing
