import ComposeGuards.Proofs.Listing.Remarks

/-! # Stripping removes a comment and nothing else

What stripping takes off a line is blanks and at most one comment, and what it leaves has no comment
to take off. So a line that has been stripped once is stripped in the same way again: a shorter line
opens no comment if the line did not, and it opens a literal only if the line did.
-/
namespace ComposeGuards.Listing
open ComposeGuards.Text

/-- A marker at the start of the line or after a space. -/
def HoldsMarker (line : List Char) : Prop :=
  opensComment line = true ∨ [' ', '#'] <:+: line ∨ [' ', '/', '/'] <:+: line

/-- The text after the cut is a comment, if there is a cut. -/
theorem beforeComment_eq_self_or (cs : List Char) :
    beforeComment cs = cs ∨
      ∃ comment, opensComment comment = true ∧ cs = beforeComment cs ++ ' ' :: comment := by
  induction cs with
  | nil => exact .inl rfl
  | cons c cs ih =>
    by_cases hcut : (decide (c = ' ') && opensComment cs) = true
    · rw [beforeComment, if_pos hcut]
      simp only [Bool.and_eq_true, decide_eq_true_eq] at hcut
      obtain ⟨rfl, hopen⟩ := hcut
      exact .inr ⟨cs, hopen, rfl⟩
    · rw [beforeComment, if_neg hcut]
      rcases ih with hsame | ⟨comment, hopen, hcs⟩
      · exact .inl (by rw [hsame])
      · refine .inr ⟨comment, hopen, ?_⟩
        conv_lhs => rw [hcs]
        rfl

section Strips
variable {line rest : List Char}

theorem opensComment_of_quotedOperand? {p : List Char × List Char}
    (h : quotedOperand? line = some p) : opensComment line = false := by
  rw [quotedOperand?_eq_some h]
  exact opensComment_cons_eq_false (by decide) (by decide) _

/-- The line alone determines what is left of it. -/
theorem Strips.uncommented_eq (h : Strips line rest) (hline : Trimmed line) :
    uncommented line = rest := by
  rw [uncommented_charwise, trim_eq_self hline]
  cases h with
  | comment opens => simp only [opens, ↓reduceIte]
  | plain opens unquoted => simp only [opens, unquoted, Bool.false_eq_true, ↓reduceIte]
  | unclosed quoted close =>
    simp only [opensComment_of_quotedOperand? quoted, quoted, close, Bool.false_eq_true,
      ↓reduceIte]
  | @closed gap operand i quoted close comment =>
    have hend : ((trimStart (operand.drop (i + 1))).isEmpty ||
        opensComment (trimStart (operand.drop (i + 1)))) = true := by
      rw [Bool.or_eq_true, List.isEmpty_iff]
      exact comment
    simp only [opensComment_of_quotedOperand? quoted, quoted, close, hend, Bool.false_eq_true,
      ↓reduceIte]
  | kept quoted close text opens =>
    simp only [opensComment_of_quotedOperand? quoted, quoted, close, opens,
      List.isEmpty_eq_false_iff.mpr text, Bool.or_self, Bool.false_eq_true, ↓reduceIte]

/-- What is taken off is blanks, and perhaps a comment after them. -/
theorem Strips.exists_removed (h : Strips line rest) :
    ∃ removed, line = rest ++ removed ∧
      (trimStart removed = [] ∨ opensComment (trimStart removed) = true) := by
  cases h with
  | comment opens =>
    refine ⟨line, rfl, .inr ?_⟩
    rw [trimStart_eq_self fun c hc => head_not_blank_of_opensComment opens hc]
    exact opens
  | plain opens unquoted =>
    obtain ⟨bs, hcut, hbs⟩ := exists_trimEnd_append (beforeComment line)
    rcases beforeComment_eq_self_or line with hsame | ⟨comment, hopen, hline⟩
    · exact ⟨bs, by rw [← hcut, hsame], .inl (trimStart_eq_nil_iff.mpr hbs)⟩
    · refine ⟨bs ++ ' ' :: comment, by rw [← List.append_assoc, ← hcut]; exact hline, .inr ?_⟩
      rw [trimStart_blanks_append hbs, trimStart_space_cons hopen]
      exact hopen
  | unclosed => exact ⟨[], by simp, .inl rfl⟩
  | @closed gap operand i quoted close comment =>
    refine ⟨operand.drop (i + 1), ?_, comment⟩
    rw [quotedOperand?_eq_some quoted]
    simp
  | kept => exact ⟨[], by simp, .inl rfl⟩

/-- What is left is stripped by the same rule as the line, and nothing more is taken off. -/
theorem Strips.again (h : Strips line rest) (hrest : Trimmed rest) : Strips rest rest := by
  have hprefix := h.isPrefix
  cases h with
  | comment => exact .plain rfl rfl
  | plain opens unquoted =>
    have hopens := opensComment_eq_false_of_isPrefix hprefix opens
    have hunquoted : quotedOperand? (trimEnd (beforeComment line)) = none := by
      rw [quotedOperand?_eq_none_iff] at unquoted ⊢
      exact fun hliteral => unquoted (hliteral.of_isPrefix hprefix)
    have hagain := Strips.plain hopens hunquoted
    rwa [beforeComment_trimEnd_beforeComment, trimEnd_eq_self hrest.2] at hagain
  | unclosed quoted close => exact .unclosed quoted close
  | @closed gap operand i quoted close comment =>
    obtain ⟨hgap, hhead⟩ := quotedOperand?_spec quoted
    have hquoted := quotedOperand?_append hgap (head?_take_succ hhead i)
    have hnothing : trimStart ((operand.take (i + 1)).drop (i + 1)) = [] := by simp [trimStart]
    have hagain := Strips.closed hquoted (closingQuote?_take close) (.inl hnothing)
    rwa [List.take_take, Nat.min_self] at hagain
  | kept quoted close text opens => exact .kept quoted close text opens

/-- Only a line that opens a literal keeps a marker. -/
theorem Strips.opensLiteral_or (h : Strips line rest) :
    OpensLiteral rest ∨ ¬ HoldsMarker rest := by
  have hprefix := h.isPrefix
  cases h with
  | comment => exact .inr (by simp [HoldsMarker, opensComment])
  | plain opens unquoted =>
    have hopens := opensComment_eq_false_of_isPrefix hprefix opens
    have hcut := beforeComment_eq_self_iff.mp (beforeComment_trimEnd_beforeComment line)
    right
    rintro (hopen | hhash | hslash)
    · rw [hopens] at hopen
      cases hopen
    · exact hcut.1 hhash
    · exact hcut.2 hslash
  | unclosed quoted close => exact .inl (opensLiteral_of_quotedOperand? quoted)
  | @closed gap operand i quoted close comment =>
    obtain ⟨hgap, hhead⟩ := quotedOperand?_spec quoted
    exact .inl (opensLiteral_of_quotedOperand? (quotedOperand?_append hgap (head?_take_succ hhead i)))
  | kept quoted close text opens => exact .inl (opensLiteral_of_quotedOperand? quoted)

end Strips

/-- What is left of a line is a trimmed beginning of it, after which there was nothing but blanks and
perhaps a comment; no marker is left but in a line with a literal, and stripping once more changes
nothing. -/
theorem uncommented_removes_only_comment (raw : List Char) :
    (∃ removed, trim raw = uncommented raw ++ removed ∧
        (trimStart removed = [] ∨ ['#'] <+: trimStart removed ∨
          ['/', '/'] <+: trimStart removed)) ∧
      Trimmed (uncommented raw) ∧
      (OpensLiteral (uncommented raw) ∨ ¬ HoldsMarker (uncommented raw)) ∧
      uncommented (uncommented raw) = uncommented raw := by
  have hstrips := strips_uncommented raw
  have htrimmed := trimmed_uncommented raw
  obtain ⟨removed, hline, hremoved⟩ := hstrips.exists_removed
  rw [opensComment_iff] at hremoved
  exact ⟨⟨removed, hline, hremoved⟩, htrimmed, hstrips.opensLiteral_or,
    (hstrips.again htrimmed).uncommented_eq htrimmed⟩

end ComposeGuards.Listing
