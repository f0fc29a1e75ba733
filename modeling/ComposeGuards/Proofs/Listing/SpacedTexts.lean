import ComposeGuards.Proofs.Listing.Stability

/-! # Texts without blanks but spaces

A comment starts after a space and after no other blank. Where a text has no other blank, every
marker that starts a word starts a comment, so no text of the tree that is read is taken for a
comment later, and what is read is printed and read again as it is.
-/
namespace ComposeGuards.Listing
open ComposeGuards.Text

def OnlySpaces (cs : List Char) : Prop :=
  ∀ c ∈ cs, isBlank c = true → c = ' '

theorem OnlySpaces.of_subset {cs ds : List Char} (h : OnlySpaces ds) (hsub : cs ⊆ ds) :
    OnlySpaces cs := fun c hc => h c (hsub hc)

/-! ## Where nothing is left to cut -/

theorem opensComment_of_isPrefix {cs ds : List Char} (h : cs <+: ds)
    (hopen : opensComment cs = true) : opensComment ds = true := by
  rw [opensComment_iff] at hopen ⊢
  rcases hopen with hopen | hopen
  · exact .inl (hopen.trans h)
  · exact .inr (hopen.trans h)

theorem opensComment_eq_false_of_isPrefix {cs ds : List Char} (h : cs <+: ds)
    (hclosed : opensComment ds = false) : opensComment cs = false := by
  rw [← Bool.not_eq_true] at hclosed ⊢
  exact fun hopen => hclosed (opensComment_of_isPrefix h hopen)

theorem beforeComment_beforeComment (cs : List Char) :
    beforeComment (beforeComment cs) = beforeComment cs := by
  induction cs with
  | nil => rfl
  | cons c cs ih =>
    by_cases hcut : (decide (c = ' ') && opensComment cs) = true
    · rw [beforeComment, if_pos hcut]
      rfl
    · have hcut' : ¬ (decide (c = ' ') && opensComment (beforeComment cs)) = true := by
        simp only [Bool.and_eq_true, not_and] at hcut ⊢
        exact fun hc hopen => hcut hc (opensComment_of_isPrefix (beforeComment_isPrefix cs) hopen)
      rw [beforeComment, if_neg hcut, beforeComment, if_neg hcut', ih]

theorem beforeComment_eq_self_of_isInfix {cs ds : List Char} (h : cs <:+: ds)
    (hds : beforeComment ds = ds) : beforeComment cs = cs := by
  rw [beforeComment_eq_self_iff] at hds ⊢
  exact ⟨fun hhash => hds.1 (hhash.trans h), fun hslash => hds.2 (hslash.trans h)⟩

/-- Nothing of what is kept can be cut off any more. -/
theorem beforeComment_trimEnd_beforeComment (cs : List Char) :
    beforeComment (trimEnd (beforeComment cs)) = trimEnd (beforeComment cs) :=
  beforeComment_eq_self_of_isInfix (trimEnd_isPrefix _).isInfix (beforeComment_beforeComment cs)

theorem opensComment_after_space {xs ds : List Char}
    (h : beforeComment (xs ++ ' ' :: ds) = xs ++ ' ' :: ds) : opensComment ds = false := by
  have htail : beforeComment (' ' :: ds) = ' ' :: ds :=
    beforeComment_eq_self_of_isInfix (List.suffix_append xs _).isInfix h
  rw [beforeComment] at htail
  split at htail
  · cases htail
  · next hcut => simpa using hcut

/-- What stands after blanks comes right after a space. -/
theorem opensComment_after_blanks {xs ds : List Char} (hs : OnlySpaces xs) (hne : xs ≠ [])
    (hlast : ∀ c, xs.getLast? = some c → isBlank c = true)
    (h : beforeComment (xs ++ ds) = xs ++ ds) : opensComment ds = false := by
  obtain ⟨zs, c, rfl⟩ := List.eq_nil_or_concat xs |>.resolve_left hne
  have hc : c = ' ' := hs c (by simp) (hlast c (by simp))
  rw [hc, List.concat_eq_append, List.append_assoc, List.singleton_append] at h
  exact opensComment_after_space h

theorem opensComment_of_mem_words {cs : List Char} (hs : OnlySpaces cs)
    (hopen : opensComment cs = false) (hcs : beforeComment cs = cs) :
    ∀ w ∈ words cs, opensComment w.toList = false := by
  intro w hw
  obtain ⟨-, xs, ys, rfl, hxs⟩ := exists_append_of_mem_words hw
  refine opensComment_eq_false_of_isPrefix (List.prefix_append w.toList ys) ?_
  by_cases hne : xs = []
  · subst hne
    exact hopen
  · exact opensComment_after_blanks (hs.of_subset (List.subset_append_left _ _)) hne hxs hcs

/-! ## Literals -/

theorem quotedOperand?_spec {line gap operand : List Char}
    (h : quotedOperand? line = some (gap, operand)) :
    (∀ c ∈ gap, isBlank c = true) ∧ operand.head? = some '"' := by
  unfold quotedOperand? at h
  split at h
  · split at h
    · cases h
      exact ⟨fun c hc => List.mem_takeWhile_imp hc, rfl⟩
    · cases h
  · cases h

theorem quotedOperand?_ne_none {bs : List Char} (hb : ∀ c ∈ bs, isBlank c = true)
    (cs : List Char) : quotedOperand? ('L' :: 'D' :: 'C' :: ' ' :: (bs ++ '"' :: cs)) ≠ none := by
  have hstart : trimStart (bs ++ '"' :: cs) = '"' :: cs := by
    rw [trimStart_blanks_append hb]
    exact trimStart_eq_self fun c hc => by cases hc; decide
  simp [quotedOperand?, hstart]

theorem head?_take_succ {cs : List Char} {c : Char} (h : cs.head? = some c) (n : Nat) :
    (cs.take (n + 1)).head? = some c := by
  rw [List.head?_take, if_neg (Nat.succ_ne_zero n), h]

/-- Nothing after the closing quote matters for where it is. -/
theorem unescapedQuote?_of_isPrefix {cs ds : List Char} {i : Nat}
    (h : unescapedQuote? cs = some i) (hds : cs.take (i + 1) <+: ds) :
    unescapedQuote? ds = some i := by
  fun_induction unescapedQuote? cs generalizing i ds with
  | case1 => cases h
  | case2 => cases h
  | case3 c cs ih =>
    obtain ⟨j, hj, rfl⟩ := Option.map_eq_some_iff.mp h
    obtain ⟨es, rfl⟩ := hds
    simp [unescapedQuote?, ih hj (List.prefix_append _ es)]
  | case4 cs =>
    cases h
    obtain ⟨es, rfl⟩ := hds
    rfl
  | case5 c cs hlone hpair hquote ih =>
    obtain ⟨j, hj, rfl⟩ := Option.map_eq_some_iff.mp h
    obtain ⟨es, rfl⟩ := hds
    have hslash := ne_backslash_of_no_escape hlone hpair
    rw [List.take_succ_cons, List.cons_append, unescapedQuote?_cons hquote hslash,
      ih hj (List.prefix_append _ es)]
    rfl

theorem closingQuote?_of_isPrefix {cs ds : List Char} {i : Nat} (h : closingQuote? cs = some i)
    (hds : cs.take (i + 1) <+: ds) : closingQuote? ds = some i := by
  cases cs with
  | nil => cases h
  | cons c cs =>
    obtain ⟨j, hj, rfl⟩ := Option.map_eq_some_iff.mp h
    obtain ⟨es, rfl⟩ := hds
    rw [List.take_succ_cons, List.cons_append, closingQuote?,
      unescapedQuote?_of_isPrefix hj (List.prefix_append _ es)]
    rfl

theorem closingQuote?_take {cs : List Char} {i : Nat} (h : closingQuote? cs = some i) :
    closingQuote? (cs.take (i + 1)) = some i :=
  closingQuote?_of_isPrefix h List.prefix_rfl

/-! ## What a line supplies -/

/-- Neither a name nor a constant of the line is taken for a comment later. -/
def SuppliesMarkerFree : List Char → Prop :=
  Supplies (fun s => opensComment s.toList = false) fun s => CommentSafe s.toList

theorem words_ldc (cs : List Char) :
    words ('L' :: 'D' :: 'C' :: ' ' :: cs) = "LDC" :: words cs := by
  have hsplit := words_append_blank isBlank_space "LDC".toList cs
  rw [words_toList isWord_ldc] at hsplit
  exact hsplit

theorem afterFirstWord_ldc {gap value : List Char} (hgap : ∀ c ∈ gap, isBlank c = true)
    (ht : Trimmed value) :
    afterFirstWord ('L' :: 'D' :: 'C' :: ' ' :: (gap ++ value)) = value := by
  have hstart : trimStart ('L' :: 'D' :: 'C' :: ' ' :: (gap ++ value)) =
      "LDC".toList ++ ' ' :: (gap ++ value) := trimStart_eq_self fun c hc => by cases hc; decide
  rw [afterFirstWord_eq isWord_ldc hstart fun c hc => by cases hc; exact isBlank_space,
    trim_cons_space, trim_blanks_append hgap, trim_eq_self ht]

theorem trimmed_of_head?_quote {cs ds : List Char} (hhead : ds.head? = some '"')
    (h : Trimmed (cs ++ ds)) : Trimmed ds := by
  refine ⟨?_, ?_⟩
  · intro c hc
    rw [hhead] at hc
    cases hc
    decide
  · intro c hc
    have hne : ds ≠ [] := by
      rintro rfl
      cases hhead
    exact h.2 c (by rw [List.getLast?_append_of_ne_nil _ hne]; exact hc)

/-- A quoted constant is all that its line supplies. -/
theorem suppliesMarkerFree_quoted {gap value : List Char} (hgap : ∀ c ∈ gap, isBlank c = true)
    (hhead : value.head? = some '"') (ht : Trimmed ('L' :: 'D' :: 'C' :: ' ' :: gap ++ value))
    (hsafe : ∀ i ∈ closingQuote? value, opensComment (trimStart (value.drop (i + 1))) = false) :
    SuppliesMarkerFree ('L' :: 'D' :: 'C' :: ' ' :: gap ++ value) := by
  refine ⟨?_, ?_⟩
  · intro head ws hwords hldc
    rw [List.cons_append, List.cons_append, List.cons_append, List.cons_append, words_ldc] at hwords
    exact absurd (List.cons.inj hwords).1.symm hldc
  · intro ws _ _
    have hafter := afterFirstWord_ldc hgap (trimmed_of_head?_quote hhead ht)
    rw [List.cons_append, List.cons_append, List.cons_append, List.cons_append, hafter,
      String.toList_ofList, CommentSafe, if_pos hhead]
    exact hsafe

/-- A line with a constant is `LDC`, a space, blanks and the constant. -/
theorem exists_gap_of_words_ldc {line : List Char} (hs : OnlySpaces line) (ht : Trimmed line)
    {ws : List String} (hwords : words line = "LDC" :: ws) (hne : afterFirstWord line ≠ []) :
    ∃ gap value, (∀ c ∈ gap, isBlank c = true) ∧ Trimmed value ∧
      line = 'L' :: 'D' :: 'C' :: ' ' :: (gap ++ value) := by
  obtain ⟨us, hline, hblank, -⟩ := exists_of_words_eq_cons hwords
  rw [afterFirstWord_eq isWord_ldc hline hblank] at hne
  rw [trimStart_eq_self ht.1] at hline
  cases us with
  | nil => exact absurd rfl hne
  | cons c us =>
    have hc : c = ' ' := hs c (by rw [hline]; simp) (hblank c rfl)
    subst hc
    obtain ⟨gap, hus, hgap⟩ := exists_blanks_append_trimStart us
    refine ⟨gap, trimStart us, hgap, ⟨fun c hc => head?_trimStart hc, ?_⟩, by rw [← hus]; exact hline⟩
    intro c hc
    have hvalue : trimStart us ≠ [] := by
      intro hnil
      rw [hnil] at hc
      cases hc
    apply ht.2 c
    rw [hline, hus, List.getLast?_append_of_ne_nil _ (by simp), ← List.cons_append,
      List.getLast?_append_of_ne_nil _ hvalue, hc]

theorem commentSafe_of_unquoted {line rest : List Char} (hs : OnlySpaces rest)
    (hrest : beforeComment rest = rest) (hkept : rest <+: line)
    (hquoted : quotedOperand? line = none) {ws : List String} (hwords : words rest = "LDC" :: ws)
    (ht : Trimmed rest) (hne : afterFirstWord rest ≠ []) : CommentSafe (afterFirstWord rest) := by
  obtain ⟨gap, value, hgap, hvalue, rfl⟩ := exists_gap_of_words_ldc hs ht hwords hne
  rw [afterFirstWord_ldc hgap hvalue]
  have hsplit : 'L' :: 'D' :: 'C' :: ' ' :: (gap ++ value) =
      ('L' :: 'D' :: 'C' :: ' ' :: gap) ++ value := rfl
  have hopen : opensComment value = false := by
    rw [hsplit] at hs hrest
    refine opensComment_after_blanks (hs.of_subset (List.subset_append_left _ _)) (by simp) ?_ hrest
    intro c hc
    have hlast : c ∈ ' ' :: gap := List.mem_of_getLast? (by simpa using hc)
    rcases List.mem_cons.mp hlast with rfl | hlast
    · exact isBlank_space
    · exact hgap c hlast
  have hhead : value.head? ≠ some '"' := by
    intro hhead
    obtain ⟨tail, rfl⟩ := List.head?_eq_some_iff.mp hhead
    obtain ⟨more, rfl⟩ := hkept
    refine quotedOperand?_ne_none hgap (tail ++ more) ?_
    simpa using hquoted
  have hinside : value <:+: 'L' :: 'D' :: 'C' :: ' ' :: (gap ++ value) := by
    rw [hsplit]
    exact (List.suffix_append _ value).isInfix
  rw [CommentSafe, if_neg hhead]
  exact ⟨hopen, beforeComment_eq_self_iff.mp (beforeComment_eq_self_of_isInfix hinside hrest)⟩

theorem suppliesMarkerFree_unquoted {line rest : List Char} (hs : OnlySpaces rest)
    (hrest : beforeComment rest = rest) (hkept : rest <+: line) (ht : Trimmed rest)
    (hopen : opensComment line = false) (hquoted : quotedOperand? line = none) :
    SuppliesMarkerFree rest := by
  refine ⟨?_, ?_⟩
  · intro head ws hwords _ w hw
    apply opensComment_of_mem_words hs (opensComment_eq_false_of_isPrefix hkept hopen) hrest
    rw [hwords]
    exact List.mem_cons_of_mem head hw
  · intro ws hwords hne
    rw [String.toList_ofList]
    exact commentSafe_of_unquoted hs hrest hkept hquoted hwords ht hne

theorem suppliesMarkerFree_nil : SuppliesMarkerFree [] := by
  refine ⟨fun head ws hwords => ?_, fun ws hwords => ?_⟩
  · rw [words_nil] at hwords
    cases hwords
  · rw [words_nil] at hwords
    cases hwords

theorem suppliesMarkerFree_of_strips {line rest : List Char} (h : Strips line rest)
    (hs : OnlySpaces line) (ht : Trimmed line) : SuppliesMarkerFree rest := by
  have hrest : Trimmed rest := h.trimmed ht
  have hspaces : OnlySpaces rest := hs.of_subset h.isPrefix.subset
  have hkept := h.isPrefix
  cases h with
  | comment => exact suppliesMarkerFree_nil
  | plain opens unquoted =>
    have hcut := beforeComment_trimEnd_beforeComment line
    exact suppliesMarkerFree_unquoted hspaces hcut hkept hrest opens unquoted
  | @unclosed gap operand quoted close =>
    obtain ⟨hgap, hhead⟩ := quotedOperand?_spec quoted
    rw [quotedOperand?_eq_some quoted] at ht ⊢
    exact suppliesMarkerFree_quoted hgap hhead ht (by simp [close])
  | @closed gap operand i quoted close =>
    obtain ⟨hgap, hhead⟩ := quotedOperand?_spec quoted
    have hhead' := head?_take_succ hhead i
    have hnothing : trimStart ((operand.take (i + 1)).drop (i + 1)) = [] := by simp [trimStart]
    refine suppliesMarkerFree_quoted hgap hhead' hrest fun j hj => ?_
    rw [closingQuote?_take close] at hj
    cases hj
    rw [hnothing]
    rfl
  | @kept gap operand i quoted close text opens =>
    obtain ⟨hgap, hhead⟩ := quotedOperand?_spec quoted
    rw [quotedOperand?_eq_some quoted] at ht ⊢
    exact suppliesMarkerFree_quoted hgap hhead ht (by simp [close, opens])

theorem suppliesMarkerFree_uncommented {raw : List Char} (hs : OnlySpaces raw) :
    SuppliesMarkerFree (uncommented raw) := by
  refine suppliesMarkerFree_of_strips (strips_uncommented raw) (hs.of_subset ?_) (trimmed_trim raw)
  exact fun c hc => (List.dropWhile_suffix _).subset ((trimEnd_isPrefix _).subset hc)

/-- What is read from a text whose lines hold no blanks but spaces is printed and read again as it
is. -/
theorem read_again_of_onlySpaces {text : String} {cs : List ClassUnit}
    (hs : ∀ line ∈ lines text.toList, OnlySpaces line) (h : read text = .ok cs) :
    read (print cs) = .ok cs := by
  have hfree : ∀ c ∈ cs, c.MarkerFree := by
    refine texts_of_read h ?_ fun raw hraw => suppliesMarkerFree_uncommented (hs raw hraw)
    intro w owner name hw hmember
    refine opensComment_eq_false_of_isPrefix ?_ hw
    rw [(memberOfWord?_eq_some_iff.mp hmember).1, String.append_assoc, String.toList_append]
    exact List.prefix_append _ _
  obtain ⟨ds, hread, hsame⟩ := exists_same_of_printable
    ((printable_iff_markerFree_of_read h).mpr hfree)
  rw [hread, eq_of_sameAll_of_read h hread hsame]

end ComposeGuards.Listing
