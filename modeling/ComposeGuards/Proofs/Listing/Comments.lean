import ComposeGuards.Listing.Comment
import ComposeGuards.Proofs.Text.Words

/-! # What stripping a comment leaves

Stripping keeps a prefix of the trimmed line that ends in no blank. On words joined by single spaces
it keeps the words before the first one that opens a comment, and on a line `LDC` with a constant it
keeps the whole line exactly when the constant is safe: a literal that no comment follows, or any
other text that neither starts with a marker nor holds one after a space.
-/
namespace ComposeGuards.Listing
open ComposeGuards.Text

/-- The text of a constant holds nothing that reading would take for a comment. -/
def CommentSafe (value : List Char) : Prop :=
  if value.head? = some '"' then
    ∀ i ∈ closingQuote? value, opensComment (trimStart (value.drop (i + 1))) = false
  else
    opensComment value = false ∧ ¬ [' ', '#'] <:+: value ∧ ¬ [' ', '/', '/'] <:+: value

/-- A word that opens no comment. -/
def IsToken (s : String) : Prop :=
  IsWord s ∧ opensComment s.toList = false

instance (value : List Char) : Decidable (CommentSafe value) :=
  inferInstanceAs (Decidable (if value.head? = some '"' then _ else _))

instance (s : String) : Decidable (IsToken s) :=
  inferInstanceAs (Decidable (IsWord s ∧ opensComment s.toList = false))

theorem isWord_ldc : IsWord "LDC" := by decide

/-! ## Markers among words -/

theorem opensComment_iff {cs : List Char} :
    opensComment cs = true ↔ ['#'] <+: cs ∨ ['/', '/'] <+: cs := by
  unfold opensComment
  split
  · simp
  · simp
  · next hhash hslash =>
    simp only [Bool.false_eq_true, false_iff, not_or]
    constructor
    · rintro ⟨ds, rfl⟩
      exact hhash ds rfl
    · rintro ⟨ds, rfl⟩
      exact hslash ds rfl

theorem opensComment_cons_eq_false {c : Char} (hhash : c ≠ '#') (hslash : c ≠ '/')
    (cs : List Char) : opensComment (c :: cs) = false := by
  unfold opensComment
  split
  · next h => cases h; exact absurd rfl hhash
  · next h => cases h; exact absurd rfl hslash
  · rfl

theorem opensComment_toList_append_space {w : String} (hw : IsWord w) (cs : List Char) :
    opensComment (w.toList ++ ' ' :: cs) = opensComment w.toList := by
  obtain ⟨c, ds, hds, -⟩ := hw.head?_eq_some
  rw [hds, Bool.eq_iff_iff, opensComment_iff, opensComment_iff]
  cases ds with
  | nil => simp [List.cons_prefix_cons]
  | cons d ds => simp [List.cons_prefix_cons]

theorem opensComment_spaced_cons {w : String} (hw : IsWord w) (ws : List String) :
    opensComment (spaced (w :: ws)) = opensComment w.toList := by
  cases ws with
  | nil => rfl
  | cons v ws => rw [spaced_cons_cons, opensComment_toList_append_space hw]

theorem beforeComment_append {xs : List Char} (h : ' ' ∉ xs) (ys : List Char) :
    beforeComment (xs ++ ys) = xs ++ beforeComment ys := by
  induction xs with
  | nil => rfl
  | cons c xs ih =>
    have hc : c ≠ ' ' := by rintro rfl; exact h List.mem_cons_self
    rw [List.cons_append, beforeComment, if_neg (by simp [hc]),
      ih fun hmem => h (List.mem_cons_of_mem c hmem)]
    rfl

theorem beforeComment_eq_self {cs : List Char} (h : ' ' ∉ cs) : beforeComment cs = cs := by
  simpa [beforeComment] using beforeComment_append h []

/-- Words joined by spaces are cut before the first word but the first that opens a comment. -/
theorem beforeComment_spaced {w : String} {ws : List String} (hw : IsWord w)
    (h : ∀ v ∈ ws, IsWord v) :
    beforeComment (spaced (w :: ws)) =
      spaced (w :: ws.takeWhile fun v => !opensComment v.toList) := by
  induction ws generalizing w with
  | nil => exact beforeComment_eq_self hw.space_not_mem
  | cons v ws ih =>
    have hv : IsWord v := h v List.mem_cons_self
    rw [spaced_cons_cons, beforeComment_append hw.space_not_mem, beforeComment,
      opensComment_spaced_cons hv]
    by_cases hc : opensComment v.toList = true
    · simp [hc, spaced]
    · rw [if_neg (by simp [hc]), ih hv fun u hu => h u (List.mem_cons_of_mem v hu),
        List.takeWhile_cons_of_pos (by simpa using hc), spaced_cons_cons]

theorem beforeComment_eq_self_iff {cs : List Char} :
    beforeComment cs = cs ↔ ¬ [' ', '#'] <:+: cs ∧ ¬ [' ', '/', '/'] <:+: cs := by
  induction cs with
  | nil => simp [beforeComment]
  | cons c cs ih =>
    rw [beforeComment, List.infix_cons_iff, List.infix_cons_iff]
    by_cases hcut : (decide (c = ' ') && opensComment cs) = true
    · simp only [Bool.and_eq_true, decide_eq_true_eq] at hcut
      obtain ⟨rfl, hopen⟩ := hcut
      rw [if_pos (by simp [hopen])]
      constructor
      · intro h
        cases h
      · rintro ⟨hhash, hslash⟩
        exfalso
        rcases opensComment_iff.mp hopen with hopen | hopen
        · exact hhash (.inl (List.cons_prefix_cons.mpr ⟨rfl, hopen⟩))
        · exact hslash (.inl (List.cons_prefix_cons.mpr ⟨rfl, hopen⟩))
    · rw [if_neg hcut, List.cons.injEq, eq_self, true_and, ih]
      have hhash : ¬ [' ', '#'] <+: c :: cs := by
        rintro ⟨ds, hds⟩
        cases hds
        exact hcut rfl
      have hslash : ¬ [' ', '/', '/'] <+: c :: cs := by
        rintro ⟨ds, hds⟩
        cases hds
        exact hcut rfl
      simp only [hhash, hslash, false_or]

/-! ## Literals -/

/-- A literal ends in its closing quote. -/
theorem getLast?_take_closingQuote? {cs : List Char} {i : Nat} (h : closingQuote? cs = some i) :
    (cs.take (i + 1)).getLast? = some '"' := by
  rw [List.getLast?_take, if_neg (Nat.succ_ne_zero i), Nat.add_sub_cancel, getElem?_closingQuote? h]
  rfl

/-! ## Stripping -/

/-- What is left of a trimmed line. -/
inductive Strips (line : List Char) : List Char → Prop
  | comment (opens : opensComment line = true) : Strips line []
  | plain (opens : opensComment line = false) (unquoted : quotedOperand? line = none) :
      Strips line (trimEnd (beforeComment line))
  | unclosed {gap operand : List Char} (quoted : quotedOperand? line = some (gap, operand))
      (close : closingQuote? operand = none) : Strips line line
  | closed {gap operand : List Char} {i : Nat} (quoted : quotedOperand? line = some (gap, operand))
      (close : closingQuote? operand = some i)
      (comment : trimStart (operand.drop (i + 1)) = [] ∨
        opensComment (trimStart (operand.drop (i + 1))) = true) :
      Strips line ('L' :: 'D' :: 'C' :: ' ' :: gap ++ operand.take (i + 1))
  | kept {gap operand : List Char} {i : Nat} (quoted : quotedOperand? line = some (gap, operand))
      (close : closingQuote? operand = some i)
      (text : trimStart (operand.drop (i + 1)) ≠ [])
      (opens : opensComment (trimStart (operand.drop (i + 1))) = false) : Strips line line

theorem strips_uncommented (raw : List Char) : Strips (trim raw) (uncommented raw) := by
  rw [uncommented_charwise]
  by_cases hopen : opensComment (trim raw) = true
  · simp only [hopen, ↓reduceIte]
    exact .comment hopen
  · have hopen' : opensComment (trim raw) = false := by simpa using hopen
    simp only [hopen', Bool.false_eq_true, ↓reduceIte]
    split
    · next hq => exact .plain hopen' hq
    · next gap operand hq =>
      split
      · next hclose => exact .unclosed hq hclose
      · next i hclose =>
        split
        · next hend =>
          rw [Bool.or_eq_true, List.isEmpty_iff] at hend
          exact .closed hq hclose hend
        · next hend =>
          rw [Bool.or_eq_true, List.isEmpty_iff, not_or, Bool.not_eq_true] at hend
          exact .kept hq hclose hend.1 hend.2

theorem Strips.isPrefix {line rest : List Char} (h : Strips line rest) : rest <+: line := by
  cases h with
  | comment => exact List.nil_prefix
  | plain => exact (trimEnd_isPrefix _).trans (beforeComment_isPrefix _)
  | unclosed => exact List.prefix_rfl
  | closed quoted =>
    rw [quotedOperand?_eq_some quoted]
    exact (List.prefix_append_right_inj _).mpr (List.take_prefix _ _)
  | kept => exact List.prefix_rfl

theorem Strips.trimmed {line rest : List Char} (h : Strips line rest) (hline : Trimmed line) :
    Trimmed rest := by
  refine trimmed_of_isPrefix h.isPrefix hline.1 ?_
  intro c hc
  cases h with
  | comment => cases hc
  | plain => exact getLast?_trimEnd hc
  | unclosed => exact hline.2 c hc
  | @closed gap operand i quoted close comment =>
    have hlast := getLast?_take_closingQuote? close
    have hne : operand.take (i + 1) ≠ [] := by
      intro hnil
      rw [hnil] at hlast
      cases hlast
    rw [List.getLast?_append_of_ne_nil _ hne, hlast] at hc
    cases hc
    decide
  | kept => exact hline.2 c hc

theorem uncommented_isPrefix (raw : List Char) : uncommented raw <+: trim raw :=
  (strips_uncommented raw).isPrefix

theorem trimmed_uncommented (raw : List Char) : Trimmed (uncommented raw) :=
  (strips_uncommented raw).trimmed (trimmed_trim raw)

theorem uncommented_blanks_append {bs : List Char} (hb : ∀ c ∈ bs, isBlank c = true)
    (cs : List Char) : uncommented (bs ++ cs) = uncommented cs := by
  rw [uncommented, uncommented, trim_blanks_append hb]

theorem words_uncommented_eq_nil_iff {raw : List Char} :
    words (uncommented raw) = [] ↔ uncommented raw = [] := by
  rw [words_eq_nil_iff, trimStart_eq_self (trimmed_uncommented raw).1]

theorem lf_not_mem_uncommented {raw : List Char} (h : '\n' ∉ raw) : '\n' ∉ uncommented raw := by
  intro hmem
  have htrim : '\n' ∈ trim raw := (uncommented_isPrefix raw).subset hmem
  have hstart : '\n' ∈ trimStart raw := (trimEnd_isPrefix _).subset htrim
  exact h ((List.dropWhile_suffix _).subset hstart)

theorem quotedOperand?_of_words_ne {line : List Char} {head : String} {ws : List String}
    (h : words line = head :: ws) (hne : head ≠ "LDC") : quotedOperand? line = none := by
  cases hq : quotedOperand? line with
  | none => rfl
  | some p =>
    have hline : line = "LDC".toList ++ ' ' :: (p.1 ++ p.2) := quotedOperand?_eq_some hq
    rw [hline, words_append_blank isBlank_space, words_toList isWord_ldc] at h
    exact absurd (List.cons.inj h).1.symm hne

theorem quotedOperand?_spaced {w : String} {ws : List String} (h : ∀ v ∈ w :: ws, IsWord v)
    (hw : w ≠ "LDC") : quotedOperand? (spaced (w :: ws)) = none :=
  quotedOperand?_of_words_ne (words_spaced h) hw

/-- Words joined by spaces keep those before the first that opens a comment. -/
theorem uncommented_spaced {w : String} {ws : List String} (h : ∀ v ∈ w :: ws, IsWord v)
    (hw : w ≠ "LDC") (hopen : opensComment w.toList = false) :
    uncommented (spaced (w :: ws)) =
      spaced (w :: ws.takeWhile fun v => !opensComment v.toList) := by
  have hhead : IsWord w := h w List.mem_cons_self
  have htail : ∀ v ∈ ws, IsWord v := fun v hv => h v (List.mem_cons_of_mem w hv)
  have hkept : ∀ v ∈ w :: ws.takeWhile (fun v => !opensComment v.toList), IsWord v := by
    intro v hv
    rcases List.mem_cons.mp hv with rfl | hv
    · exact hhead
    · exact htail v ((List.takeWhile_prefix _).subset hv)
  rw [uncommented, trim_eq_self (trimmed_spaced h)]
  simp only [opensComment_spaced_cons hhead, hopen, quotedOperand?_spaced h hw, Bool.false_eq_true,
    ↓reduceIte]
  rw [beforeComment_spaced hhead htail, trimEnd_eq_self (trimmed_spaced hkept).2]

theorem quotedOperand?_constant {value : List Char} (ht : Trimmed value) :
    quotedOperand? ('L' :: 'D' :: 'C' :: ' ' :: value) =
      if value.head? = some '"' then some ([], value) else none := by
  rw [quotedOperand?, trimStart_eq_self ht.1]
  cases value with
  | nil => rfl
  | cons c cs =>
    have hc : isBlank c = false := ht.1 c rfl
    by_cases hquote : c = '"'
    · subst hquote
      simp [hc]
    · simp [hquote]

theorem trimmed_constant {value : List Char} (hne : value ≠ []) (ht : Trimmed value) :
    Trimmed ('L' :: 'D' :: 'C' :: ' ' :: value) := by
  have hword : Trimmed ['L', 'D', 'C'] := by
    constructor <;> (intro c hc; cases hc; decide)
  exact hword.append ht (by simp) hne [' ']

/-- What follows a closed literal goes, so the literal is the whole constant only if that is
nothing. -/
theorem take_eq_self_iff_opensComment {value : List Char} {n : Nat} (ht : Trimmed value)
    (h : trimStart (value.drop n) = [] ∨ opensComment (trimStart (value.drop n)) = true) :
    value.take n = value ↔ opensComment (trimStart (value.drop n)) = false := by
  rcases h with hnil | hopen
  · have hlast : ∀ c, (value.drop n).getLast? = some c → isBlank c = false := by
      intro c hc
      have hne : value.drop n ≠ [] := by
        intro hdrop
        rw [hdrop] at hc
        cases hc
      apply ht.2 c
      rw [← List.take_append_drop n value, List.getLast?_append_of_ne_nil _ hne, hc]
    have hdrop := eq_nil_of_trimStart_eq_nil hlast hnil
    have htake : value.take n = value := by simpa [hdrop] using List.take_append_drop n value
    simp [htake, hnil, opensComment]
  · rw [hopen]
    constructor
    · intro htake
      have hdrop : value.drop n = [] :=
        List.append_right_eq_self.mp (htake ▸ List.take_append_drop n value)
      rw [hdrop] at hopen
      cases hopen
    · intro hfalse
      cases hfalse

theorem trimEnd_eq_iff_of_isPrefix {cs ds : List Char} (h : cs <+: ds) (hd : trimEnd ds = ds) :
    trimEnd cs = ds ↔ cs = ds := by
  constructor
  · intro heq
    have hback : ds <+: cs := heq ▸ trimEnd_isPrefix cs
    exact h.eq_of_length_le hback.length_le
  · rintro rfl
    exact hd

theorem beforeComment_constant_eq_self_iff {value : List Char} :
    beforeComment ('L' :: 'D' :: 'C' :: ' ' :: value) = 'L' :: 'D' :: 'C' :: ' ' :: value ↔
      opensComment value = false ∧ ¬ [' ', '#'] <:+: value ∧ ¬ [' ', '/', '/'] <:+: value := by
  rw [beforeComment_eq_self_iff, ← Bool.not_eq_true, opensComment_iff]
  simp only [List.infix_cons_iff, List.cons_prefix_cons, Char.reduceEq, false_and, true_and,
    false_or]
  tauto

/-- A line with a constant is kept whole exactly when the constant is safe. -/
theorem uncommented_constant_eq_self_iff {value : List Char} (hne : value ≠ [])
    (ht : Trimmed value) :
    uncommented ('L' :: 'D' :: 'C' :: ' ' :: value) = 'L' :: 'D' :: 'C' :: ' ' :: value ↔
      CommentSafe value := by
  have hline := trimmed_constant hne ht
  have hstrips := strips_uncommented ('L' :: 'D' :: 'C' :: ' ' :: value)
  rw [trim_eq_self hline] at hstrips
  have hquoted := quotedOperand?_constant ht
  generalize uncommented ('L' :: 'D' :: 'C' :: ' ' :: value) = rest at hstrips ⊢
  by_cases hq : value.head? = some '"'
  · rw [if_pos hq] at hquoted
    rw [CommentSafe, if_pos hq]
    cases hstrips with
    | comment opens => cases opens
    | plain _ unquoted => rw [hquoted] at unquoted; cases unquoted
    | unclosed quoted close =>
      rw [hquoted] at quoted
      cases quoted
      simp [close]
    | closed quoted close comment =>
      rw [hquoted] at quoted
      cases quoted
      simpa [close] using take_eq_self_iff_opensComment ht comment
    | kept quoted close text opens =>
      rw [hquoted] at quoted
      cases quoted
      simp [close, opens]
  · rw [if_neg hq] at hquoted
    rw [CommentSafe, if_neg hq, ← beforeComment_constant_eq_self_iff]
    cases hstrips with
    | comment opens => cases opens
    | plain => exact trimEnd_eq_iff_of_isPrefix (beforeComment_isPrefix _) (trimEnd_eq_self hline.2)
    | unclosed quoted => rw [hquoted] at quoted; cases quoted
    | closed quoted => rw [hquoted] at quoted; cases quoted
    | kept quoted => rw [hquoted] at quoted; cases quoted

end ComposeGuards.Listing
