import ComposeGuards.Proofs.Listing.PrintedWords
import Mathlib.Data.Nat.Digits.Defs

/-! # The numbers that labels denote

A label word is an `L` and at least one decimal digit, with as many leading zeros as one likes. It
denotes the number that its digits have in the decimal place-value system, and it is refused when
that number does not fit 32 bits, however long the word is.
-/
namespace ComposeGuards.Listing
open ComposeGuards.Text

/-- The value of decimal digits by their places, the last digit counting once. -/
def decimalValue (ds : List Char) : ℕ :=
  Nat.ofDigits 10 (ds.reverse.map fun c => c.toNat - '0'.toNat)

/-- The word is an `L` and these digits. -/
structure IsLabelWord (word : String) (ds : List Char) : Prop where
  spelled : word.toList = 'L' :: ds
  nonempty : ds ≠ []
  digits : ∀ c ∈ ds, '0' ≤ c ∧ c ≤ '9'

/-! ## Decimal values -/

theorem isDigit_iff {c : Char} : c.isDigit = true ↔ '0' ≤ c ∧ c ≤ '9' := by
  simp only [Char.isDigit, Bool.and_eq_true, decide_eq_true_eq, ge_iff_le, Char.le_def]

theorem decimalValue_concat (ds : List Char) (c : Char) :
    decimalValue (ds ++ [c]) = 10 * decimalValue ds + (c.toNat - '0'.toNat) := by
  rw [decimalValue, List.reverse_append, List.reverse_singleton, List.singleton_append,
    List.map_cons, Nat.ofDigits_cons, Nat.add_comm]
  rfl

/-- Reading from the left, ten times the value so far and the next digit, gives the value by
places. -/
theorem ofDigitChars_eq_decimalValue (ds : List Char) :
    Nat.ofDigitChars 10 ds 0 = decimalValue ds := by
  induction ds using List.reverseRecOn with
  | nil => rfl
  | append_singleton ds c ih =>
    rw [decimalValue_concat, ← ih, Nat.ofDigitChars_append]
    rfl

/-! ## Labels -/

/-- The label that is read has the number of the word's digits. -/
theorem labelOfWord?_eq_some_iff_isLabelWord {word : String} {l : Label} :
    labelOfWord? word = some l ↔ ∃ ds, IsLabelWord word ds ∧ decimalValue ds = l.toNat := by
  rw [labelOfWord?_eq_some_iff]
  constructor
  · rintro ⟨ds, hword, hne, hdigits, hvalue⟩
    refine ⟨ds, ⟨hword, hne, fun c hc => isDigit_iff.mp (hdigits c hc)⟩, ?_⟩
    rw [← ofDigitChars_eq_decimalValue, hvalue]
  · rintro ⟨ds, h, hvalue⟩
    refine ⟨ds, h.spelled, h.nonempty, fun c hc => isDigit_iff.mpr (h.digits c hc), ?_⟩
    rw [ofDigitChars_eq_decimalValue, hvalue]

/-- A number that fits is the number of a label. -/
theorem exists_label_of_lt {n : ℕ} (h : n < 2 ^ 32) : ∃ l : Label, l.toNat = n :=
  ⟨UInt32.ofNatLT n h, UInt32.toNat_ofNatLT⟩

theorem toNat_labelOfWord?_eq_some_iff {word : String} {n : ℕ} :
    (labelOfWord? word).map UInt32.toNat = some n ↔
      (∃ ds, IsLabelWord word ds ∧ decimalValue ds = n) ∧ n < 2 ^ 32 := by
  rw [Option.map_eq_some_iff]
  constructor
  · rintro ⟨l, hl, rfl⟩
    exact ⟨labelOfWord?_eq_some_iff_isLabelWord.mp hl, l.toNat_lt⟩
  · rintro ⟨hword, hn⟩
    obtain ⟨l, rfl⟩ := exists_label_of_lt hn
    exact ⟨l, labelOfWord?_eq_some_iff_isLabelWord.mpr hword, rfl⟩

/-- A word is refused if it has another shape or its number does not fit. -/
theorem labelOfWord?_eq_none_iff {word : String} :
    labelOfWord? word = none ↔ ∀ ds, IsLabelWord word ds → 2 ^ 32 ≤ decimalValue ds := by
  constructor
  · intro hnone ds hds
    by_contra hlarge
    obtain ⟨l, hl⟩ := exists_label_of_lt (Nat.not_le.mp hlarge)
    have hread := labelOfWord?_eq_some_iff_isLabelWord.mpr ⟨ds, hds, hl.symm⟩
    rw [hnone] at hread
    cases hread
  · intro h
    rw [Option.eq_none_iff_forall_ne_some]
    intro l hl
    obtain ⟨ds, hds, hvalue⟩ := labelOfWord?_eq_some_iff_isLabelWord.mp hl
    have hlarge := h ds hds
    have hsmall := l.toNat_lt
    omega

/-- Two words are read as one label exactly when their digits have one value, and it fits. -/
theorem labelOfWord?_same_iff {w v : String} :
    (∃ l, labelOfWord? w = some l ∧ labelOfWord? v = some l) ↔
      ∃ ds es, IsLabelWord w ds ∧ IsLabelWord v es ∧
        decimalValue ds = decimalValue es ∧ decimalValue ds < 2 ^ 32 := by
  simp only [labelOfWord?_eq_some_iff_isLabelWord]
  constructor
  · rintro ⟨l, ⟨ds, hds, hl⟩, es, hes, hl'⟩
    refine ⟨ds, es, hds, hes, hl.trans hl'.symm, ?_⟩
    rw [hl]
    exact l.toNat_lt
  · rintro ⟨ds, es, hds, hes, hsame, hlt⟩
    obtain ⟨l, hl⟩ := exists_label_of_lt hlt
    exact ⟨l, ⟨ds, hds, hl.symm⟩, es, hes, hsame.symm.trans hl.symm⟩

/-- A word is read as a label exactly when it is an `L` and digits whose decimal value fits 32 bits,
and as the label of that number; two words name one label exactly when their digits have one value;
and the printed form of a label names it. -/
theorem label_words_denote_numbers (w v : String) (l : Label) :
    (∀ n, (labelOfWord? w).map UInt32.toNat = some n ↔
        (∃ ds, IsLabelWord w ds ∧ decimalValue ds = n) ∧ n < 2 ^ 32) ∧
      (labelOfWord? w = none ↔ ∀ ds, IsLabelWord w ds → 2 ^ 32 ≤ decimalValue ds) ∧
      ((∃ k, labelOfWord? w = some k ∧ labelOfWord? v = some k) ↔
        ∃ ds es, IsLabelWord w ds ∧ IsLabelWord v es ∧
          decimalValue ds = decimalValue es ∧ decimalValue ds < 2 ^ 32) ∧
      labelOfWord? (labelText l) = some l :=
  ⟨fun _ => toNat_labelOfWord?_eq_some_iff, labelOfWord?_eq_none_iff, labelOfWord?_same_iff,
    labelOfWord?_labelText l⟩

-- zeros do not count, and the next number does not fit
example : labelOfWord? "L004294967295" = some 4294967295 ∧ labelOfWord? "L4294967296" = none := by
  decide

end ComposeGuards.Listing
