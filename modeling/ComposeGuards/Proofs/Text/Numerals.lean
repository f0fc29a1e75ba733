import ComposeGuards.Proofs.Text.Words
import ComposeGuards.Text.Numeral

/-! # Numerals are read back

The decimal text of a number is a run of digits. It is a word, and reading it gives the number again:
without a sign where the field is unsigned, and with `-` below zero where it is signed.
-/
namespace ComposeGuards.Text

theorem isBlank_of_isDigit {c : Char} (h : c.isDigit = true) : isBlank c = false := by
  have hrange : 48 ≤ c.toNat ∧ c.toNat ≤ 57 := by
    simpa [Char.isDigit, UInt32.le_iff_toNat_le] using h
  rw [← Bool.not_eq_true]
  simp only [isBlank, blankRanges, List.any_eq_true, List.mem_cons, List.not_mem_nil, or_false,
    Bool.and_eq_true, decide_eq_true_eq]
  rintro ⟨r, h, hlow, hhigh⟩
  rcases h with rfl | rfl | rfl | rfl | rfl | rfl | rfl | rfl | rfl | rfl <;>
    (simp only at hlow hhigh; omega)

theorem toList_toString (n : Nat) : (toString n).toList = Nat.toDigits 10 n := Nat.toList_repr

theorem isDigit_of_mem_toString {n : Nat} {c : Char} (h : c ∈ (toString n).toList) :
    c.isDigit = true := by
  rw [toList_toString] at h
  exact Nat.isDigit_of_mem_toDigits (by decide) (by decide) h

theorem toString_eq_cons (n : Nat) :
    ∃ d ds, (toString n).toList = d :: ds ∧ d.isDigit = true := by
  cases hn : (toString n).toList with
  | nil =>
    rw [toList_toString] at hn
    exact absurd hn Nat.toDigits_ne_nil
  | cons d ds => exact ⟨d, ds, rfl, isDigit_of_mem_toString (by rw [hn]; exact List.mem_cons_self)⟩

theorem isWord_toString (n : Nat) : IsWord (toString n) := by
  obtain ⟨d, ds, hn, -⟩ := toString_eq_cons n
  refine ⟨?_, fun c hc => isBlank_of_isDigit (isDigit_of_mem_toString hc)⟩
  intro hempty
  rw [hempty] at hn
  cases hn

theorem digits?_eq_some_iff {cs : List Char} {n : Nat} :
    digits? cs = some n ↔
      cs ≠ [] ∧ (∀ c ∈ cs, c.isDigit = true) ∧ Nat.ofDigitChars 10 cs 0 = n := by
  rw [← List.all_eq_true, digits?]
  cases cs with
  | nil => simp
  | cons c cs => cases (c :: cs).all Char.isDigit <;> simp

theorem digits?_toString (n : Nat) : digits? (toString n).toList = some n := by
  rw [toList_toString, digits?_toDigits]

theorem unsigned?_toString (n : Nat) : unsigned? (toString n).toList = some n := by
  have hdigits := digits?_toString n
  obtain ⟨d, ds, hn, hd⟩ := toString_eq_cons n
  rw [hn] at hdigits ⊢
  unfold unsigned?
  split
  · next hcons =>
    cases hcons
    exact absurd hd (by decide)
  · exact hdigits

theorem signed?_signedText (i : Int) : signed? (signedText i).toList = some i := by
  unfold signedText
  split
  · next hneg =>
    have hvalue : -(i.natAbs : Int) = i := by omega
    have hread : signed? ('-' :: (toString i.natAbs).toList) = some (-(i.natAbs : Int)) := by
      rw [signed?, digits?_toString]
      rfl
    rw [String.toList_append]
    exact hread.trans (congrArg some hvalue)
  · next hpos =>
    have hvalue : (i.natAbs : Int) = i := by omega
    have hunsigned := unsigned?_toString i.natAbs
    obtain ⟨d, ds, hn, hd⟩ := toString_eq_cons i.natAbs
    rw [hn] at hunsigned ⊢
    unfold signed?
    split
    · next hcons =>
      cases hcons
      exact absurd hd (by decide)
    · simp [hunsigned, hvalue]

theorem isWord_signedText (i : Int) : IsWord (signedText i) := by
  have hdigits := isWord_toString i.natAbs
  unfold signedText
  split
  · refine ⟨by simp, ?_⟩
    intro c hc
    rw [String.toList_append] at hc
    rcases List.mem_append.mp hc with hc | hc
    · rw [List.mem_singleton.mp hc]
      decide
    · exact hdigits.2 c hc
  · exact hdigits

theorem word32?_eq_some_iff {n : Nat} {w : UInt32} : word32? n = some w ↔ n = w.toNat := by
  unfold word32?
  split
  · next hn => simp [← UInt32.toNat_inj, eq_comm]
  · next hn =>
    simp only [reduceCtorEq, false_iff]
    rintro rfl
    exact hn w.toNat_lt_size

theorem word16?_eq_some_iff {n : Nat} {w : UInt16} : word16? n = some w ↔ n = w.toNat := by
  unfold word16?
  split
  · next hn => simp [← UInt16.toNat_inj, eq_comm]
  · next hn =>
    simp only [reduceCtorEq, false_iff]
    rintro rfl
    exact hn w.toNat_lt_size

theorem toInt_eq_of_int32? {i : Int} {w : Int32} (h : int32? i = some w) : w.toInt = i := by
  unfold int32? at h
  split at h
  · next hrange =>
    cases h
    refine Int32.toInt_ofInt_of_le hrange.1 (Int.lt_of_le_of_lt hrange.2 ?_)
    decide
  · cases h

theorem int32?_toInt (w : Int32) : int32? w.toInt = some w := by
  rw [int32?, if_pos ⟨w.minValue_le_toInt, w.toInt_le⟩, Int32.ofInt_toInt]

end ComposeGuards.Text
