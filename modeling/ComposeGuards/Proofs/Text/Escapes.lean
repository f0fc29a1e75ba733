import ComposeGuards.Text.Literal
import Mathlib.Algebra.Group.Nat.Even
import Mathlib.Data.List.DropRight
import Mathlib.Order.Bounds.Basic
import Mathlib.Order.Nat

/-! # Which quotes are escaped

A backslash escapes the next character, so a quote is escaped exactly when the run of backslashes
right before it is odd. The scan for the closing quote never looks back: it goes from left to right
with one flag. What ties the two together is that the flag is up exactly where the run of backslashes
read last is odd. Positions are byte offsets, so a character may take up to four of them.
-/
namespace ComposeGuards.Text

/-- The length of the run of backslashes at the end of a text. -/
def backslashRun (cs : List Char) : ℕ :=
  (cs.rtakeWhile fun c => c = '\\').length

/-- At the byte offset, which is not the first, stands a quote with an even run of backslashes before
it. -/
def ClosesAt (cs : List Char) (k : ℕ) : Prop :=
  0 < k ∧ ∃ before after, cs = before ++ '"' :: after ∧ byteLength before = k ∧
    Even (backslashRun before)

/-- At the byte offset, counted through the text `read` and the text that follows it, stands a quote
of the text that follows, with an even run of backslashes before it. -/
def ClosesAfter (read cs : List Char) (k : ℕ) : Prop :=
  ∃ mid after, cs = mid ++ '"' :: after ∧ byteLength (read ++ mid) = k ∧
    Even (backslashRun (read ++ mid))

/-! ## The run of backslashes -/

theorem backslashRun_concat_backslash (cs : List Char) :
    backslashRun (cs ++ ['\\']) = backslashRun cs + 1 := by
  rw [backslashRun, List.rtakeWhile_concat_pos _ _ _ (by simp), List.length_append]
  rfl

theorem backslashRun_concat_of_ne {c : Char} (hc : c ≠ '\\') (cs : List Char) :
    backslashRun (cs ++ [c]) = 0 := by
  rw [backslashRun, List.rtakeWhile_concat_neg _ _ _ (by simpa using hc)]
  rfl

/-! ## One character further -/

theorem not_closesAfter_nil {read : List Char} {k : ℕ} : ¬ ClosesAfter read [] k := by
  rintro ⟨mid, after, hnil, -⟩
  simp at hnil

theorem closesAfter_cons_iff {read cs : List Char} {c : Char} {k : ℕ} :
    ClosesAfter read (c :: cs) k ↔
      (c = '"' ∧ byteLength read = k ∧ Even (backslashRun read)) ∨
        ClosesAfter (read ++ [c]) cs k := by
  constructor
  · rintro ⟨mid, after, hcs, hk, heven⟩
    cases mid with
    | nil =>
      obtain ⟨rfl, rfl⟩ := List.cons.inj hcs
      rw [List.append_nil] at hk heven
      exact .inl ⟨rfl, hk, heven⟩
    | cons d mid =>
      obtain ⟨rfl, rfl⟩ := List.cons.inj hcs
      rw [List.append_cons] at hk heven
      exact .inr ⟨mid, after, rfl, hk, heven⟩
  · rintro (⟨rfl, hk, heven⟩ | ⟨mid, after, rfl, hk, heven⟩)
    · exact ⟨[], cs, rfl, by rwa [List.append_nil], by rwa [List.append_nil]⟩
    · rw [← List.append_cons] at hk heven
      exact ⟨c :: mid, after, rfl, hk, heven⟩

theorem ClosesAfter.le {read cs : List Char} {k : ℕ} (h : ClosesAfter read cs k) :
    byteLength read ≤ k := by
  obtain ⟨mid, after, -, rfl, -⟩ := h
  rw [byteLength_append]
  exact Nat.le_add_right _ _

/-- After the opening quote, every offset is past the first. -/
theorem closesAt_iff {cs : List Char} {k : ℕ} :
    ClosesAt ('"' :: cs) k ↔ ClosesAfter ['"'] cs k := by
  constructor
  · rintro ⟨hpos, before, after, hcs, rfl, heven⟩
    cases before with
    | nil => exact absurd hpos (Nat.lt_irrefl 0)
    | cons c mid =>
      obtain ⟨rfl, rfl⟩ := List.cons.inj hcs
      exact ⟨mid, after, rfl, rfl, heven⟩
  · intro h
    have hpos : 0 < k := Nat.lt_of_lt_of_le (by decide) h.le
    obtain ⟨mid, after, rfl, hk, heven⟩ := h
    exact ⟨hpos, '"' :: mid, after, rfl, hk, heven⟩

/-! ## The scan -/

/-- The flag is up exactly if the run of backslashes read last is odd. -/
def FlagOf (read : List Char) (escaped : Bool) : Prop :=
  escaped = true ↔ ¬ Even (backslashRun read)

/-- How one character changes the flag. -/
theorem FlagOf.step {read : List Char} {escaped : Bool} (h : FlagOf read escaped) (c : Char) :
    FlagOf (read ++ [c]) (!escaped && c = '\\') := by
  unfold FlagOf at h ⊢
  by_cases hc : c = '\\'
  · rw [hc, backslashRun_concat_backslash, Nat.even_add_one, ← h]
    simp
  · rw [backslashRun_concat_of_ne hc]
    simp [hc]

/-- Unless the character ends it, the scan goes on with the flag that the character leaves. -/
theorem unescapedOffset?_cons {escaped : Bool} {c : Char} (h : ¬ (escaped = false ∧ c = '"'))
    (offset : ℕ) (cs : List Char) :
    unescapedOffset? escaped offset (c :: cs) =
      unescapedOffset? (!escaped && c = '\\') (offset + c.utf8Size) cs := by
  rw [unescapedOffset?]
  cases escaped with
  | true => rfl
  | false =>
    have hquote : c ≠ '"' := fun hc => h ⟨rfl, hc⟩
    by_cases hslash : c = '\\' <;> simp [hslash, hquote]

/-- From any place on, the scan finds the least offset of a quote with an even run. -/
theorem unescapedOffset?_eq_some_iff {read cs : List Char} {escaped : Bool}
    (h : FlagOf read escaped) {k : ℕ} :
    unescapedOffset? escaped (byteLength read) cs = some k ↔
      IsLeast {j | ClosesAfter read cs j} k := by
  induction cs generalizing read escaped with
  | nil =>
    constructor
    · intro hnone
      cases hnone
    · intro hleast
      exact absurd hleast.1 not_closesAfter_nil
  | cons c cs ih =>
    by_cases hend : escaped = false ∧ c = '"'
    · obtain ⟨rfl, rfl⟩ := hend
      have heven : Even (backslashRun read) := by
        by_contra hodd
        cases h.mpr hodd
      have hhere : IsLeast {j | ClosesAfter read ('"' :: cs) j} (byteLength read) :=
        ⟨closesAfter_cons_iff.mpr (.inl ⟨rfl, rfl, heven⟩), fun j hj => ClosesAfter.le hj⟩
      constructor
      · intro hk
        cases hk
        exact hhere
      · intro hk
        rw [IsLeast.unique hk hhere]
        rfl
    · have hlater : ∀ j, ClosesAfter read (c :: cs) j ↔ ClosesAfter (read ++ [c]) cs j := by
        intro j
        refine closesAfter_cons_iff.trans (or_iff_right ?_)
        rintro ⟨hc, -, heven⟩
        have hflag : escaped = false := Bool.eq_false_iff.mpr fun hup => h.mp hup heven
        exact hend ⟨hflag, hc⟩
      have hlength : byteLength read + c.utf8Size = byteLength (read ++ [c]) := by simp
      rw [unescapedOffset?_cons hend, hlength, ih (h.step c)]
      simp only [hlater]

theorem closingOffset?_eq_some_iff {cs : List Char} {k : ℕ} :
    closingOffset? ('"' :: cs) = some k ↔ IsLeast {j | ClosesAt ('"' :: cs) j} k := by
  have hflag : FlagOf ['"'] false := by
    unfold FlagOf
    decide
  simp only [closesAt_iff]
  exact unescapedOffset?_eq_some_iff hflag

/-- In a text that opens with a quote, the closing quote stands at the least byte offset past the
first at which a quote has an even run of backslashes before it. A text without such an offset has no
closing quote. -/
theorem closingOffset?_first_unescaped (cs : List Char) :
    (∀ k, closingOffset? ('"' :: cs) = some k ↔ IsLeast {j | ClosesAt ('"' :: cs) j} k) ∧
      (closingOffset? ('"' :: cs) = none ↔ ∀ j, ¬ ClosesAt ('"' :: cs) j) := by
  refine ⟨fun k => closingOffset?_eq_some_iff, ?_⟩
  constructor
  · intro hnone j hj
    classical
    have hleast := Nat.isLeast_find (p := fun j => ClosesAt ('"' :: cs) j) ⟨j, hj⟩
    rw [← closingOffset?_eq_some_iff, hnone] at hleast
    cases hleast
  · intro h
    rw [Option.eq_none_iff_forall_ne_some]
    intro k hk
    exact h k (closingOffset?_eq_some_iff.mp hk).1

-- three backslashes escape the quote after them, two do not; the letter takes two bytes
example : closingOffset? "\"é\\\\\\\"b\\\\\"c\"".toList = some 10 := by decide

end ComposeGuards.Text
