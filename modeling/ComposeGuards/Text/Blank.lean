/-! # Blank characters, trimming and words

A character is blank when it has the Unicode property `White_Space`. Trimming and splitting into
words use this one class, so a word is a maximal run of characters that are not blank.
-/
namespace ComposeGuards.Text

/-- The characters with the Unicode property `White_Space`, as inclusive code point ranges. -/
def blankRanges : List (Nat × Nat) :=
  [(0x09, 0x0d), (0x20, 0x20), (0x85, 0x85), (0xa0, 0xa0), (0x1680, 0x1680), (0x2000, 0x200a),
    (0x2028, 0x2029), (0x202f, 0x202f), (0x205f, 0x205f), (0x3000, 0x3000)]

def isBlank (c : Char) : Bool :=
  blankRanges.any fun r => r.1 ≤ c.toNat && c.toNat ≤ r.2

def trimStart (cs : List Char) : List Char :=
  cs.dropWhile isBlank

/-- Drops the blanks that nothing but blanks follows. -/
def trimEnd : List Char → List Char
  | [] => []
  | c :: cs =>
    match trimEnd cs with
    | [] => if isBlank c then [] else [c]
    | rest => c :: rest

def trim (cs : List Char) : List Char :=
  trimEnd (trimStart cs)

/-- The maximal runs without blanks, in order. -/
def words (cs : List Char) : List String :=
  ((cs.splitOnP isBlank).filter fun w => !w.isEmpty).map String.ofList

/-- What follows the first word, trimmed. -/
def afterFirstWord (cs : List Char) : List Char :=
  trim ((trimStart cs).dropWhile fun c => !isBlank c)

theorem trimEnd_cons_of_ne_nil {c : Char} {cs : List Char} (h : trimEnd cs ≠ []) :
    trimEnd (c :: cs) = c :: trimEnd cs := by
  cases hr : trimEnd cs with
  | nil => exact absurd hr h
  | cons d ds => simp [trimEnd, hr]

/-- Trimming at the end removes a run of blanks and nothing else. -/
theorem trimEnd_append_blanks (cs : List Char) :
    ∃ bs, cs = trimEnd cs ++ bs ∧ bs.all isBlank = true := by
  induction cs with
  | nil => exact ⟨[], by simp [trimEnd]⟩
  | cons c cs ih =>
    obtain ⟨bs, hcs, hbs⟩ := ih
    by_cases hr : trimEnd cs = []
    · rw [hr, List.nil_append] at hcs
      by_cases hc : isBlank c = true
      · have ht : trimEnd (c :: cs) = [] := by simp [trimEnd, hr, hc]
        exact ⟨c :: bs, by rw [ht, ← hcs]; rfl, by simp [hc, hbs]⟩
      · have ht : trimEnd (c :: cs) = [c] := by simp [trimEnd, hr, hc]
        exact ⟨bs, by rw [ht, ← hcs]; rfl, hbs⟩
    · refine ⟨bs, ?_, hbs⟩
      rw [trimEnd_cons_of_ne_nil hr, List.cons_append, ← hcs]

end ComposeGuards.Text
