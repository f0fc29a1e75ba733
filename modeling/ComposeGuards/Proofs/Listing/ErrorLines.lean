import ComposeGuards.Proofs.Listing.Refusals
import ComposeGuards.Proofs.Text.FirstLines

/-! # The line that an error names

An error of one line names the number of that line and quotes the line as it stands in the text. The
lines before it are accepted, and nothing after it is looked at, so an error that names a line is
about the first line with which something is wrong.
-/
namespace ComposeGuards.Listing
open ComposeGuards.Text

/-- The line that the error quotes, if it quotes one. -/
def Error.quoted? : Error → Option String
  | malformed _ _ raw => some raw
  | unknownMnemonic _ _ | outsideMethod _ | unterminatedMethod _ | duplicateLabel _ _
  | undefinedLabel _ _ => none

theorem InstructionError.line?_at (e : InstructionError) (n : Nat) (raw : String) :
    (e.at n raw).line? = some n := by
  cases e <;> rfl

theorem InstructionError.eq_of_quoted?_at {e : InstructionError} {n : Nat} {raw quote : String}
    (h : (e.at n raw).quoted? = some quote) : quote = raw := by
  cases e with
  | fault f => cases h; rfl
  | unknownMnemonic word => cases h

section Refused
variable {line raw : List Char} {n : Nat} {p : Progress} {e : Error}

theorem Refuses.line?_eq (h : Refuses line n raw p e) {k : Nat} (hk : e.line? = some k) :
    k = n := by
  cases h with
  | instruction _ _ _ => rw [InstructionError.line?_at] at hk; cases hk; rfl
  | _ => cases hk <;> rfl

theorem Refuses.quoted?_eq (h : Refuses line n raw p e) {quote : String}
    (hq : e.quoted? = some quote) : quote = String.ofList raw := by
  cases h with
  | instruction _ _ _ => exact InstructionError.eq_of_quoted?_at hq
  | _ => cases hq <;> rfl

end Refused

/-- An error that names a line comes from the first line that is refused. -/
theorem exists_refused_line {text : String} {e : Error} {n : Nat} (h : read text = .error e)
    (hn : e.line? = some n) :
    ∃ before raw after q, lines text.toList = before ++ raw :: after ∧ n = before.length + 1 ∧
      readLines {} 1 before = .ok q ∧ Refuses (uncommented raw) n raw q e := by
  rcases read_eq_error_iff.mp h with hlines | ⟨cs, m, -, rfl⟩
  · obtain ⟨before, raw, after, q, htext, hq, hrefused⟩ := readLines_eq_error_iff.mp hlines
    have hnumber : n = 1 + before.length := hrefused.line?_eq hn
    rw [← hnumber] at hrefused
    exact ⟨before, raw, after, q, htext, by omega, hq, hrefused⟩
  · cases hn

/-- Accepted lines are a listing, or the beginning of one that stops inside a method. -/
theorem read_of_readLines_eq_ok {text : String} {q : Progress}
    (h : readLines {} 1 (lines text.toList) = .ok q) :
    (∃ cs, read text = .ok cs) ∨ ∃ name, read text = .error (.unterminatedMethod name) := by
  obtain ⟨cs, current⟩ := q
  cases current with
  | none => exact .inl ⟨cs, by rw [read, h]; rfl⟩
  | some m => exact .inr ⟨m.name, by rw [read, h]; rfl⟩

/-- A line that is refused after the lines before it decides the reading. -/
theorem read_eq_error_of_refuses {text : String} {before after : List (List Char)}
    {raw : List Char} {q : Progress} {e : Error}
    (htext : lines text.toList = before ++ raw :: after)
    (hq : readLines {} 1 before = .ok q)
    (he : Refuses (uncommented raw) (before.length + 1) raw q e) : read text = .error e := by
  rw [Nat.add_comm] at he
  exact read_eq_error_iff.mpr
    (.inl (readLines_eq_error_iff.mpr ⟨before, raw, after, q, htext, hq, he⟩))

/-- An error that names a line names one of the text, and if it quotes a line then that one as it
stands. The lines before it are read without an error, except that they may end inside a method; and
if the line ends in a line feed, whatever follows it may be changed without changing the error. -/
theorem error_names_first_refused_line {text : String} {e : Error} {n : Nat}
    (h : read text = .error e) (hn : e.line? = some n) :
    1 ≤ n ∧ n ≤ (lines text.toList).length ∧
      (∀ raw, e.quoted? = some raw → (lines text.toList)[n - 1]? = some raw.toList) ∧
      ((∃ cs, read (beginning text (n - 1)) = .ok cs) ∨
        ∃ name, read (beginning text (n - 1)) = .error (.unterminatedMethod name)) ∧
      ((beginning text n).toList.getLast? = some '\n' →
        ∀ rest, read (beginning text n ++ rest) = .error e) := by
  obtain ⟨before, raw, after, q, htext, rfl, hq, hrefused⟩ := exists_refused_line h hn
  have hbefore : (lines text.toList).take before.length = before := by rw [htext]; simp
  have hupto : (lines text.toList).take (before.length + 1) = before ++ [raw] := by
    rw [htext, List.append_cons]
    exact List.take_left' (by simp)
  refine ⟨by omega, by rw [htext]; simp, ?_, ?_, ?_⟩
  · intro quote hquote
    rw [hrefused.quoted?_eq hquote, htext]
    simp
  · have hread : readLines {} 1 (lines (beginning text before.length).toList) = .ok q := by
      rw [lines_beginning, hbefore]
      exact hq
    exact read_of_readLines_eq_ok hread
  · intro hlast rest
    have hlines : lines (beginning text (before.length + 1) ++ rest).toList =
        before ++ raw :: lines rest.toList := by
      rw [String.toList_append, lines_append (.inr hlast), lines_beginning, hupto,
        List.append_assoc]
      rfl
    exact read_eq_error_of_refuses hlines hq hrefused

/-- Blank lines and comments count, and the quoted line keeps its indentation and its comment. -/
theorem invalid_jump_label_named_at_fifth_line :
    read "# top\n.class A\r\n\n.method m ()V\n  IFNE top // up\r\n.end\n" =
        .error (.malformed 5 .invalidJumpLabel "  IFNE top // up") ∧
      (lines "# top\n.class A\r\n\n.method m ()V\n  IFNE top // up\r\n.end\n".toList)[4]? =
        some "  IFNE top // up".toList ∧
      ∀ rest, read ("# top\n.class A\r\n\n.method m ()V\n  IFNE top // up\r\n" ++ rest) =
        .error (.malformed 5 .invalidJumpLabel "  IFNE top // up") := by
  have hread : read "# top\n.class A\r\n\n.method m ()V\n  IFNE top // up\r\n.end\n" =
      .error (.malformed 5 .invalidJumpLabel "  IFNE top // up") := by rfl
  obtain ⟨-, -, hquote, -, hrest⟩ := error_names_first_refused_line hread rfl
  exact ⟨hread, hquote _ rfl, hrest (by decide)⟩

end ComposeGuards.Listing
