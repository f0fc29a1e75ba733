import ComposeGuards.Proofs.Listing.Cuts
import ComposeGuards.Proofs.Listing.ErrorLines
import ComposeGuards.Proofs.Listing.LineParts

/-! # Comments and blank lines

A line that says nothing leaves the progress as it is, so putting one into a text only moves the
lines below it down by one. A comment after a space leaves of its line what was there without it,
unless the line holds a literal, in which the space and the marker may lie.
-/
namespace ComposeGuards.Listing
open ComposeGuards.Text

/-- One line with nothing on it but blanks, or a comment after them. -/
structure SaysNothing (line : List Char) : Prop where
  oneLine : '\n' ∉ line
  nothing : trimStart line = [] ∨ opensComment (trimStart line) = true

/-- The text of a comment, up to the end of its line. -/
structure IsRemark (cs : List Char) : Prop where
  oneLine : '\n' ∉ cs
  opens : opensComment cs = true

instance (line : List Char) : Decidable (SaysNothing line) :=
  decidable_of_iff ('\n' ∉ line ∧ (trimStart line = [] ∨ opensComment (trimStart line) = true))
    ⟨fun h => ⟨h.1, h.2⟩, fun h => ⟨h.1, h.2⟩⟩

instance (cs : List Char) : Decidable (IsRemark cs) :=
  decidable_of_iff ('\n' ∉ cs ∧ opensComment cs = true) ⟨fun h => ⟨h.1, h.2⟩, fun h => ⟨h.1, h.2⟩⟩

namespace Error

/-- The error after one more line was put behind the first `k`. -/
def pushed (k : Nat) (e : Error) : Error :=
  match e.line? with
  | some n => if k < n then e.below 1 else e
  | none => e

theorem below_eq_self {e : Error} (h : e.line? = none) (k : Nat) : e.below k = e := by
  cases e with
  | unterminatedMethod method => rfl
  | undefinedLabel method label => rfl
  | _ => cases h

theorem pushed_eq_self {k : Nat} {e : Error} (h : ∀ n, e.line? = some n → n ≤ k) :
    e.pushed k = e := by
  unfold pushed
  split
  · next n hn => exact if_neg (Nat.not_lt.mpr (h n hn))
  · rfl

theorem pushed_eq_below {k : Nat} {e : Error} (h : ∀ n, e.line? = some n → k < n) :
    e.pushed k = e.below 1 := by
  unfold pushed
  split
  · next n hn => exact if_pos (h n hn)
  · next hn => exact (below_eq_self hn 1).symm

end Error

/-! ## Lines that say nothing -/

theorem uncommented_congr {raw raw' : List Char} (h : trim raw = trim raw') :
    uncommented raw = uncommented raw' := by
  rw [uncommented, uncommented, h]

theorem SaysNothing.uncommented_eq_nil {line : List Char} (h : SaysNothing line) :
    uncommented line = [] := by
  rcases h.nothing with hblank | hopen
  · exact uncommented_of_blank hblank
  · exact uncommented_of_comment hopen

theorem line?_of_readLines {p : Progress} {n k : Nat} {ls : List (List Char)} {e : Error}
    (h : readLines p n ls = .error e) (hk : e.line? = some k) : n ≤ k ∧ k < n + ls.length := by
  obtain ⟨before, raw, after, q, rfl, -, hrefused⟩ := readLines_eq_error_iff.mp h
  rw [hrefused.line?_eq hk, List.length_append, List.length_cons]
  omega

theorem readLines_skip {raw : List Char} (h : uncommented raw = []) (p : Progress) (n : Nat)
    (ls : List (List Char)) : readLines p n (raw :: ls) = readLines p (n + 1) ls := by
  have hstep : step p (raw, n) = .ok p := by rw [step_eq_ok_iff, if_pos h]
  rw [readLines_cons, hstep]
  rfl

/-- A line that says nothing moves the lines after it. -/
theorem readLines_insert {p : Progress} {raw : List Char} (h : uncommented raw = [])
    (xs ys : List (List Char)) :
    readLines p 1 (xs ++ raw :: ys) =
      (readLines p 1 (xs ++ ys)).mapError (Error.pushed xs.length) := by
  rw [readLines_append, readLines_append, mapError_bind]
  have hbefore : (readLines p 1 xs).mapError (Error.pushed xs.length) = readLines p 1 xs := by
    cases hxs : readLines p 1 xs with
    | ok q => rfl
    | error e =>
      refine congrArg Except.error (Error.pushed_eq_self fun n hn => ?_)
      have := line?_of_readLines hxs hn
      omega
  rw [hbefore]
  refine congrArg _ (funext fun q => ?_)
  calc readLines q (1 + xs.length) (raw :: ys)
      = readLines q (1 + xs.length + 1) ys := readLines_skip h _ _ _
    _ = (readLines q (1 + xs.length) ys).mapError (Error.below 1) := readLines_below _ _ _ _
    _ = (readLines q (1 + xs.length) ys).mapError (Error.pushed xs.length) := by
        refine mapError_congr fun e he => (Error.pushed_eq_below fun n hn => ?_).symm
        have := line?_of_readLines he hn
        omega

theorem close_pushed (p : Progress) (k : Nat) : p.close.mapError (Error.pushed k) = p.close := by
  unfold Progress.close
  split <;> rfl

/-- The line that a text of one line has, less a carriage return that belongs to its ending. -/
theorem exists_line {l r rest : List Char} (hl : '\n' ∉ l) (h : Ending r rest)
    (hne : l ++ r ≠ []) :
    ∃ raw, lines (l ++ r) = raw :: lines rest ∧ uncommented raw = uncommented l := by
  obtain ⟨raw, hraw, rfl | rfl⟩ := lines_append_ending hl h hne
  · exact ⟨l, hraw, rfl⟩
  · refine ⟨raw, hraw, uncommented_congr (trim_append_of_blank ?_ raw).symm⟩
    intro c hc
    rw [List.mem_singleton.mp hc]
    decide

theorem read_insert_line {a l : String} (ha : Closed a.toList) (hl : SaysNothing l.toList)
    (b : String) :
    read (a ++ l ++ "\n" ++ b) =
      (read (a ++ b)).mapError (Error.pushed (lines a.toList).length) := by
  have htext : (a ++ l ++ "\n" ++ b).toList = a.toList ++ (l.toList ++ '\n' :: b.toList) := by
    simp [String.toList_append]
  obtain ⟨raw, hraw, hsame⟩ := exists_line hl.oneLine (.lf b.toList) (by simp)
  rw [hl.uncommented_eq_nil] at hsame
  rw [read, read, htext, String.toList_append, lines_append ha, lines_append ha, hraw,
    mapError_bind, readLines_insert hsame]
  simp only [close_pushed]

theorem read_append_line {a l : String} (ha : Closed a.toList) (hl : SaysNothing l.toList) :
    read (a ++ l) = read a := by
  by_cases hnil : l.toList = []
  · rw [String.toList_eq_nil_iff.mp hnil, String.append_empty]
  · obtain ⟨raw, hraw, hsame⟩ := exists_line hl.oneLine .stop (by simpa using hnil)
    rw [hl.uncommented_eq_nil] at hsame
    rw [List.append_nil] at hraw
    have hlast : readLines {} 1 (lines a.toList ++ [raw]) = readLines {} 1 (lines a.toList) := by
      rw [readLines_append]
      simp only [readLines_skip hsame]
      exact bind_pure _
    rw [read, read, String.toList_append, lines_append ha, hraw]
    exact congrArg (· >>= Progress.close) hlast

/-! ## Comments after a line -/

theorem trimStart_space_cons {c : List Char} (hc : opensComment c = true) :
    trimStart (' ' :: c) = c := by
  rw [← List.singleton_append, trimStart_blanks_append (by simp [isBlank_space]),
    trimStart_eq_self fun d hd => head_not_blank_of_opensComment hc hd]

theorem IsRemark.saysNothing {c : List Char} (hc : IsRemark c) : SaysNothing (' ' :: c) where
  oneLine := by simp [hc.oneLine]
  nothing := .inr (by rw [trimStart_space_cons hc.opens, hc.opens])

/-- A comment after a space leaves what was there without it. -/
theorem uncommented_append_comment {l c : List Char} (hl : ¬ OpensLiteral (trimStart l))
    (hc : opensComment c = true) : uncommented (l ++ ' ' :: c) = uncommented l := by
  by_cases hblank : trimStart l = []
  · have hstart : trimStart (l ++ ' ' :: c) = c := by
      rw [trimStart_append_of_eq_nil hblank, trimStart_space_cons hc]
    rw [uncommented_of_blank hblank, uncommented_of_comment (by rw [hstart, hc])]
  · have hstart : trimStart (l ++ ' ' :: c) = trimStart l ++ ' ' :: c :=
      trimStart_append_of_ne_nil hblank _
    have hopens : opensComment (trimStart (l ++ ' ' :: c)) = opensComment (trimStart l) := by
      rw [hstart]
      exact opensComment_append_of_blank (fun d hd => by cases hd; exact isBlank_space) _
    cases hopen : opensComment (trimStart l) with
    | true => rw [uncommented_of_comment hopen, uncommented_of_comment (hopens.trans hopen)]
    | false =>
      have hquoted : quotedOperand? (trim l) = none := by
        rwa [quotedOperand?_eq_none_iff, trim, opensLiteral_trimEnd_iff]
      have hquoted' : quotedOperand? (trim (l ++ ' ' :: c)) = none := by
        rw [quotedOperand?_eq_none_iff, trim, opensLiteral_trimEnd_iff, hstart]
        exact fun h => hl (opensLiteral_of_append_comment hc h)
      rw [uncommented_of_unquoted hopen hquoted,
        uncommented_of_unquoted (hopens.trans hopen) hquoted', hstart,
        beforeComment_append_comment hc]

theorem forall₂_sameParts {xs ys : List (List Char)} {raw raw' : List Char}
    (h : SameParts raw raw') : List.Forall₂ SameParts (xs ++ raw :: ys) (xs ++ raw' :: ys) := by
  have hself : ∀ zs : List (List Char), List.Forall₂ SameParts zs zs :=
    fun zs => List.forall₂_same.mpr fun _ _ => rfl
  exact List.rel_append (hself xs) (.cons h (hself ys))

theorem read_append_remark {a l c r : String} (ha : Closed a.toList) (hl : '\n' ∉ l.toList)
    (hliteral : ¬ OpensLiteral (trimStart l.toList)) (hc : IsRemark c.toList)
    {rest : List Char} (hr : Ending r.toList rest) :
    (read (a ++ l ++ " " ++ c ++ r)).mapError Error.unquoted =
      (read (a ++ l ++ r)).mapError Error.unquoted := by
  have hl' : '\n' ∉ l.toList ++ ' ' :: c.toList := by simp [hl, hc.oneLine]
  have htext : (a ++ l ++ " " ++ c ++ r).toList =
      a.toList ++ ((l.toList ++ ' ' :: c.toList) ++ r.toList) := by
    simp [String.toList_append]
  by_cases hnil : l.toList ++ r.toList = []
  · -- there is no line yet, so the comment makes one
    obtain ⟨hnil, hnil'⟩ := List.append_eq_nil_iff.mp hnil
    rw [String.toList_eq_nil_iff] at hnil hnil'
    subst hnil hnil'
    have hsays : SaysNothing (" " ++ c).toList := by
      rw [String.toList_append]
      exact hc.saysNothing
    have hread := read_append_line ha hsays
    simp only [String.append_empty, String.append_assoc] at hread ⊢
    rw [hread]
  · obtain ⟨raw, hraw, hsame⟩ := exists_line hl hr hnil
    obtain ⟨raw', hraw', hsame'⟩ := exists_line hl' hr (by simp)
    rw [uncommented_append_comment hliteral hc.opens, ← hsame] at hsame'
    have htext' : (a ++ l ++ r).toList = a.toList ++ (l.toList ++ r.toList) := by
      simp [String.toList_append]
    refine read_unquoted ?_
    rw [htext, htext', lines_append ha, lines_append ha, hraw, hraw']
    exact forall₂_sameParts (congrArg parts hsame')

/-- Putting a line that says nothing into a text, where a line starts, leaves an accepted text
accepted with the same classes, and of an error only the number of a line below grows by one; at the
end of the text it may stay without a line feed. A space and a comment at the end of any line that
opens no literal change neither the classes nor an error, up to the line that it quotes. -/
theorem comments_and_blank_lines_transparent (a : String) (ha : Closed a.toList) :
    (∀ l : String, SaysNothing l.toList →
      (∀ b, read (a ++ l ++ "\n" ++ b) =
        (read (a ++ b)).mapError (Error.pushed (lines a.toList).length)) ∧
      read (a ++ l) = read a) ∧
    ∀ l c r : String, '\n' ∉ l.toList → ¬ OpensLiteral (trimStart l.toList) →
      IsRemark c.toList → (∃ rest, Ending r.toList rest) →
      (read (a ++ l ++ " " ++ c ++ r)).mapError Error.unquoted =
        (read (a ++ l ++ r)).mapError Error.unquoted :=
  ⟨fun _ hl => ⟨read_insert_line ha hl, read_append_line ha hl⟩,
    fun _ _ _ hl hliteral hc ⟨_, hr⟩ => read_append_remark ha hl hliteral hc hr⟩

/-- What a comment holds does not matter: here directives and quotes. -/
theorem remarks_around_invalid_label :
    read (".class A\n.method m ()V\n" ++ "\t// .end \"" ++ "\n" ++ "  IFNE top\r\n.end\n") =
        .error (.malformed 4 .invalidJumpLabel "  IFNE top") ∧
      read (".class A\n.method m ()V\n" ++ "\t// .end \"") = .error (.unterminatedMethod "m") ∧
      (read (".class A\n.method m ()V\n" ++ "  IFNE top" ++ " " ++ "# LDC \"L0" ++
          "\r\n.end\n")).mapError Error.unquoted =
        .error (.malformed 3 .invalidJumpLabel "") := by
  have hread : read (".class A\n.method m ()V\n" ++ "  IFNE top\r\n.end\n") =
      .error (.malformed 3 .invalidJumpLabel "  IFNE top") := by rfl
  have hopen : read ".class A\n.method m ()V\n" = .error (.unterminatedMethod "m") := by rfl
  obtain ⟨hline, hremark⟩ :=
    comments_and_blank_lines_transparent ".class A\n.method m ()V\n" (by decide)
  obtain ⟨hinsert, hlast⟩ := hline "\t// .end \"" (by decide)
  refine ⟨?_, hlast.trans hopen, ?_⟩
  · rw [hinsert, hread]
    rfl
  · have hliteral : ¬ OpensLiteral (trimStart "  IFNE top".toList) := by
      rintro ⟨gap, -, rest, hrest⟩
      cases hrest
    refine (hremark "  IFNE top" "# LDC \"L0" "\r\n.end\n" (by decide) hliteral (by decide)
      ⟨_, .crlf _⟩).trans ?_
    rfl

end ComposeGuards.Listing
