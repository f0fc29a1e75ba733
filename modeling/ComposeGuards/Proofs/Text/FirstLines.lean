import ComposeGuards.Proofs.Text.LineBreaks

/-! # Texts cut between two lines

A text is closed if it is empty or ends in a line feed. What is written after a closed text starts on
a line of its own, so the lines of both are simply put together. The first lines of a text are a
prefix of it that keeps every character, line endings included. A text cut between a line and its
ending can be continued on that line.
-/
namespace ComposeGuards.Text

/-- The last line, if there is one, has its line ending. -/
def Closed (cs : List Char) : Prop :=
  cs = [] ∨ cs.getLast? = some '\n'

/-- The text up to and with its `n`-th line feed, or the whole text if it has fewer. -/
def firstLines : Nat → List Char → List Char
  | 0, _ => []
  | _ + 1, [] => []
  | n + 1, c :: cs => if c = '\n' then c :: firstLines n cs else c :: firstLines (n + 1) cs

/-- The first lines of a text, with their line endings. -/
def beginning (text : String) (n : Nat) : String :=
  String.ofList (firstLines n text.toList)

instance (cs : List Char) : Decidable (Closed cs) :=
  inferInstanceAs (Decidable (_ ∨ _))

theorem Closed.tail {c : Char} {cs : List Char} (h : Closed (c :: cs)) : Closed cs := by
  rcases h with h | h
  · cases h
  · cases cs with
    | nil => exact .inl rfl
    | cons d cs => exact .inr (by rwa [List.getLast?_cons_cons] at h)

theorem Closed.eq_lf_of_singleton {c : Char} (h : Closed [c]) : c = '\n' := by
  simpa [Closed] using h

theorem lines_singleton {c : Char} (hc : c ≠ '\n') : lines [c] = [[c]] := by
  rw [lines]
  · rfl
  · exact hc
  · rintro tail - htail
    cases htail

/-- The lines of a text that starts with a character of its first line. -/
theorem lines_cons {c : Char} {cs line : List Char} {rest : List (List Char)} (hc : c ≠ '\n')
    (hpair : ∀ tail, c = '\r' → cs = '\n' :: tail → False) (h : lines cs = line :: rest) :
    lines (c :: cs) = (c :: line) :: rest := by
  rw [lines, h]
  · exact hc
  · exact hpair

theorem lines_append {p : List Char} (hp : Closed p) (s : List Char) :
    lines (p ++ s) = lines p ++ lines s := by
  fun_induction lines p with
  | case1 => rfl
  | case2 p ih => simp [lines, ih hp.tail]
  | case3 p ih => simp [lines, ih hp.tail.tail]
  | case4 c p hc _ hnil _ =>
    -- a last line without its line feed is not closed
    rw [lines_eq_nil_iff.mp hnil] at hp
    exact absurd hp.eq_lf_of_singleton hc
  | case5 c p hc hpair line rest hrest ih =>
    have hlines : lines (p ++ s) = line :: (rest ++ lines s) := by rw [ih hp.tail, hrest]; rfl
    refine lines_cons hc ?_ hlines
    intro tail hcr htail
    cases p with
    | nil => cases hrest
    | cons d p =>
      have hd : d = '\n' := (List.cons.inj htail).1
      exact hpair p hcr (by rw [hd])

theorem firstLines_isPrefix (n : Nat) (cs : List Char) : firstLines n cs <+: cs := by
  fun_induction firstLines n cs with
  | case1 => exact List.nil_prefix
  | case2 => exact List.nil_prefix
  | case3 n cs ih => exact List.cons_prefix_cons.mpr ⟨rfl, ih⟩
  | case4 n c cs _ ih => exact List.cons_prefix_cons.mpr ⟨rfl, ih⟩

theorem lines_firstLines (n : Nat) (cs : List Char) :
    lines (firstLines n cs) = (lines cs).take n := by
  fun_induction lines cs generalizing n with
  | case1 => cases n <;> rfl
  | case2 cs ih =>
    cases n with
    | zero => rfl
    | succ n => simp [firstLines, lines, ih]
  | case3 cs ih =>
    cases n with
    | zero => rfl
    | succ n => simp [firstLines, lines, ih]
  | case4 c cs hc _ hnil _ =>
    cases n with
    | zero => rfl
    | succ n =>
      rw [lines_eq_nil_iff.mp hnil, firstLines, if_neg hc, firstLines, lines_singleton hc,
        List.take_succ_cons, List.take_nil]
  | case5 c cs hc hpair line rest hrest ih =>
    cases n with
    | zero => rfl
    | succ n =>
      have hlines : lines (firstLines (n + 1) cs) = line :: rest.take n := by rw [ih, hrest]; rfl
      rw [firstLines, if_neg hc]
      refine lines_cons hc ?_ hlines
      intro tail hcr htail
      obtain ⟨after, hafter⟩ := firstLines_isPrefix (n + 1) cs
      exact hpair (tail ++ after) hcr (by rw [← hafter, htail]; rfl)

theorem lines_beginning (text : String) (n : Nat) :
    lines (beginning text n).toList = (lines text.toList).take n := by
  rw [beginning, String.toList_ofList, lines_firstLines]

/-! ## Between a line and its ending -/

/-- What can follow a line, and what is left of it after the line ending. -/
inductive Ending : List Char → List Char → Prop
  | stop : Ending [] []
  | lf (rest : List Char) : Ending ('\n' :: rest) rest
  | crlf (rest : List Char) : Ending ('\r' :: '\n' :: rest) rest

/-- A carriage return at the end of the line becomes part of the line ending. -/
theorem lines_append_ending {l r rest : List Char} (hl : '\n' ∉ l) (h : Ending r rest)
    (hne : l ++ r ≠ []) :
    ∃ raw, lines (l ++ r) = raw :: lines rest ∧ (l = raw ∨ l = raw ++ ['\r']) := by
  induction l with
  | nil =>
    cases h with
    | stop => exact absurd rfl hne
    | lf => exact ⟨[], rfl, .inl rfl⟩
    | crlf => exact ⟨[], rfl, .inl rfl⟩
  | cons c l ih =>
    have hc : c ≠ '\n' := by rintro rfl; exact hl List.mem_cons_self
    have htail : '\n' ∉ l := fun hmem => hl (List.mem_cons_of_mem c hmem)
    by_cases hnil : l ++ r = []
    · obtain ⟨rfl, rfl⟩ := List.append_eq_nil_iff.mp hnil
      cases h
      exact ⟨[c], lines_singleton hc, .inl rfl⟩
    · by_cases hpair : ∃ tail, c = '\r' ∧ l ++ r = '\n' :: tail
      · obtain ⟨tail, rfl, htext⟩ := hpair
        cases l with
        | nil =>
          rw [List.nil_append] at htext
          subst htext
          cases h
          exact ⟨[], rfl, .inr rfl⟩
        | cons d l =>
          cases htext
          exact absurd List.mem_cons_self htail
      · obtain ⟨raw, hraw, hl'⟩ := ih htail hnil
        refine ⟨c :: raw, lines_cons hc (fun tail hcr htext => hpair ⟨tail, hcr, htext⟩) hraw, ?_⟩
        rcases hl' with rfl | rfl
        · exact .inl rfl
        · exact .inr rfl

end ComposeGuards.Text
