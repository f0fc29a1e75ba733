import ComposeGuards.Proofs.Listing.Grammar

/-! # Listings whose labels are left open

The outline of a listing is its grammar without the condition on labels: every line is well formed
by itself, and the lines are bracketed into classes and methods. The relation `Arranges` says what a
line does to the progress of a reading if labels are not checked. Along an outlined listing it
determines the progress after every line, and with bound labels the outline is the grammar.
-/
namespace ComposeGuards.Listing
open ComposeGuards.Text

/-- The lines of a method, whatever labels it defines and uses. -/
inductive OutlinesMethod : List (List Char) → Method → Prop
  | lines {first last : List Char} {name desc : String} {extra extra' : List String}
      {ls : List (List Char)} {es : List Entry}
      (header : words first = ".method" :: name :: desc :: extra)
      (entries : List.Forall₂ IsEntry ls es)
      (ending : words last = ".end" :: extra') :
      OutlinesMethod (first :: (ls ++ [last])) (methodOf name desc es)

/-- The lines of a class, whatever labels its methods define and use. -/
inductive OutlinesClass : List (List Char) → ClassUnit → Prop
  | plain {first : List Char} {name : String} {blocks : List (List (List Char))}
      {ms : List Method} (header : words first = [".class", name])
      (methods : List.Forall₂ OutlinesMethod blocks ms) :
      OutlinesClass (first :: blocks.flatten) ⟨name, false, ms⟩
  | kotlin {first : List Char} {name : String} {extra : List String}
      {blocks : List (List (List Char))} {ms : List Method}
      (header : words first = ".class" :: name :: "kotlin" :: extra)
      (methods : List.Forall₂ OutlinesMethod blocks ms) :
      OutlinesClass (first :: blocks.flatten) ⟨name, true, ms⟩

/-- The lines are well formed one by one and bracketed into these classes and methods. -/
def Outlines (ls : List (List Char)) (cs : List ClassUnit) : Prop :=
  ∃ blocks : List (List (List Char)), ls = blocks.flatten ∧ List.Forall₂ OutlinesClass blocks cs

/-- What a line does to the progress of a reading, labels aside. -/
inductive Arranges (line : List Char) : Progress → Progress → Prop
  | classHeader {cs : List ClassUnit} {name : String} (words : words line = [".class", name]) :
      Arranges line ⟨cs, none⟩ ⟨cs ++ [⟨name, false, []⟩], none⟩
  | kotlinHeader {cs : List ClassUnit} {name : String} {extra : List String}
      (words : words line = ".class" :: name :: "kotlin" :: extra) :
      Arranges line ⟨cs, none⟩ ⟨cs ++ [⟨name, true, []⟩], none⟩
  | methodHeader {cs : List ClassUnit} {name desc : String} {extra : List String}
      (words : words line = ".method" :: name :: desc :: extra) (inClass : cs ≠ []) :
      Arranges line ⟨cs, none⟩ ⟨cs, some { name, desc }⟩
  | entry {cs : List ClassUnit} {m : Method} {e : Entry} (entry : IsEntry line e) :
      Arranges line ⟨cs, some m⟩ ⟨cs, some (addEntry m e)⟩
  | methodEnd {cs : List ClassUnit} {m : Method} {extra : List String}
      (words : words line = ".end" :: extra) :
      Arranges line ⟨cs, some m⟩ ⟨attach m cs, none⟩

/-- A sequence of lines, labels aside. -/
inductive Arranged : Progress → List (List Char) → Progress → Prop
  | done {p : Progress} : Arranged p [] p
  | line {p q r : Progress} {line : List Char} {rest : List (List Char)}
      (first : Arranges line p q) (next : Arranged q rest r) : Arranged p (line :: rest) r

section Arranged
variable {p q r : Progress} {xs ys : List (List Char)} {line : List Char}

theorem Arranged.append (h : Arranged p xs q) (h' : Arranged q ys r) : Arranged p (xs ++ ys) r := by
  induction h with
  | done => exact h'
  | line first _ ih => exact .line first (ih h')

theorem Arranged.single (h : Arranges line p q) : Arranged p [line] q := .line h .done

theorem Arranged.exists_of_append (h : Arranged p (xs ++ ys) r) :
    ∃ q, Arranged p xs q ∧ Arranged q ys r := by
  induction xs generalizing p with
  | nil => exact ⟨p, .done, h⟩
  | cons x xs ih =>
    cases h with
    | line first next =>
      obtain ⟨q, hxs, hys⟩ := ih next
      exact ⟨q, .line first hxs, hys⟩

theorem Advances.arranges (h : Advances line p q) : Arranges line p q := by
  cases h with
  | classHeader words => exact .classHeader words
  | kotlinHeader words => exact .kotlinHeader words
  | methodHeader words inClass => exact .methodHeader words inClass
  | entry entry fresh => exact .entry entry
  | methodEnd words defined => exact .methodEnd words

theorem Runs.arranged (h : Runs p xs q) : Arranged p xs q := by
  induction h with
  | done => exact .done
  | line first _ ih => exact .line first.arranges ih

end Arranged

/-! ## The progress is determined -/

/-- A line between the header and the end of a method is no other directive. -/
theorem IsEntry.eq_annotationLine {line : List Char} {e : Entry} {d : Directive} {ws : List String}
    (h : IsEntry line e) (hw : words line = d.word :: ws) : d = .annotationLine := by
  cases h with
  | annotated words => exact (Directive.eq_of_words_eq .annotationLine hw words).1
  | instruction words other read => exact absurd hw (Directive.words_ne words other d ws)

theorem retentionWord_injective {r r' : Retention} (h : retentionWord r = retentionWord r') :
    r = r' := by
  revert h
  cases r <;> cases r' <;> decide

theorem IsEntry.unique {line : List Char} {e e' : Entry} (h : IsEntry line e)
    (h' : IsEntry line e') : e = e' := by
  cases h with
  | annotated words =>
    cases h' with
    | annotated words' =>
      rw [words] at words'
      simp only [List.cons.injEq, true_and] at words'
      obtain ⟨hretention, rfl, -⟩ := words'
      rw [retentionWord_injective hretention]
    | instruction words' other =>
      exact absurd words (Directive.words_ne words' other .annotationLine _)
  | instruction words other read =>
    cases h' with
    | annotated words' => exact absurd words' (Directive.words_ne words other .annotationLine _)
    | instruction words' other' read' =>
      rw [read] at read'
      cases read'
      rfl

theorem words_ne_methodHeader {line : List Char} {ws : List String}
    (h : words line = ".class" :: ws) (rest : List String) : words line ≠ ".method" :: rest := by
  intro hmethod
  cases (Directive.eq_of_words_eq (d := .classHeader) .methodHeader h hmethod).1

theorem Arranges.unique {line : List Char} {p q q' : Progress} (h : Arranges line p q)
    (h' : Arranges line p q') : q = q' := by
  cases h with
  | classHeader words =>
    cases h' with
    | classHeader words' => rw [words] at words'; cases words'; rfl
    | kotlinHeader words' => rw [words] at words'; cases words'
    | methodHeader words' => exact absurd words' (words_ne_methodHeader words _)
  | kotlinHeader words =>
    cases h' with
    | classHeader words' => rw [words] at words'; cases words'
    | kotlinHeader words' => rw [words] at words'; cases words'; rfl
    | methodHeader words' => exact absurd words' (words_ne_methodHeader words _)
  | methodHeader words =>
    cases h' with
    | classHeader words' => exact absurd words (words_ne_methodHeader words' _)
    | kotlinHeader words' => exact absurd words (words_ne_methodHeader words' _)
    | methodHeader words' => rw [words] at words'; cases words'; rfl
  | entry entry =>
    cases h' with
    | entry entry' => rw [entry.unique entry']
    | methodEnd words' => cases entry.eq_annotationLine (d := .methodEnd) words'
  | methodEnd words =>
    cases h' with
    | entry entry' => cases entry'.eq_annotationLine (d := .methodEnd) words
    | methodEnd words' => rfl

theorem Arranged.unique {p q q' : Progress} {ls : List (List Char)} (h : Arranged p ls q)
    (h' : Arranged p ls q') : q = q' := by
  induction h with
  | done => cases h'; rfl
  | line first _ ih =>
    cases h' with
    | line first' next' =>
      rw [← first.unique first'] at next'
      exact ih next'

/-! ## The grammar is the outline with bound labels -/

theorem forall₂_imp_of_mem_right {α β : Type} {R S : α → β → Prop} {xs : List α} {ys : List β}
    (h : List.Forall₂ R xs ys) (himp : ∀ b ∈ ys, ∀ a, R a b → S a b) : List.Forall₂ S xs ys := by
  induction h with
  | nil => exact .nil
  | cons hxy _ ih =>
    obtain ⟨hy, hys⟩ := List.forall_mem_cons.mp himp
    exact .cons (hy _ hxy) (ih hys)

section Bound
variable {ls : List (List Char)} {m : Method} {c : ClassUnit} {cs : List ClassUnit}

theorem OutlinesMethod.isMethod (h : OutlinesMethod ls m) (labels : m.body.LabelsBound) :
    IsMethod ls m := by
  cases h with
  | lines header entries ending => exact .lines header entries labels ending

theorem OutlinesClass.isClass (h : OutlinesClass ls c)
    (labels : ∀ m ∈ c.methods, m.body.LabelsBound) : IsClass ls c := by
  cases h with
  | plain header methods =>
    exact .plain header (forall₂_imp_of_mem_right methods fun m hm _ h => h.isMethod (labels m hm))
  | kotlin header methods =>
    exact .kotlin header (forall₂_imp_of_mem_right methods fun m hm _ h => h.isMethod (labels m hm))

theorem Outlines.isListing (h : Outlines ls cs)
    (labels : ∀ c ∈ cs, ∀ m ∈ c.methods, m.body.LabelsBound) : IsListing ls cs := by
  obtain ⟨blocks, rfl, hblocks⟩ := h
  exact ⟨blocks, rfl, forall₂_imp_of_mem_right hblocks fun c hc _ h => h.isClass (labels c hc)⟩

end Bound

/-! ## From the outline to the progress -/

theorem arranged_entries {cs : List ClassUnit} {name desc : String} {ls : List (List Char)}
    {es before : List Entry} (h : List.Forall₂ IsEntry ls es) :
    Arranged ⟨cs, some (methodOf name desc before)⟩ ls
      ⟨cs, some (methodOf name desc (before ++ es))⟩ := by
  induction h generalizing before with
  | nil => rw [List.append_nil]; exact .done
  | @cons line e ls es he _ ih =>
    have hfirst : Arranges line ⟨cs, some (methodOf name desc before)⟩
        ⟨cs, some (methodOf name desc (before ++ [e]))⟩ := by
      rw [methodOf_append_singleton]
      exact .entry he
    rw [List.append_cons]
    exact .line hfirst ih

theorem OutlinesMethod.arranged {cs : List ClassUnit} {c : ClassUnit} {ls : List (List Char)}
    {m : Method} (h : OutlinesMethod ls m) :
    Arranged ⟨cs ++ [c], none⟩ ls ⟨cs ++ [{ c with methods := c.methods ++ [m] }], none⟩ := by
  cases h with
  | @lines first last name desc extra extra' ls es header entries ending =>
    have hentries : Arranged ⟨cs ++ [c], some (methodOf name desc [])⟩ ls
        ⟨cs ++ [c], some (methodOf name desc es)⟩ := arranged_entries entries
    have hend : Arranges last ⟨cs ++ [c], some (methodOf name desc es)⟩
        ⟨attach (methodOf name desc es) (cs ++ [c]), none⟩ := .methodEnd ending
    rw [attach_append_singleton] at hend
    exact .line (.methodHeader header (by simp)) (hentries.append (.single hend))

theorem arranged_methods {cs : List ClassUnit} {c : ClassUnit} {blocks : List (List (List Char))}
    {ms : List Method} (h : List.Forall₂ OutlinesMethod blocks ms) :
    Arranged ⟨cs ++ [c], none⟩ blocks.flatten
      ⟨cs ++ [{ c with methods := c.methods ++ ms }], none⟩ := by
  induction h generalizing c with
  | nil => rw [List.append_nil]; exact .done
  | @cons ls m blocks ms hm _ ih =>
    have hrest := ih (c := { c with methods := c.methods ++ [m] })
    rw [List.append_cons c.methods m ms]
    exact hm.arranged.append hrest

theorem OutlinesClass.arranged {cs : List ClassUnit} {c : ClassUnit} {ls : List (List Char)}
    (h : OutlinesClass ls c) : Arranged ⟨cs, none⟩ ls ⟨cs ++ [c], none⟩ := by
  cases h with
  | plain header methods => exact .line (.classHeader header) (arranged_methods methods)
  | kotlin header methods => exact .line (.kotlinHeader header) (arranged_methods methods)

theorem Outlines.arranged_after {before cs : List ClassUnit} {ls : List (List Char)}
    (h : Outlines ls cs) : Arranged ⟨before, none⟩ ls ⟨before ++ cs, none⟩ := by
  obtain ⟨blocks, rfl, hblocks⟩ := h
  induction hblocks generalizing before with
  | nil => rw [List.append_nil]; exact .done
  | @cons ls c blocks cs hc _ ih =>
    rw [List.append_cons]
    exact hc.arranged.append ih

theorem Outlines.arranged {cs : List ClassUnit} {ls : List (List Char)} (h : Outlines ls cs) :
    Arranged {} ls ⟨cs, none⟩ :=
  h.arranged_after

end ComposeGuards.Listing
