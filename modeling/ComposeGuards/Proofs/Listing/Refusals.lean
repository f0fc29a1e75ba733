import ComposeGuards.Proofs.Listing.Steps

/-! # What one refused line is

The relation `Refuses` is the counterpart of `Advances`: it says for which lines the reading stops,
and with which error. A reading of several lines fails with the error of the first line that is
refused after the lines before it were accepted.
-/
namespace ComposeGuards.Listing
open ComposeGuards.Text

/-- Everything that a refused line can be; `line` is the line `raw`, which has the number `n`,
without its comment. -/
inductive Refuses (line : List Char) (n : Nat) (raw : List Char) : Progress → Error → Prop
  | classInMethod {cs : List ClassUnit} {m : Method} {ws : List String}
      (words : words line = ".class" :: ws) :
      Refuses line n raw ⟨cs, some m⟩ (.unterminatedMethod m.name)
  | methodInMethod {cs : List ClassUnit} {m : Method} {ws : List String}
      (words : words line = ".method" :: ws) :
      Refuses line n raw ⟨cs, some m⟩ (.unterminatedMethod m.name)
  | classHeader {cs : List ClassUnit} {ws : List String} {f : Fault}
      (words : words line = ".class" :: ws) (fault : readClassHeader ws = .error f) :
      Refuses line n raw ⟨cs, none⟩ (.malformed n f (String.ofList raw))
  | outsideClass {ws : List String} (words : words line = ".method" :: ws) :
      Refuses line n raw ⟨[], none⟩ (.malformed n .methodOutsideClass (String.ofList raw))
  | methodHeader {cs : List ClassUnit} {ws : List String} {f : Fault}
      (words : words line = ".method" :: ws) (inClass : cs ≠ [])
      (fault : readMethodHeader ws = .error f) :
      Refuses line n raw ⟨cs, none⟩ (.malformed n f (String.ofList raw))
  | outsideMethod {cs : List ClassUnit} {head : String} {ws : List String}
      (words : words line = head :: ws) (noClass : head ≠ ".class") (noMethod : head ≠ ".method") :
      Refuses line n raw ⟨cs, none⟩ (.outsideMethod n)
  | annotationLine {cs : List ClassUnit} {m : Method} {ws : List String} {f : Fault}
      (words : words line = ".annotation" :: ws) (fault : readAnnotationLine ws = .error f) :
      Refuses line n raw ⟨cs, some m⟩ (.malformed n f (String.ofList raw))
  | instruction {cs : List ClassUnit} {m : Method} {head : String} {ws : List String}
      {e : InstructionError} (words : words line = head :: ws) (other : head ∉ directives)
      (refused : readInstruction line = .error e) :
      Refuses line n raw ⟨cs, some m⟩ (e.at n (String.ofList raw))
  | definedTwice {cs : List ClassUnit} {m : Method} {head : String} {ws : List String}
      {i : Instruction} {l : Label} (words : words line = head :: ws) (other : head ∉ directives)
      (read : readInstruction line = .ok i) (defines : i.defines? = some l)
      (before : l ∈ m.body.definedLabels) :
      Refuses line n raw ⟨cs, some m⟩ (.duplicateLabel n l)
  | methodEnd {cs : List ClassUnit} {m : Method} {ws : List String} {l : Label} {ls : List Label}
      (words : words line = ".end" :: ws) (undefined : m.body.undefinedLabels = l :: ls) :
      Refuses line n raw ⟨cs, some m⟩ (.undefinedLabel m.name l)

/-! ## The readers of the parts -/

theorem bind_eq_error_iff {ε α β : Type} {x : Except ε α} {f : α → Except ε β} {e : ε} :
    (x >>= f) = .error e ↔ x = .error e ∨ ∃ a, x = .ok a ∧ f a = .error e := by
  cases x <;> simp [bind, Except.bind]

theorem located_eq_error_iff {α : Type} {line : Nat} {raw : List Char} {x : Except Fault α}
    {e : Error} :
    located line raw x = .error e ↔
      ∃ f, x = .error f ∧ e = .malformed line f (String.ofList raw) := by
  cases x <;> simp [located, eq_comm]

theorem closeMethod_eq_error_iff {m : Method} {e : Error} :
    closeMethod m = .error e ↔
      ∃ l ls, m.body.undefinedLabels = l :: ls ∧ e = .undefinedLabel m.name l := by
  unfold closeMethod
  cases m.body.undefinedLabels <;> simp [eq_comm]

theorem addInstruction_eq_error_iff {line : Nat} {m : Method} {i : Instruction} {e : Error} :
    addInstruction line m i = .error e ↔
      ∃ l, i.defines? = some l ∧ l ∈ m.body.definedLabels ∧ .duplicateLabel line l = e := by
  unfold addInstruction
  cases i.defines? with
  | none => simp
  | some l => by_cases hl : l ∈ m.body.definedLabels <;> simp [Body.isSome_position?_iff, hl]

/-! ## Reading a line -/

section Line
variable {p : Progress} {raw : List Char} {n : Nat} {head : String} {ws : List String} {e : Error}

theorem step_of_words_eq_nil (hw : words (uncommented raw) = []) : step p (raw, n) = .ok p := by
  simp [step, hw]

theorem step_directive (d : Directive) (hw : words (uncommented raw) = d.word :: ws) :
    step p (raw, n) = directiveStep p n raw ws d := by
  have hd : Directive.ofWord? d.word = some d := ofWord?_eq_some_iff.mpr rfl
  simp [step, hw, hd]

theorem step_instruction (hw : words (uncommented raw) = head :: ws) (ho : head ∉ directives) :
    step p (raw, n) = instructionStep p n raw (uncommented raw) := by
  simp [step, hw, ofWord?_eq_none_iff.mpr ho]

theorem refuses_of_directiveStep {line : List Char} {d : Directive}
    (hw : words line = d.word :: ws) (h : directiveStep p n raw ws d = .error e) :
    Refuses line n raw p e := by
  obtain ⟨cs, current⟩ := p
  cases d with
  | classHeader =>
    cases current with
    | some m => cases h; exact .classInMethod hw
    | none =>
      simp only [directiveStep, bind_eq_error_iff, located_eq_error_iff] at h
      obtain ⟨f, hf, rfl⟩ | ⟨c, -, h⟩ := h
      · exact .classHeader hw hf
      · cases h
  | methodHeader =>
    cases current with
    | some m => cases h; exact .methodInMethod hw
    | none =>
      cases cs with
      | nil => cases h; exact .outsideClass hw
      | cons c cs =>
        simp only [directiveStep, List.isEmpty_cons, Bool.false_eq_true, ↓reduceIte,
          bind_eq_error_iff, located_eq_error_iff] at h
        obtain ⟨f, hf, rfl⟩ | ⟨m, -, h⟩ := h
        · exact .methodHeader hw (List.cons_ne_nil c cs) hf
        · cases h
  | annotationLine =>
    cases current with
    | none => cases h; exact .outsideMethod hw (by decide) (by decide)
    | some m =>
      simp only [directiveStep, bind_eq_error_iff, located_eq_error_iff] at h
      obtain ⟨f, hf, rfl⟩ | ⟨⟨r, desc⟩, -, h⟩ := h
      · exact .annotationLine hw hf
      · cases h
  | methodEnd =>
    cases current with
    | none => cases h; exact .outsideMethod hw (by decide) (by decide)
    | some m =>
      simp only [directiveStep, bind_eq_error_iff, closeMethod_eq_error_iff] at h
      obtain ⟨l, ls, hl, rfl⟩ | ⟨m', -, h⟩ := h
      · exact .methodEnd hw hl
      · cases h

theorem refuses_of_instructionStep {line : List Char} (hw : words line = head :: ws)
    (ho : head ∉ directives) (h : instructionStep p n raw line = .error e) :
    Refuses line n raw p e := by
  obtain ⟨cs, current⟩ := p
  cases current with
  | none =>
    cases h
    simp only [directives, List.mem_cons, not_or] at ho
    exact .outsideMethod hw ho.1 ho.2.1
  | some m =>
    cases hr : readInstruction line with
    | error e' =>
      simp only [instructionStep, hr, Except.error.injEq] at h
      rw [← h]
      exact .instruction hw ho hr
    | ok i =>
      simp only [instructionStep, hr, bind_eq_error_iff, addInstruction_eq_error_iff] at h
      obtain ⟨l, hd, hl, rfl⟩ | ⟨m', -, h⟩ := h
      · exact .definedTwice hw ho hr hd hl
      · cases h

/-- Outside a method only a header can be read. -/
theorem step_outsideMethod {cs : List ClassUnit} (hw : words (uncommented raw) = head :: ws)
    (hc : head ≠ ".class") (hm : head ≠ ".method") :
    step ⟨cs, none⟩ (raw, n) = .error (.outsideMethod n) := by
  cases hd : Directive.ofWord? head with
  | none => rw [step_instruction hw (ofWord?_eq_none_iff.mp hd)]; rfl
  | some d =>
    have hword := ofWord?_eq_some_iff.mp hd
    rw [hword] at hw hc hm
    rw [step_directive d hw]
    cases d with
    | classHeader => exact absurd rfl hc
    | methodHeader => exact absurd rfl hm
    | annotationLine => rfl
    | methodEnd => rfl

theorem step_of_refuses (h : Refuses (uncommented raw) n raw p e) :
    step p (raw, n) = .error e := by
  cases h with
  | classInMethod words => rw [step_directive .classHeader words]; rfl
  | methodInMethod words => rw [step_directive .methodHeader words]; rfl
  | classHeader words fault =>
    rw [step_directive .classHeader words]
    simp only [directiveStep, fault]
    rfl
  | outsideClass words => rw [step_directive .methodHeader words]; rfl
  | @methodHeader cs ws f words inClass fault =>
    rw [step_directive .methodHeader words]
    simp only [directiveStep, List.isEmpty_eq_false_iff.mpr inClass, fault]
    rfl
  | outsideMethod words noClass noMethod => exact step_outsideMethod words noClass noMethod
  | annotationLine words fault =>
    rw [step_directive .annotationLine words]
    simp only [directiveStep, fault]
    rfl
  | instruction words other refused =>
    rw [step_instruction words other]
    simp only [instructionStep, refused]
  | @definedTwice cs m head ws i l words other read defines before =>
    have hadd : addInstruction n m i = .error (.duplicateLabel n l) :=
      addInstruction_eq_error_iff.mpr ⟨l, defines, before, rfl⟩
    rw [step_instruction words other]
    simp only [instructionStep, read, hadd]
    rfl
  | @methodEnd cs m ws l ls words undefined =>
    have hclose : closeMethod m = .error (.undefinedLabel m.name l) :=
      closeMethod_eq_error_iff.mpr ⟨l, ls, undefined, rfl⟩
    rw [step_directive .methodEnd words]
    simp only [directiveStep, hclose]
    rfl

theorem step_eq_error_iff :
    step p (raw, n) = .error e ↔ Refuses (uncommented raw) n raw p e := by
  refine ⟨fun h => ?_, step_of_refuses⟩
  cases hw : words (uncommented raw) with
  | nil => rw [step_of_words_eq_nil hw] at h; cases h
  | cons head ws =>
    cases hd : Directive.ofWord? head with
    | none =>
      have ho := ofWord?_eq_none_iff.mp hd
      rw [step_instruction hw ho] at h
      exact refuses_of_instructionStep hw ho h
    | some d =>
      rw [ofWord?_eq_some_iff.mp hd] at hw
      rw [step_directive d hw] at h
      exact refuses_of_directiveStep hw h

end Line

/-! ## Reading several lines -/

theorem readLines_cons (p : Progress) (n : Nat) (raw : List Char) (ls : List (List Char)) :
    readLines p n (raw :: ls) = step p (raw, n) >>= fun q => readLines q (n + 1) ls := by
  simp only [readLines, List.zipIdx_cons, List.foldlM_cons]

/-- A reading that fails does so at the first line that is refused. -/
theorem readLines_eq_error_iff {p : Progress} {n : Nat} {ls : List (List Char)} {e : Error} :
    readLines p n ls = .error e ↔
      ∃ before raw after q, ls = before ++ raw :: after ∧ readLines p n before = .ok q ∧
        Refuses (uncommented raw) (n + before.length) raw q e := by
  constructor
  · intro h
    induction ls generalizing p n with
    | nil => cases h
    | cons line ls ih =>
      rw [readLines_cons, bind_eq_error_iff] at h
      rcases h with h | ⟨q, hq, h⟩
      · exact ⟨[], line, ls, p, rfl, rfl, step_eq_error_iff.mp h⟩
      · obtain ⟨before, raw, after, r, rfl, hr, hrefused⟩ := ih h
        refine ⟨line :: before, raw, after, r, rfl, ?_, ?_⟩
        · rw [readLines_cons, hq]
          exact hr
        · rwa [List.length_cons, Nat.add_comm before.length 1, ← Nat.add_assoc]
  · rintro ⟨before, raw, after, q, rfl, hq, hrefused⟩
    rw [readLines_append, hq]
    have hstep := step_of_refuses hrefused
    exact (readLines_cons q (n + before.length) raw after).trans (by rw [hstep]; rfl)

/-- A text is refused at its first refused line, or because it ends inside a method. -/
theorem read_eq_error_iff {text : String} {e : Error} :
    read text = .error e ↔
      readLines {} 1 (lines text.toList) = .error e ∨
        ∃ cs m, readLines {} 1 (lines text.toList) = .ok ⟨cs, some m⟩ ∧
          e = .unterminatedMethod m.name := by
  rw [read, bind_eq_error_iff]
  refine or_congr Iff.rfl ⟨?_, ?_⟩
  · rintro ⟨⟨cs, current⟩, hq, hclose⟩
    cases current with
    | none => cases hclose
    | some m => cases hclose; exact ⟨cs, m, hq, rfl⟩
  · rintro ⟨cs, m, hq, rfl⟩
    exact ⟨_, hq, rfl⟩

end ComposeGuards.Listing
