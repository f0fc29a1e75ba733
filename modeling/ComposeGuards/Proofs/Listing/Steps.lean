import ComposeGuards.Listing.Reader
import ComposeGuards.Proofs.Bytecode.Positions
import ComposeGuards.Proofs.Listing.Comments
import ComposeGuards.Proofs.Listing.Spelling

/-! # What one line does

A line without its comment is one of four directives or an instruction. The relation `Advances` says
everything that an accepted line can do to the progress of a reading; reading a line is this
relation, and reading lines is a run of it over those that hold something.
-/
namespace ComposeGuards.Listing
open ComposeGuards.Text

/-- The words that start a line that is no instruction. -/
def directives : List String :=
  [".class", ".method", ".annotation", ".end"]

def retentionWord : Retention → String
  | .visible => "visible"
  | .invisible => "invisible"

/-- What a line between the header of a method and its end says. -/
inductive Entry
  | annotated (retention : Retention) (desc : String)
  | instruction (i : Instruction)

def Entry.defines? : Entry → Option Label
  | annotated _ _ => none
  | instruction i => i.defines?

inductive IsEntry (line : List Char) : Entry → Prop
  | annotated {retention : Retention} {desc : String} {extra : List String}
      (words : words line = ".annotation" :: retentionWord retention :: desc :: extra) :
      IsEntry line (.annotated retention desc)
  | instruction {head : String} {operands : List String} {i : Instruction}
      (words : words line = head :: operands) (other : head ∉ directives)
      (read : readInstruction line = .ok i) : IsEntry line (.instruction i)

def addEntry (m : Method) : Entry → Method
  | .annotated retention desc => m.annotate retention desc
  | .instruction i => { m with body := m.body ++ [i] }

/-- Everything that an accepted line can do. -/
inductive Advances (line : List Char) : Progress → Progress → Prop
  | classHeader {cs : List ClassUnit} {name : String} (words : words line = [".class", name]) :
      Advances line ⟨cs, none⟩ ⟨cs ++ [⟨name, false, []⟩], none⟩
  | kotlinHeader {cs : List ClassUnit} {name : String} {extra : List String}
      (words : words line = ".class" :: name :: "kotlin" :: extra) :
      Advances line ⟨cs, none⟩ ⟨cs ++ [⟨name, true, []⟩], none⟩
  | methodHeader {cs : List ClassUnit} {name desc : String} {extra : List String}
      (words : words line = ".method" :: name :: desc :: extra) (inClass : cs ≠ []) :
      Advances line ⟨cs, none⟩ ⟨cs, some { name, desc }⟩
  | entry {cs : List ClassUnit} {m : Method} {e : Entry} (entry : IsEntry line e)
      (fresh : ∀ l ∈ e.defines?, l ∉ m.body.definedLabels) :
      Advances line ⟨cs, some m⟩ ⟨cs, some (addEntry m e)⟩
  | methodEnd {cs : List ClassUnit} {m : Method} {extra : List String}
      (words : words line = ".end" :: extra)
      (defined : ∀ l ∈ m.body.usedLabels, l ∈ m.body.definedLabels) :
      Advances line ⟨cs, some m⟩ ⟨attach m cs, none⟩

/-- A sequence of accepted lines. -/
inductive Runs : Progress → List (List Char) → Progress → Prop
  | done {p : Progress} : Runs p [] p
  | line {p q r : Progress} {line : List Char} {rest : List (List Char)}
      (first : Advances line p q) (next : Runs q rest r) : Runs p (line :: rest) r

theorem Runs.append {p q r : Progress} {xs ys : List (List Char)} (h : Runs p xs q)
    (h' : Runs q ys r) : Runs p (xs ++ ys) r := by
  induction h with
  | done => exact h'
  | line first _ ih => exact .line first (ih h')

theorem Runs.single {p q : Progress} {line : List Char} (h : Advances line p q) :
    Runs p [line] q := .line h .done

/-! ## The readers of the parts -/

def Directive.word : Directive → String
  | .classHeader => ".class"
  | .methodHeader => ".method"
  | .annotationLine => ".annotation"
  | .methodEnd => ".end"

theorem ofWord?_eq_some_iff {word : String} {d : Directive} :
    Directive.ofWord? word = some d ↔ word = d.word := by
  unfold Directive.ofWord?
  split_ifs with hclass hmethod hannotated hend
  · subst hclass; cases d <;> simp [Directive.word]
  · subst hmethod; cases d <;> simp [Directive.word]
  · subst hannotated; cases d <;> simp [Directive.word]
  · subst hend; cases d <;> simp [Directive.word]
  · cases d <;> simp [Directive.word, hclass, hmethod, hannotated, hend]

theorem ofWord?_eq_none_iff {word : String} :
    Directive.ofWord? word = none ↔ word ∉ directives := by
  unfold Directive.ofWord? directives
  split_ifs with hclass hmethod hannotated hend <;> simp [*]

theorem located_eq_ok_iff {α : Type} {line : Nat} {raw : List Char} {x : Except Fault α} {a : α} :
    located line raw x = .ok a ↔ x = .ok a := by
  cases x <;> simp [located]

theorem readClassHeader_eq_ok_iff {ws : List String} {c : ClassUnit} :
    readClassHeader ws = .ok c ↔
      (∃ name, ws = [name] ∧ c = ⟨name, false, []⟩) ∨
        ∃ name extra, ws = name :: "kotlin" :: extra ∧ c = ⟨name, true, []⟩ := by
  match ws with
  | [] => simp [readClassHeader]
  | [name] => simp [readClassHeader, eq_comm]
  | name :: flag :: extra =>
    by_cases hflag : flag = "kotlin"
    · subst hflag
      simp [readClassHeader, eq_comm]
    · simp [readClassHeader, hflag]

theorem readMethodHeader_eq_ok_iff {ws : List String} {m : Method} :
    readMethodHeader ws = .ok m ↔
      ∃ name desc extra, ws = name :: desc :: extra ∧ m = { name, desc } := by
  match ws with
  | [] => simp [readMethodHeader]
  | [_] => simp [readMethodHeader]
  | name :: desc :: extra => simp [readMethodHeader, eq_comm]

theorem readAnnotationLine_eq_ok_iff {ws : List String} {r : Retention} {desc : String} :
    readAnnotationLine ws = .ok (r, desc) ↔ ∃ extra, ws = retentionWord r :: desc :: extra := by
  match ws with
  | [] => simp [readAnnotationLine]
  | [_] => simp [readAnnotationLine]
  | word :: d :: extra =>
    unfold readAnnotationLine retentionOfWord?
    by_cases hv : word = "visible"
    · subst hv
      cases r <;> simp [retentionWord]
    · by_cases hi : word = "invisible"
      · subst hi
        cases r <;> simp [retentionWord]
      · cases r <;> simp [retentionWord, hv, hi]

theorem closeMethod_eq_ok_iff {m m' : Method} :
    closeMethod m = .ok m' ↔ (∀ l ∈ m.body.usedLabels, l ∈ m.body.definedLabels) ∧ m = m' := by
  rw [← Body.undefinedLabels_eq_nil_iff, closeMethod]
  cases m.body.undefinedLabels <;> simp

theorem addInstruction_eq_ok_iff {line : Nat} {m m' : Method} {i : Instruction} :
    addInstruction line m i = .ok m' ↔
      (∀ l ∈ i.defines?, l ∉ m.body.definedLabels) ∧ { m with body := m.body ++ [i] } = m' := by
  unfold addInstruction
  cases i.defines? with
  | none => simp
  | some l => by_cases hl : l ∈ m.body.definedLabels <;> simp [Body.isSome_position?_iff, hl]

/-! ## Reading a line -/

theorem Directive.word_injective {d d' : Directive} (h : d.word = d'.word) : d = d' := by
  revert h
  cases d <;> cases d' <;> decide

theorem Directive.word_mem_directives (d : Directive) : d.word ∈ directives := by
  cases d <;> decide

theorem Directive.eq_of_words_eq {line : List Char} {d : Directive} (d' : Directive)
    {ws rest : List String} (h : words line = d.word :: ws) (h' : words line = d'.word :: rest) :
    d = d' ∧ ws = rest := by
  rw [h] at h'
  exact ⟨Directive.word_injective (List.cons.inj h').1, (List.cons.inj h').2⟩

theorem Directive.words_ne {line : List Char} {head : String} {ws : List String}
    (h : words line = head :: ws) (ho : head ∉ directives) (d : Directive) (rest : List String) :
    words line ≠ d.word :: rest := by
  intro hrest
  rw [h] at hrest
  rw [(List.cons.inj hrest).1] at ho
  exact ho d.word_mem_directives

theorem advances_of_directiveStep {p q : Progress} {n : Nat} {raw line : List Char} {d : Directive}
    {operands : List String} (hw : words line = d.word :: operands)
    (h : directiveStep p n raw operands d = .ok q) : Advances line p q := by
  obtain ⟨cs, current⟩ := p
  cases d with
  | classHeader =>
    cases current with
    | some m => cases h
    | none =>
      simp only [directiveStep, bind_eq_ok_iff, located_eq_ok_iff, readClassHeader_eq_ok_iff] at h
      obtain ⟨c, ⟨name, rfl, rfl⟩ | ⟨name, extra, rfl, rfl⟩, h⟩ := h
      · cases h; exact .classHeader hw
      · cases h; exact .kotlinHeader hw
  | methodHeader =>
    cases current with
    | some m => cases h
    | none =>
      cases cs with
      | nil => cases h
      | cons c cs =>
        simp only [directiveStep, List.isEmpty_cons, Bool.false_eq_true, ↓reduceIte,
          bind_eq_ok_iff, located_eq_ok_iff, readMethodHeader_eq_ok_iff] at h
        obtain ⟨m, ⟨name, desc, extra, rfl, rfl⟩, h⟩ := h
        cases h
        exact .methodHeader hw (List.cons_ne_nil c cs)
  | annotationLine =>
    cases current with
    | none => cases h
    | some m =>
      simp only [directiveStep, bind_eq_ok_iff, located_eq_ok_iff, Prod.exists,
        readAnnotationLine_eq_ok_iff] at h
      obtain ⟨r, desc, ⟨extra, rfl⟩, h⟩ := h
      cases h
      exact .entry (.annotated hw) fun l hl => by cases hl
  | methodEnd =>
    cases current with
    | none => cases h
    | some m =>
      simp only [directiveStep, bind_eq_ok_iff, closeMethod_eq_ok_iff] at h
      obtain ⟨_, ⟨hdefined, rfl⟩, h⟩ := h
      cases h
      exact .methodEnd hw hdefined

theorem directiveStep_of_advances {p q : Progress} {n : Nat} {raw line : List Char}
    {d : Directive} {operands : List String} (hw : words line = d.word :: operands)
    (h : Advances line p q) : directiveStep p n raw operands d = .ok q := by
  cases h with
  | classHeader words =>
    obtain ⟨rfl, rfl⟩ := Directive.eq_of_words_eq .classHeader hw words
    rfl
  | kotlinHeader words =>
    obtain ⟨rfl, rfl⟩ := Directive.eq_of_words_eq .classHeader hw words
    rfl
  | @methodHeader cs name desc extra words inClass =>
    obtain ⟨rfl, rfl⟩ := Directive.eq_of_words_eq .methodHeader hw words
    cases cs with
    | nil => exact absurd rfl inClass
    | cons c cs => rfl
  | @entry cs m e entry fresh =>
    cases entry with
    | @annotated r desc extra words =>
      obtain ⟨rfl, rfl⟩ := Directive.eq_of_words_eq .annotationLine hw words
      have hread : readAnnotationLine (retentionWord r :: desc :: extra) = .ok (r, desc) :=
        readAnnotationLine_eq_ok_iff.mpr ⟨extra, rfl⟩
      simp only [directiveStep, hread, located]
      rfl
    | instruction words other read =>
      rw [hw] at words
      rw [← (List.cons.inj words).1] at other
      exact absurd d.word_mem_directives other
  | methodEnd words defined =>
    obtain ⟨rfl, rfl⟩ := Directive.eq_of_words_eq .methodEnd hw words
    have hclose := closeMethod_eq_ok_iff.mpr ⟨defined, rfl⟩
    simp only [directiveStep, hclose]
    rfl

/-- An accepted line that is no directive adds an instruction to the method. -/
theorem Advances.instruction_cases {p q : Progress} {line : List Char} {head : String}
    {operands : List String} (h : Advances line p q) (hw : words line = head :: operands)
    (ho : head ∉ directives) :
    ∃ cs m i, p = ⟨cs, some m⟩ ∧ q = ⟨cs, some { m with body := m.body ++ [i] }⟩ ∧
      readInstruction line = .ok i ∧ ∀ l ∈ i.defines?, l ∉ m.body.definedLabels := by
  have hno := Directive.words_ne hw ho
  cases h with
  | classHeader words => exact absurd words (hno .classHeader _)
  | kotlinHeader words => exact absurd words (hno .classHeader _)
  | methodHeader words => exact absurd words (hno .methodHeader _)
  | methodEnd words => exact absurd words (hno .methodEnd _)
  | entry entry fresh =>
    cases entry with
    | annotated words => exact absurd words (hno .annotationLine _)
    | instruction words other read => exact ⟨_, _, _, rfl, rfl, read, fresh⟩

theorem instructionStep_eq_ok_iff {p q : Progress} {n : Nat} {raw line : List Char}
    {head : String} {operands : List String} (hw : words line = head :: operands)
    (ho : head ∉ directives) :
    instructionStep p n raw line = .ok q ↔ Advances line p q := by
  constructor
  · intro h
    obtain ⟨cs, current⟩ := p
    cases current with
    | none => cases h
    | some m =>
      cases hr : readInstruction line with
      | error e => simp [instructionStep, hr] at h
      | ok i =>
        simp only [instructionStep, hr, bind_eq_ok_iff, addInstruction_eq_ok_iff] at h
        obtain ⟨_, ⟨hfresh, rfl⟩, h⟩ := h
        cases h
        exact .entry (.instruction hw ho hr) hfresh
  · intro h
    obtain ⟨cs, m, i, rfl, rfl, hread, hfresh⟩ := h.instruction_cases hw ho
    have hadd : addInstruction n m i = .ok { m with body := m.body ++ [i] } :=
      addInstruction_eq_ok_iff.mpr ⟨hfresh, rfl⟩
    simp only [instructionStep, hread, hadd]
    rfl

theorem step_eq_ok_iff {p q : Progress} {raw : List Char} {n : Nat} :
    step p (raw, n) = .ok q ↔
      if uncommented raw = [] then p = q else Advances (uncommented raw) p q := by
  unfold step
  by_cases hnil : uncommented raw = []
  · simp [hnil, words_nil]
  · have hne : words (uncommented raw) ≠ [] := fun h => hnil (words_uncommented_eq_nil_iff.mp h)
    obtain ⟨head, operands, hw⟩ := List.exists_cons_of_ne_nil hne
    rw [if_neg hnil]
    simp only [hw]
    cases hd : Directive.ofWord? head with
    | some d =>
      rw [ofWord?_eq_some_iff.mp hd] at hw
      exact ⟨advances_of_directiveStep hw, directiveStep_of_advances hw⟩
    | none => exact instructionStep_eq_ok_iff hw (ofWord?_eq_none_iff.mp hd)

/-- The lines without their comments, except those that hold nothing else. -/
def significant (ls : List (List Char)) : List (List Char) :=
  (ls.map uncommented).filter fun line => !line.isEmpty

theorem significant_append (xs ys : List (List Char)) :
    significant (xs ++ ys) = significant xs ++ significant ys := by
  simp [significant]

theorem significant_cons_of_eq_nil {raw : List Char} (h : uncommented raw = [])
    (ls : List (List Char)) : significant (raw :: ls) = significant ls := by
  simp [significant, h]

theorem significant_cons_of_ne_nil {raw : List Char} (h : uncommented raw ≠ [])
    (ls : List (List Char)) : significant (raw :: ls) = uncommented raw :: significant ls := by
  simp [significant, h]

theorem readLines_eq_ok_iff {p q : Progress} {n : Nat} {ls : List (List Char)} :
    readLines p n ls = .ok q ↔ Runs p (significant ls) q := by
  induction ls generalizing p n with
  | nil =>
    constructor
    · intro h
      cases h
      exact .done
    · intro h
      cases h
      rfl
  | cons raw ls ih =>
    have hcons : readLines p n (raw :: ls) = .ok q ↔
        ∃ r, step p (raw, n) = .ok r ∧ readLines r (n + 1) ls = .ok q := by
      simp only [readLines, List.zipIdx_cons, List.foldlM_cons, bind_eq_ok_iff]
    rw [hcons]
    simp only [step_eq_ok_iff, ih]
    by_cases hnil : uncommented raw = []
    · simp [significant_cons_of_eq_nil, hnil]
    · rw [significant_cons_of_ne_nil hnil]
      simp only [if_neg hnil]
      constructor
      · rintro ⟨r, hfirst, hnext⟩
        exact .line hfirst hnext
      · intro h
        cases h with
        | line first next => exact ⟨_, first, next⟩

/-- A text is read if its lines run from nothing to a point outside every method. -/
theorem read_eq_ok_iff {text : String} {cs : List ClassUnit} :
    read text = .ok cs ↔ Runs {} (significant (lines text.toList)) ⟨cs, none⟩ := by
  rw [read, bind_eq_ok_iff]
  simp only [readLines_eq_ok_iff]
  constructor
  · rintro ⟨⟨ds, current⟩, hruns, hclose⟩
    cases current with
    | none => cases hclose; exact hruns
    | some m => cases hclose
  · intro h
    exact ⟨_, h, rfl⟩

/-! ## What an accepted line must hold -/

theorem Runs.exists_advances {p q : Progress} {ls : List (List Char)} {line : List Char}
    (h : Runs p ls q) (hl : line ∈ ls) : ∃ p' q', Advances line p' q' := by
  induction h with
  | done => cases hl
  | line first _ ih =>
    rcases List.mem_cons.mp hl with rfl | hl
    · exact ⟨_, _, first⟩
    · exact ih hl

/-- How many words a directive needs after it. -/
def Directive.wordCount : Directive → Nat
  | .classHeader => 1
  | .methodHeader | .annotationLine => 2
  | .methodEnd => 0

theorem Advances.wordCount_le {p q : Progress} {line : List Char} {d : Directive}
    {ws : List String} (h : Advances line p q) (hw : words line = d.word :: ws) :
    d.wordCount ≤ ws.length := by
  cases h with
  | classHeader words =>
    obtain ⟨rfl, rfl⟩ := Directive.eq_of_words_eq .classHeader hw words
    simp [Directive.wordCount]
  | kotlinHeader words =>
    obtain ⟨rfl, rfl⟩ := Directive.eq_of_words_eq .classHeader hw words
    simp [Directive.wordCount]
  | methodHeader words =>
    obtain ⟨rfl, rfl⟩ := Directive.eq_of_words_eq .methodHeader hw words
    simp [Directive.wordCount]
  | entry entry =>
    cases entry with
    | annotated words =>
      obtain ⟨rfl, rfl⟩ := Directive.eq_of_words_eq .annotationLine hw words
      simp [Directive.wordCount]
    | instruction words other =>
      rw [hw] at words
      rw [← (List.cons.inj words).1] at other
      exact absurd d.word_mem_directives other
  | methodEnd words =>
    obtain ⟨rfl, rfl⟩ := Directive.eq_of_words_eq .methodEnd hw words
    exact Nat.zero_le _

end ComposeGuards.Listing
