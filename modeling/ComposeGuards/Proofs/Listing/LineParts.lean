import ComposeGuards.Proofs.Listing.Concatenation

/-! # What a line gives to the reading

Of a line without its comment the reading takes the words, and where the first is `LDC` the text
after it as one. Two lines with the same parts do the same wherever they stand: both are accepted
with the same progress, or both are refused with errors that differ only in the number and the text
of the line. From this it follows what numbering the lines otherwise, or writing them otherwise,
does to a whole reading.
-/
namespace ComposeGuards.Listing
open ComposeGuards.Text

/-- The words of a line; what follows `LDC` counts as one. -/
def parts (line : List Char) : List String :=
  match words line with
  | [] => []
  | head :: operands =>
    if head = "LDC" then [head, String.ofList (afterFirstWord line)] else head :: operands

/-- Two lines with the same parts, comments aside. -/
def SameParts (raw raw' : List Char) : Prop :=
  parts (uncommented raw) = parts (uncommented raw')

namespace Error

/-- The same refusal, of the line with that number and that text. -/
def placed (n : Nat) (raw : String) : Error → Error
  | malformed _ fault _ => malformed n fault raw
  | unknownMnemonic _ word => unknownMnemonic n word
  | outsideMethod _ => outsideMethod n
  | unterminatedMethod method => unterminatedMethod method
  | duplicateLabel _ label => duplicateLabel n label
  | undefinedLabel method label => undefinedLabel method label

/-- The error without the text of the line. -/
def unquoted : Error → Error
  | malformed n fault _ => malformed n fault ""
  | unknownMnemonic n word => unknownMnemonic n word
  | outsideMethod n => outsideMethod n
  | unterminatedMethod method => unterminatedMethod method
  | duplicateLabel n label => duplicateLabel n label
  | undefinedLabel method label => undefinedLabel method label

theorem unquoted_placed (n : Nat) (raw : String) (e : Error) :
    (e.placed n raw).unquoted = e.placed n "" := by
  cases e <;> rfl

theorem below_placed (k n : Nat) (raw : String) (e : Error) :
    (e.placed n raw).below k = e.placed (n + k) raw := by
  cases e <;> rfl

end Error

theorem InstructionError.placed_at (n n' : Nat) (raw raw' : String) (e : InstructionError) :
    (e.at n raw).placed n' raw' = e.at n' raw' := by
  cases e <;> rfl

section Except
variable {ε ε' ε'' α β : Type}

theorem mapError_bind (f : ε → ε') (x : Except ε α) (k : α → Except ε β) :
    (x >>= k).mapError f = x.mapError f >>= fun a => (k a).mapError f := by
  cases x <;> rfl

theorem mapError_mapError (f : ε → ε') (g : ε' → ε'') (x : Except ε α) :
    (x.mapError f).mapError g = x.mapError fun e => g (f e) := by
  cases x <;> rfl

theorem mapError_congr {x : Except ε α} {f g : ε → ε'} (h : ∀ e, x = .error e → f e = g e) :
    x.mapError f = x.mapError g := by
  cases x with
  | ok a => rfl
  | error e => exact congrArg Except.error (h e rfl)

end Except

/-! ## The parts of a line -/

section Parts
variable {line line' : List Char} {head : String} {ws : List String}

theorem parts_of_ne_ldc (h : words line = head :: ws) (hne : head ≠ "LDC") :
    parts line = head :: ws := by
  rw [parts, h]
  exact if_neg hne

theorem parts_of_ldc (h : words line = "LDC" :: ws) :
    parts line = ["LDC", String.ofList (afterFirstWord line)] := by
  rw [parts, h]
  exact if_pos rfl

theorem words_eq_nil_of_parts (h : parts line = []) : words line = [] := by
  unfold parts at h
  split at h
  · assumption
  · split at h <;> cases h

theorem words_of_parts (h : parts line = head :: ws) (hne : head ≠ "LDC") :
    words line = head :: ws := by
  unfold parts at h
  split at h
  · cases h
  · next hwords =>
    split at h
    · next hldc => cases h; exact absurd hldc hne
    · rw [hwords, h]

theorem words_of_parts_ldc (h : parts line = "LDC" :: ws) :
    (∃ operands, words line = "LDC" :: operands) ∧
      ws = [String.ofList (afterFirstWord line)] := by
  unfold parts at h
  split at h
  · cases h
  · next operands hwords =>
    split at h
    · next hldc => cases h; exact ⟨⟨operands, hwords⟩, rfl⟩
    · next hldc => cases h; exact absurd rfl hldc

theorem readOperands_of_ne_constant {m : Mnemonic} (h : m.operandKind ≠ .constant)
    (rest rest' : List Char) : readOperands m ws rest = readOperands m ws rest' := by
  unfold readOperands
  cases hk : m.operandKind with
  | constant => exact absurd hk h
  | _ => rfl

theorem readInstruction_of_ldc (h : words line = "LDC" :: ws) :
    readInstruction line =
      if (afterFirstWord line).isEmpty then .error (.fault .missingConstant)
      else .ok (.constant (String.ofList (afterFirstWord line))) := by
  have hlabel : labelOfWord? "LDC" = none := by decide
  have hname : Mnemonic.ofName? "LDC" = some .ldc := by decide
  simp [readInstruction, h, hlabel, hname, readOperands, Mnemonic.operandKind]

theorem readInstruction_congr (h : parts line = parts line') :
    readInstruction line = readInstruction line' := by
  cases hp : parts line with
  | nil =>
    rw [hp] at h
    simp [readInstruction, words_eq_nil_of_parts hp, words_eq_nil_of_parts h.symm]
  | cons head ws =>
    rw [hp] at h
    by_cases hldc : head = "LDC"
    · subst hldc
      obtain ⟨⟨operands, hwords⟩, hafter⟩ := words_of_parts_ldc hp
      obtain ⟨⟨operands', hwords'⟩, hafter'⟩ := words_of_parts_ldc h.symm
      have hrest : afterFirstWord line = afterFirstWord line' :=
        String.ofList_injective (List.cons.inj (hafter.symm.trans hafter')).1
      rw [readInstruction_of_ldc hwords, readInstruction_of_ldc hwords', hrest]
    · unfold readInstruction
      rw [words_of_parts hp hldc, words_of_parts h.symm hldc]
      simp only
      split
      · rfl
      · split_ifs
        · rfl
        · rfl
        · split
          · next m hm =>
            refine readOperands_of_ne_constant (fun hkind => hldc ?_) _ _
            rw [← Mnemonic.name_of_ofName? hm]
            exact name_eq_ldc hkind
          · rfl

end Parts

/-! ## One line elsewhere -/

section Step
variable {p : Progress} {raw raw' : List Char} {n n' : Nat}

theorem located_placed {α : Type} (x : Except Fault α) (n n' : Nat) (raw raw' : List Char) :
    (located n raw x).mapError (Error.placed n' (String.ofList raw')) = located n' raw' x := by
  cases x <;> rfl

theorem closeMethod_placed (m : Method) (n : Nat) (raw : String) :
    (closeMethod m).mapError (Error.placed n raw) = closeMethod m := by
  unfold closeMethod
  split <;> rfl

theorem addInstruction_placed (m : Method) (i : Instruction) (n n' : Nat) (raw : String) :
    (addInstruction n m i).mapError (Error.placed n' raw) = addInstruction n' m i := by
  unfold addInstruction
  split
  · split <;> rfl
  · rfl

theorem directiveStep_placed (p : Progress) (d : Directive) (ws : List String) (n n' : Nat)
    (raw raw' : List Char) :
    (directiveStep p n raw ws d).mapError (Error.placed n' (String.ofList raw')) =
      directiveStep p n' raw' ws d := by
  obtain ⟨cs, current⟩ := p
  cases d with
  | classHeader =>
    cases current with
    | some m => rfl
    | none =>
      simp only [directiveStep]
      rw [mapError_bind, located_placed]
      rfl
  | methodHeader =>
    cases current with
    | some m => rfl
    | none =>
      simp only [directiveStep]
      split
      · exact located_placed (.error .methodOutsideClass) n n' raw raw'
      · rw [mapError_bind, located_placed]
        rfl
  | annotationLine =>
    cases current with
    | none => rfl
    | some m =>
      simp only [directiveStep]
      rw [mapError_bind, located_placed]
      rfl
  | methodEnd =>
    cases current with
    | none => rfl
    | some m =>
      simp only [directiveStep]
      rw [mapError_bind, closeMethod_placed]
      rfl

theorem instructionStep_placed {line line' : List Char} (h : parts line = parts line')
    (p : Progress) (n n' : Nat) (raw raw' : List Char) :
    (instructionStep p n raw line).mapError (Error.placed n' (String.ofList raw')) =
      instructionStep p n' raw' line' := by
  unfold instructionStep
  rw [← readInstruction_congr h]
  split
  · rfl
  · split
    · next e _ => exact congrArg Except.error (e.placed_at n n' _ _)
    · rw [mapError_bind, addInstruction_placed]
      rfl

/-- Lines with the same parts do the same, and an error tells only where it was. -/
theorem step_placed (h : SameParts raw raw') :
    (step p (raw, n)).mapError (Error.placed n' (String.ofList raw')) = step p (raw', n') := by
  rw [SameParts] at h
  cases hp : parts (uncommented raw) with
  | nil =>
    rw [hp] at h
    rw [step_of_words_eq_nil (words_eq_nil_of_parts hp),
      step_of_words_eq_nil (words_eq_nil_of_parts h.symm)]
    rfl
  | cons head ws =>
    have hp' : parts (uncommented raw') = head :: ws := h ▸ hp
    by_cases hldc : head = "LDC"
    · subst hldc
      obtain ⟨⟨operands, hwords⟩, -⟩ := words_of_parts_ldc hp
      obtain ⟨⟨operands', hwords'⟩, -⟩ := words_of_parts_ldc hp'
      have hother : "LDC" ∉ directives := by decide
      rw [step_instruction hwords hother, step_instruction hwords' hother]
      exact instructionStep_placed h p n n' raw raw'
    · have hwords := words_of_parts hp hldc
      have hwords' := words_of_parts hp' hldc
      cases hd : Directive.ofWord? head with
      | none =>
        have hother := ofWord?_eq_none_iff.mp hd
        rw [step_instruction hwords hother, step_instruction hwords' hother]
        exact instructionStep_placed h p n n' raw raw'
      | some d =>
        rw [ofWord?_eq_some_iff.mp hd] at hwords hwords'
        rw [step_directive d hwords, step_directive d hwords']
        exact directiveStep_placed p d ws n n' raw raw'

/-- An error of a line is already placed there. -/
theorem step_placed_self (p : Progress) (n : Nat) (raw : List Char) :
    (step p (raw, n)).mapError (Error.placed n (String.ofList raw)) = step p (raw, n) :=
  step_placed rfl

theorem step_unquoted (h : SameParts raw raw') :
    (step p (raw, n)).mapError Error.unquoted = (step p (raw', n)).mapError Error.unquoted := by
  rw [← step_placed_self p n raw, ← step_placed (n := n) h, mapError_mapError, mapError_mapError]
  simp only [Error.unquoted_placed]

theorem step_below (k : Nat) :
    step p (raw, n + k) = (step p (raw, n)).mapError (Error.below k) := by
  rw [← step_placed_self p n raw, mapError_mapError]
  simp only [Error.below_placed]
  exact (step_placed rfl).symm

end Step

/-! ## Several lines -/

theorem readLines_unquoted {p : Progress} {n : Nat} {ls ls' : List (List Char)}
    (h : List.Forall₂ SameParts ls ls') :
    (readLines p n ls).mapError Error.unquoted = (readLines p n ls').mapError Error.unquoted := by
  induction h generalizing p n with
  | nil => rfl
  | cons hfirst _ ih =>
    rw [readLines_cons, readLines_cons, mapError_bind, mapError_bind, step_unquoted hfirst]
    exact congrArg _ (funext fun q => ih)

theorem readLines_below (p : Progress) (n k : Nat) (ls : List (List Char)) :
    readLines p (n + k) ls = (readLines p n ls).mapError (Error.below k) := by
  induction ls generalizing p n with
  | nil => rfl
  | cons raw ls ih =>
    rw [readLines_cons, readLines_cons, mapError_bind, step_below]
    refine congrArg _ (funext fun q => ?_)
    rw [Nat.add_right_comm]
    exact ih q (n + 1)

/-- Texts whose lines have the same parts are read alike, up to the line that an error quotes. -/
theorem read_unquoted {text text' : String}
    (h : List.Forall₂ SameParts (lines text.toList) (lines text'.toList)) :
    (read text).mapError Error.unquoted = (read text').mapError Error.unquoted := by
  rw [read, read, mapError_bind, mapError_bind, readLines_unquoted h]

end ComposeGuards.Listing
