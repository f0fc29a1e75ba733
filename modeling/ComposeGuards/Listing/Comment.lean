import ComposeGuards.Text.Blank
import ComposeGuards.Text.Literal

/-! # Comments

A comment starts with `#` or `//` and runs to the end of the line. It counts at the start of a line
and after a space. In a line `LDC "…` the literal is kept whole whatever it holds, and a comment
may follow its closing quote directly; a literal that is not closed, or that anything else follows,
keeps the line as it is.
-/
namespace ComposeGuards.Listing
open ComposeGuards.Text

def opensComment : List Char → Bool
  | '#' :: _ => true
  | '/' :: '/' :: _ => true
  | _ => false

/-- The text before the first space that a comment follows. -/
def beforeComment : List Char → List Char
  | [] => []
  | c :: cs => if c = ' ' && opensComment cs then [] else c :: beforeComment cs

/-- The operand of a line that starts with `LDC` and a space, if it opens a literal, split into the
blanks before it and the rest. -/
def quotedOperand? : List Char → Option (List Char × List Char)
  | 'L' :: 'D' :: 'C' :: ' ' :: cs =>
    match trimStart cs with
    | '"' :: rest => some (cs.takeWhile isBlank, '"' :: rest)
    | _ => none
  | _ => none

/-- A line without its comment and the blanks around it. -/
def uncommented (raw : List Char) : List Char :=
  let line := trim raw
  if opensComment line then []
  else
    match quotedOperand? line with
    | none => trimEnd (beforeComment line)
    | some (gap, operand) =>
      match closingOffset? operand with
      | none => line
      | some k =>
        let (literal, after) := splitAtByte (k + 1) operand
        let rest := trimStart after
        if rest.isEmpty || opensComment rest then 'L' :: 'D' :: 'C' :: ' ' :: gap ++ literal
        else line

/-- The same with the cut after the closing quote counted in characters. -/
theorem uncommented_charwise (raw : List Char) :
    uncommented raw =
      if opensComment (trim raw) then []
      else
        match quotedOperand? (trim raw) with
        | none => trimEnd (beforeComment (trim raw))
        | some (gap, operand) =>
          match closingQuote? operand with
          | none => trim raw
          | some i =>
            let rest := trimStart (operand.drop (i + 1))
            if rest.isEmpty || opensComment rest then
              'L' :: 'D' :: 'C' :: ' ' :: gap ++ operand.take (i + 1)
            else trim raw := by
  simp only [uncommented, closingOffset?_eq]
  split
  · rfl
  · split
    · rfl
    · next gap operand _ =>
      cases hclose : closingQuote? operand with
      | none => rfl
      | some i => simp only [Option.map_some, splitAtByte_closing hclose]

theorem beforeComment_isPrefix (cs : List Char) : beforeComment cs <+: cs := by
  induction cs with
  | nil => exact List.prefix_rfl
  | cons c cs ih =>
    unfold beforeComment
    split
    · exact List.nil_prefix
    · exact List.cons_prefix_cons.mpr ⟨rfl, ih⟩

theorem quotedOperand?_eq_some {line gap operand : List Char}
    (h : quotedOperand? line = some (gap, operand)) :
    line = 'L' :: 'D' :: 'C' :: ' ' :: gap ++ operand := by
  unfold quotedOperand? at h
  split at h
  · next cs =>
    split at h
    · next rest hr =>
      simp only [Option.some.injEq, Prod.mk.injEq] at h
      obtain ⟨rfl, rfl⟩ := h
      rw [← hr, trimStart]
      simp [List.takeWhile_append_dropWhile]
    · cases h
  · cases h

end ComposeGuards.Listing
