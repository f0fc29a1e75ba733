import ComposeGuards.Proofs.Listing.Grammar
import ComposeGuards.Proofs.Listing.Refusals
import ComposeGuards.Proofs.Text.FirstLines

/-! # One listing after another

A listing that is read after another one, from the next line on, starts with no open method and no
label of the first. It finds the classes of the first and counts its lines, and both show in what is
read: the classes come in front, and an error names a later line. Only a method without a class of
its own can tell whether there is a class before it.
-/
namespace ComposeGuards.Listing
open ComposeGuards.Text

namespace Error

/-- The same error, so many lines further down. -/
def below (k : Nat) : Error → Error
  | malformed line fault raw => malformed (line + k) fault raw
  | unknownMnemonic line word => unknownMnemonic (line + k) word
  | outsideMethod line => outsideMethod (line + k)
  | unterminatedMethod method => unterminatedMethod method
  | duplicateLabel line label => duplicateLabel (line + k) label
  | undefinedLabel method label => undefinedLabel method label

def fault? : Error → Option Fault
  | malformed _ fault _ => some fault
  | unknownMnemonic _ _ | outsideMethod _ | unterminatedMethod _ | duplicateLabel _ _
  | undefinedLabel _ _ => none

end Error

theorem InstructionError.below_at (k n : Nat) (raw : String) (e : InstructionError) :
    (e.at n raw).below k = e.at (n + k) raw := by
  cases e <;> rfl

/-! ## Accepted lines after other classes -/

/-- The progress with these classes read before. -/
def Progress.after (cs : List ClassUnit) (p : Progress) : Progress :=
  ⟨cs ++ p.classes, p.current⟩

/-- A method is open only in a class. -/
def Progress.InClass (p : Progress) : Prop :=
  p.current ≠ none → p.classes ≠ []

section Lines
variable {line raw : List Char} {ls : List (List Char)} {p q : Progress} {n : Nat} {e : Error}

theorem attach_append {m : Method} {cs ds : List ClassUnit} (h : ds ≠ []) :
    attach m (cs ++ ds) = cs ++ attach m ds := by
  rcases List.eq_nil_or_concat ds with rfl | ⟨ds, d, rfl⟩
  · exact absurd rfl h
  · rw [List.concat_eq_append, ← List.append_assoc, attach_append_singleton,
      attach_append_singleton, List.append_assoc]

theorem attach_ne_nil {m : Method} {cs : List ClassUnit} (h : cs ≠ []) : attach m cs ≠ [] := by
  rcases List.eq_nil_or_concat cs with rfl | ⟨cs, c, rfl⟩
  · exact absurd rfl h
  · rw [List.concat_eq_append, attach_append_singleton]
    simp

theorem Advances.classes_ne_nil (h : Advances line p q) (hp : p.classes ≠ []) :
    q.classes ≠ [] := by
  cases h with
  | classHeader => simp
  | kotlinHeader => simp
  | methodHeader => exact hp
  | entry => exact hp
  | methodEnd => exact attach_ne_nil hp

theorem Advances.inClass (h : Advances line p q) (hp : p.InClass) : q.InClass := by
  cases h with
  | classHeader => intro hopen; exact absurd rfl hopen
  | kotlinHeader => intro hopen; exact absurd rfl hopen
  | methodHeader _ inClass => exact fun _ => inClass
  | entry => exact fun _ => hp (by simp)
  | methodEnd => intro hopen; exact absurd rfl hopen

theorem Advances.after (h : Advances line p q) (hp : p.InClass) (cs : List ClassUnit) :
    Advances line (p.after cs) (q.after cs) := by
  cases h with
  | classHeader words =>
    simp only [Progress.after, ← List.append_assoc]
    exact .classHeader words
  | kotlinHeader words =>
    simp only [Progress.after, ← List.append_assoc]
    exact .kotlinHeader words
  | methodHeader words inClass =>
    exact .methodHeader words (List.append_ne_nil_of_right_ne_nil cs inClass)
  | entry entry fresh => exact .entry entry fresh
  | methodEnd words defined =>
    rw [Progress.after, Progress.after, ← attach_append (hp (by simp))]
    exact .methodEnd words defined

theorem Runs.classes_ne_nil (h : Runs p ls q) (hp : p.classes ≠ []) : q.classes ≠ [] := by
  induction h with
  | done => exact hp
  | line first _ ih => exact ih (first.classes_ne_nil hp)

theorem Runs.after (h : Runs p ls q) (hp : p.InClass) (cs : List ClassUnit) :
    Runs (p.after cs) ls (q.after cs) := by
  induction h with
  | done => exact .done
  | line first _ ih => exact .line (first.after hp cs) (ih (first.inClass hp))

/-! ## Refused lines after other classes -/

/-- A refused line is refused for the same reason wherever it stands, unless it is a method outside
of a class and there now is a class before it. -/
theorem Refuses.after (h : Refuses line n raw p e) {cs : List ClassUnit}
    (hcs : cs = [] ∨ e.fault? ≠ some .methodOutsideClass) (k : Nat) :
    Refuses line (n + k) raw (p.after cs) (e.below k) := by
  cases h with
  | classInMethod words => exact .classInMethod words
  | methodInMethod words => exact .methodInMethod words
  | classHeader words fault => exact .classHeader words fault
  | outsideClass words =>
    rcases hcs with rfl | hne
    · exact .outsideClass words
    · exact absurd rfl hne
  | methodHeader words inClass fault =>
    exact .methodHeader words (List.append_ne_nil_of_right_ne_nil cs inClass) fault
  | outsideMethod words noClass noMethod => exact .outsideMethod words noClass noMethod
  | annotationLine words fault => exact .annotationLine words fault
  | instruction words other refused =>
    rw [InstructionError.below_at]
    exact .instruction words other refused
  | definedTwice words other read defines before =>
    exact .definedTwice words other read defines before
  | methodEnd words undefined => exact .methodEnd words undefined

end Lines

/-! ## The one fault that depends on the classes before -/

/-- The fault is not the one that is reported. -/
def Avoids {α : Type} (f : Fault) (x : Except InstructionError α) : Prop :=
  x ≠ .error (.fault f)

section Avoids
variable {f g : Fault}

theorem Avoids.bind {α β : Type} {x : Except InstructionError α}
    {k : α → Except InstructionError β} (hx : Avoids f x) (hk : ∀ a, Avoids f (k a)) :
    Avoids f (x >>= k) := by
  intro h
  rcases bind_eq_error_iff.mp h with h | ⟨a, -, h⟩
  · exact hx h
  · exact hk a h

theorem avoids_ok {α : Type} (a : α) : Avoids f (.ok a) := by
  intro h
  cases h

theorem avoids_fault {α : Type} (hg : g ≠ f) : Avoids f (.error (.fault g) : Except _ α) := by
  intro h
  cases h
  exact hg rfl

theorem avoids_readWord {α : Type} {read? : String → Option α} (hg : g ≠ f) (ws : List String) :
    Avoids f (readWord read? g ws) := by
  cases ws with
  | nil => exact avoids_fault hg
  | cons w ws =>
    rw [readWord]
    cases read? w with
    | none => exact avoids_fault hg
    | some a => exact avoids_ok _

theorem avoids_finish (hf : .trailingOperand ≠ f) (i : Instruction) (ws : List String) :
    Avoids f (finish i ws) := by
  cases ws with
  | nil => exact avoids_ok _
  | cons w ws => exact avoids_fault hf

end Avoids

theorem avoids_readLineNumber (ws : List String) :
    Avoids .methodOutsideClass (readLineNumber ws) := by
  refine (avoids_readWord (by decide) _).bind fun _ => ?_
  refine (avoids_readWord (by decide) _).bind fun _ => ?_
  exact avoids_ok _

theorem avoids_readField (o : Opcode) (ws : List String) :
    Avoids .methodOutsideClass (readField o ws) := by
  refine (avoids_readWord (by decide) _).bind fun _ => ?_
  refine (avoids_readWord (by decide) _).bind fun _ => ?_
  refine (avoids_readWord (by decide) _).bind fun _ => ?_
  exact avoids_finish (by decide) _ _

theorem avoids_readCall (o : Opcode) (ws : List String) :
    Avoids .methodOutsideClass (readCall o ws) := by
  refine (avoids_readWord (by decide) _).bind fun _ => ?_
  refine (avoids_readWord (by decide) _).bind fun ⟨_, extra⟩ => ?_
  cases extra with
  | nil => exact avoids_ok _
  | cons flag extra =>
    simp only
    split
    · exact avoids_finish (by decide) _ _
    · exact avoids_fault (by decide)

theorem avoids_readOperands (m : Mnemonic) (ws : List String) (rest : List Char) :
    Avoids .methodOutsideClass (readOperands m ws rest) := by
  unfold readOperands
  cases m.operandKind with
  | none => exact avoids_finish (by decide) _ _
  | field => exact avoids_readField _ _
  | method => exact avoids_readCall _ _
  | constant =>
    simp only
    split
    · exact avoids_fault (by decide)
    · exact avoids_ok _
  | slot | integer | type | jump =>
    exact (avoids_readWord (by decide) _).bind fun _ => avoids_finish (by decide) _ _

theorem avoids_readInstruction (text : List Char) :
    Avoids .methodOutsideClass (readInstruction text) := by
  unfold readInstruction
  split
  · exact avoids_fault (by decide)
  · split
    · split
      · exact avoids_ok _
      · exact avoids_fault (by decide)
    · split_ifs
      · exact avoids_readLineNumber _
      · exact avoids_ok _
      · split
        · exact avoids_readOperands _ _ _
        · intro h
          cases h

theorem readClassHeader_ne_outsideClass (ws : List String) :
    readClassHeader ws ≠ .error .methodOutsideClass := by
  intro h
  unfold readClassHeader at h
  split at h
  · cases h
  · cases h
  · split at h <;> cases h

theorem readMethodHeader_ne_outsideClass (ws : List String) :
    readMethodHeader ws ≠ .error .methodOutsideClass := by
  intro h
  unfold readMethodHeader at h
  split at h <;> cases h

theorem readAnnotationLine_ne_outsideClass (ws : List String) :
    readAnnotationLine ws ≠ .error .methodOutsideClass := by
  intro h
  unfold readAnnotationLine at h
  split at h
  · split at h <;> cases h
  · cases h

/-- Where a class is open, no method is refused for standing outside of one. -/
theorem Refuses.classes_eq_nil {line raw : List Char} {n : Nat} {p : Progress} {e : Error}
    (h : Refuses line n raw p e) (he : e.fault? = some .methodOutsideClass) : p.classes = [] := by
  cases h with
  | outsideClass => rfl
  | classHeader _ fault => cases he; exact absurd fault (readClassHeader_ne_outsideClass _)
  | methodHeader _ _ fault => cases he; exact absurd fault (readMethodHeader_ne_outsideClass _)
  | annotationLine _ fault => cases he; exact absurd fault (readAnnotationLine_ne_outsideClass _)
  | @instruction cs m head ws e _ _ refused =>
    cases e with
    | fault f => cases he; exact absurd refused (avoids_readInstruction _)
    | unknownMnemonic word => cases he
  | _ => cases he

theorem fault?_ne_outsideClass_of_readLines {p : Progress} {n : Nat} {ls : List (List Char)}
    {e : Error} (h : readLines p n ls = .error e) (hp : p.classes ≠ []) :
    e.fault? ≠ some .methodOutsideClass := by
  obtain ⟨before, raw, after, q, -, hq, hrefused⟩ := readLines_eq_error_iff.mp h
  intro he
  exact (readLines_eq_ok_iff.mp hq).classes_ne_nil hp (hrefused.classes_eq_nil he)

/-! ## Two texts -/

theorem readLines_after {ls : List (List Char)} {cs : List ClassUnit} {q : Progress} {n m : Nat}
    (h : readLines {} n ls = .ok q) :
    readLines ⟨cs, none⟩ m ls = .ok (q.after cs) := by
  have hstart : Progress.after cs {} = ⟨cs, none⟩ := by simp [Progress.after]
  rw [readLines_eq_ok_iff] at h ⊢
  rw [← hstart]
  exact h.after (fun hopen => absurd rfl hopen) cs

/-- After an accepted text that is closed, the reading goes on with its classes. -/
theorem readLines_of_append {p s : String} {cs : List ClassUnit} (hp : Closed p.toList)
    (hcs : read p = .ok cs) :
    readLines {} 1 (lines (p ++ s).toList) =
      readLines ⟨cs, none⟩ (1 + (lines p.toList).length) (lines s.toList) := by
  have hlines : readLines {} 1 (lines p.toList) = .ok ⟨cs, none⟩ :=
    readLines_eq_ok_iff.mpr (read_eq_ok_iff.mp hcs)
  rw [String.toList_append, lines_append hp, readLines_append, hlines]
  rfl

theorem read_append_eq_ok {p s : String} {cs ds : List ClassUnit} (hp : Closed p.toList)
    (hcs : read p = .ok cs) (hds : read s = .ok ds) : read (p ++ s) = .ok (cs ++ ds) := by
  rw [read_eq_ok_iff_isListing] at hcs hds ⊢
  rw [String.toList_append, lines_append hp, significant, List.map_append, List.filter_append]
  exact hcs.append hds

theorem read_append_eq_error {p s : String} {cs : List ClassUnit} {e : Error}
    (hp : Closed p.toList) (hcs : read p = .ok cs) (he : read s = .error e)
    (hout : cs = [] ∨ e.fault? ≠ some .methodOutsideClass) :
    read (p ++ s) = .error (e.below (lines p.toList).length) := by
  rw [read_eq_error_iff, readLines_of_append hp hcs]
  rcases read_eq_error_iff.mp he with h | ⟨ds, m, h, rfl⟩
  · left
    obtain ⟨before, raw, after, q, hlines, hq, hrefused⟩ := readLines_eq_error_iff.mp h
    have hnumber : 1 + (lines p.toList).length + before.length =
        1 + before.length + (lines p.toList).length := by omega
    refine readLines_eq_error_iff.mpr ⟨before, raw, after, q.after cs, hlines, ?_, ?_⟩
    · exact readLines_after hq
    · rw [hnumber]
      exact hrefused.after hout _
  · right
    exact ⟨cs ++ ds, m, readLines_after h, rfl⟩

theorem read_append_ne_outsideClass {p s : String} {cs : List ClassUnit} {e : Error}
    (hp : Closed p.toList) (hcs : read p = .ok cs) (hne : cs ≠ [])
    (he : read (p ++ s) = .error e) : e.fault? ≠ some .methodOutsideClass := by
  rw [read_eq_error_iff, readLines_of_append hp hcs] at he
  rcases he with h | ⟨ds, m, -, rfl⟩
  · exact fault?_ne_outsideClass_of_readLines h hne
  · intro hfault
    cases hfault

/-- After a closed text that is a listing, a listing is read as it is read alone and its classes
follow those of the first; and what is refused alone is refused for the same reason, so many lines
further down, except that a method outside of a class is refused no more for that if the first text
has classes. -/
theorem read_append {p : String} {cs : List ClassUnit} (hp : Closed p.toList)
    (hcs : read p = .ok cs) (s : String) :
    (∀ ds, read s = .ok ds → read (p ++ s) = .ok (cs ++ ds)) ∧
      ∀ e, read s = .error e →
        (read (p ++ s) = .error (e.below (lines p.toList).length) ↔
          ¬ (cs ≠ [] ∧ ∃ n raw, e = .malformed n .methodOutsideClass raw)) := by
  refine ⟨fun ds hds => read_append_eq_ok hp hcs hds, fun e he => ⟨?_, ?_⟩⟩
  · rintro hread ⟨hne, n, raw, rfl⟩
    exact read_append_ne_outsideClass hp hcs hne hread rfl
  · intro hout
    refine read_append_eq_error hp hcs he ?_
    by_contra hcontra
    simp only [not_or, not_not] at hcontra
    obtain ⟨hne, hfault⟩ := hcontra
    cases e with
    | malformed n f raw =>
      cases hfault
      exact hout ⟨hne, n, raw, rfl⟩
    | _ => cases hfault

/-- A label of the first text may be defined again after it, and lines count on. -/
theorem read_append_label_again :
    Closed ".class A kotlin\n.method m ()V\nL0\n.end\n\n".toList ∧
      read (".class A kotlin\n.method m ()V\nL0\n.end\n\n" ++
          ".class B\n.method n ()V\nL0\n.end") =
        .ok [⟨"A", true, [⟨"m", "()V", [], [], [.label 0]⟩]⟩,
          ⟨"B", false, [⟨"n", "()V", [], [], [.label 0]⟩]⟩] ∧
      read (".class A kotlin\n.method m ()V\nL0\n.end\n\n" ++
          ".class B\n.method n ()V\nL0\nL00\n.end") =
        .error (.duplicateLabel 9 0) := by
  have hp : Closed ".class A kotlin\n.method m ()V\nL0\n.end\n\n".toList := by decide
  have hcs : read ".class A kotlin\n.method m ()V\nL0\n.end\n\n" =
      .ok [⟨"A", true, [⟨"m", "()V", [], [], [.label 0]⟩]⟩] := by rfl
  have herror : read ".class B\n.method n ()V\nL0\nL00\n.end" =
      .error (.duplicateLabel 4 0) := by rfl
  refine ⟨hp, (read_append hp hcs _).1 _ (by rfl), ?_⟩
  refine ((read_append hp hcs _).2 _ herror).mpr ?_
  rintro ⟨-, n, raw, h⟩
  cases h

end ComposeGuards.Listing
