import ComposeGuards.Proofs.Guard.Recognition
import ComposeGuards.Proofs.Listing.ReadTrees

/-! # Guards in methods that were read

Every method that is read from a listing is fit for the scan: its opcodes are named ones in the form
that their operand kinds prescribe, its names and descriptors are words, and each label that a jump
or a line number refers to stands at exactly one position, where it is found. So no anchor of such a
method is declined for a jump to a label that is missing.
-/
namespace ComposeGuards

namespace Body

/-- A label that is defined once stands at one position. -/
theorem LabelsBound.position_unique {b : Body} (h : b.LabelsBound) {l : Label} {i j : Nat}
    (hi : b[i]? = some (.label l)) (hj : b[j]? = some (.label l)) : i = j := by
  have hpairs : b.Pairwise fun x y => ∀ k, x.defines? = some k → y.defines? ≠ some k := by
    refine (List.pairwise_filterMap.mp h.once).imp ?_
    intro x y hxy k hx hy
    exact hxy k hx k hy rfl
  rw [List.pairwise_iff_getElem] at hpairs
  obtain ⟨hilt, hix⟩ := List.getElem?_eq_some_iff.mp hi
  obtain ⟨hjlt, hjx⟩ := List.getElem?_eq_some_iff.mp hj
  rcases Nat.lt_trichotomy i j with hlt | heq | hgt
  · exact absurd (by rw [hjx]; rfl) (hpairs i j hilt hjlt hlt l (by rw [hix]; rfl))
  · exact heq
  · exact absurd (by rw [hix]; rfl) (hpairs j i hjlt hilt hgt l (by rw [hjx]; rfl))

/-- A label that is referred to is found where it is defined. -/
theorem LabelsBound.exists_position {b : Body} (h : b.LabelsBound) {x : Instruction} (hx : x ∈ b)
    {l : Label} (hl : x.refersTo? = some l) :
    ∃ i, b.position? l = some i ∧ b[i]? = some (.label l) := by
  have hdefined : l ∈ b.definedLabels := h.defined l (List.mem_filterMap.mpr ⟨x, hx, hl⟩)
  cases hp : b.position? l with
  | none => exact absurd hdefined (position?_eq_none_iff.mp hp)
  | some i => exact ⟨i, rfl, position?_eq_some hp⟩

end Body

namespace Guard

/-- A target is missing only for a jump of the body to a label that the body does not define. -/
theorem exists_jump_of_jumpFrom_eq_targetMissing {b : Body} {m : Mnemonic} {e : Mismatch}
    {jump : Nat} (he : e ≠ .targetMissing) (h : jumpFrom b m e jump = .error .targetMissing) :
    ∃ l, b.Jumps m.byte jump l ∧ b.position? l = none := by
  unfold jumpFrom at h
  cases hj : b.jumpAt? m jump with
  | none => rw [hj] at h; cases h; exact absurd rfl he
  | some l =>
    cases hp : b.position? l with
    | none => exact ⟨l, Body.jumpAt?_eq_some_iff.mp hj, hp⟩
    | some target => simp [hj, hp] at h

theorem exists_jump_of_spans_eq_targetMissing {b : Body} {g : Guard} {call : Nat}
    (h : g.spans b call = .error .targetMissing) :
    ∃ byte i l, b.Jumps byte i l ∧ b.position? l = none := by
  cases g with
  | skip =>
    simp only [spans, skipSpans] at h
    cases hj : jumpFrom b .ifne .noIfne (call + 1) with
    | ok target => rw [hj] at h; cases h
    | error e =>
      rw [hj] at h
      cases h
      exact ⟨_, _, exists_jump_of_jumpFrom_eq_targetMissing (by decide) hj⟩
  | scope =>
    simp only [spans, scopeSpans] at h
    split at h
    · cases hj : jumpFrom b .ifnull .noIfnull (call + 2) with
      | error e =>
        rw [hj] at h
        cases h
        exact ⟨_, _, exists_jump_of_jumpFrom_eq_targetMissing (by decide) hj⟩
      | ok target =>
        simp only [hj] at h
        split at h
        · cases h
        · split_ifs at h <;> cases h
    · cases h
  | trace =>
    simp only [spans, traceSpans] at h
    cases hj : jumpFrom b .ifeq .noIfeq (call + 1) with
    | error e =>
      rw [hj] at h
      cases h
      exact ⟨_, _, exists_jump_of_jumpFrom_eq_targetMissing (by decide) hj⟩
    | ok target =>
      simp only [hj] at h
      split_ifs at h
      cases h

theorem spans_ne_targetMissing {b : Body} (h : b.LabelsBound) (g : Guard) (call : Nat) :
    g.spans b call ≠ .error .targetMissing := by
  intro hs
  obtain ⟨byte, i, l, ⟨o, hx, -⟩, hnone⟩ := exists_jump_of_spans_eq_targetMissing hs
  obtain ⟨j, hj, -⟩ := h.exists_position (List.mem_of_getElem? hx) rfl
  rw [hnone] at hj
  cases hj

end Guard

namespace Listing
open Text

/-! ## The opcodes that are read -/

theorem SpellsOperands.exists_named {m : Mnemonic} {rest : List Char} {ws : List String}
    {i : Instruction} (h : SpellsOperands m rest ws i) : ∃ n, i.opcode? = some (.named n) := by
  cases h <;> exact ⟨_, rfl⟩

theorem named_of_readInstruction {line : List Char} {i : Instruction} {o : Opcode}
    (h : readInstruction line = .ok i) (ho : i.opcode? = some o) : ∃ n, o = .named n := by
  have hspells := readInstruction_eq_ok_iff.mp h
  generalize words line = ws at hspells
  cases hspells with
  | opcode operands =>
    obtain ⟨n, hn⟩ := operands.exists_named
    rw [hn] at ho
    exact ⟨n, (Option.some.inj ho).symm⟩
  | _ => cases ho

end Listing

/-! ## Methods that are fit for the scan -/

/-- What the scan may rely on in a method of a listing. -/
structure Method.Scannable (m : Method) : Prop where
  once : ∀ (l : Label) (i j : Nat),
    m.body[i]? = some (.label l) → m.body[j]? = some (.label l) → i = j
  found : ∀ x ∈ m.body, ∀ l : Label, x.refersTo? = some l →
    ∃ i, m.body.position? l = some i ∧ m.body[i]? = some (.label l)
  named : ∀ x ∈ m.body, ∀ o, x.opcode? = some o → ∃ n, o = .named n
  forms : ∀ x ∈ m.body, x.Fits
  texts : m.Texts Text.IsWord IsConstant

theorem Settings.outcome_ne_targetMissing {s : Settings} {m : Method} (h : m.body.LabelsBound)
    {x : Sighting} (hx : x ∈ s.sightings m) : x.outcome ≠ .error .targetMissing := by
  obtain ⟨-, houtcome⟩ := Body.mem_sightings.mp (List.mem_filter.mp hx).1
  rw [houtcome]
  exact Guard.spans_ne_targetMissing h x.guard x.call

namespace Listing

theorem IsMethod.scannable {ls : List (List Char)} {m : Method} (h : IsMethod ls m)
    (htexts : m.Texts Text.IsWord IsConstant) : m.Scannable where
  once _ _ _ := h.fits.labels.position_unique
  found _ hx _ := h.fits.labels.exists_position hx
  named x hx _ := by
    obtain ⟨line, -, hread⟩ := h.exists_instruction hx
    exact named_of_readInstruction hread
  forms := h.fits.forms
  texts := htexts

/-- Every class and every method that is read has words for its names and descriptors, and every
method is fit for the scan. No guard, wherever it is looked for in such a method and whatever the
settings, is declined for a target that is missing. -/
theorem scannable_of_read {text : String} {cs : List ClassUnit} (h : read text = .ok cs) :
    ∀ c ∈ cs, Text.IsWord c.name ∧ ∀ m ∈ c.methods, m.Scannable ∧
      (∀ g call, Guard.spans g m.body call ≠ .error .targetMissing) ∧
      ∀ s : Settings, ∀ x ∈ s.sightings m, x.outcome ≠ .error .targetMissing := by
  intro c hc
  obtain ⟨block, -, hclass⟩ := (read_eq_ok_iff_isListing.mp h).exists_class hc
  have hwell := wellFormed_of_read h c hc
  refine ⟨hwell.texts.name, fun m hm => ?_⟩
  obtain ⟨ls, -, hmethod⟩ := hclass.exists_method hm
  have hbound : m.body.LabelsBound := hmethod.fits.labels
  exact ⟨hmethod.scannable (hwell.texts.methods m hm), Guard.spans_ne_targetMissing hbound,
    fun _ _ => Settings.outcome_ne_targetMissing hbound⟩

/-- A method that jumps forward to a label, which a line number refers to as well. -/
def jumpingMethod : Method where
  name := "m"
  desc := "()V"
  body := [.plain (.named .nop), .plain (.named .dup), .jump (.named .ifnull) 1, .lineNumber 7 1,
    .label 1, .plain (.named .pop)]

/-- Zeros before the number of a label do not matter, and a label may be used before it is defined. -/
theorem scannable_jumpingMethod :
    read (".class A\n.method m ()V\n  NOP\n  DUP\n  IFNULL L01\n  LINENUMBER 7 L1\n" ++
        "L001\n  POP\n.end\n") = .ok [⟨"A", false, [jumpingMethod]⟩] ∧
      jumpingMethod.Scannable ∧
      Guard.scope.spans jumpingMethod.body 0 = .ok [⟨2, 5⟩] ∧
      ∀ g call, Guard.spans g jumpingMethod.body call ≠ .error .targetMissing := by
  have hread : read (".class A\n.method m ()V\n  NOP\n  DUP\n  IFNULL L01\n  LINENUMBER 7 L1\n" ++
      "L001\n  POP\n.end\n") = .ok [⟨"A", false, [jumpingMethod]⟩] := by rfl
  obtain ⟨-, hmethods⟩ := scannable_of_read hread _ List.mem_cons_self
  obtain ⟨hscannable, hspans, -⟩ := hmethods _ List.mem_cons_self
  exact ⟨hread, hscannable, by rfl, hspans⟩

end Listing
end ComposeGuards
