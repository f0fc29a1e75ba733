import ComposeGuards.Bytecode.Method
import ComposeGuards.Proofs.Bytecode.Positions
import Mathlib.Data.List.Nodup

/-! # Other names for labels

Labels may be renamed as long as different ones stay different. Whatever is defined, used or found
in the renamed body is the renaming of what is defined, used or found in the body, at the same place.
-/
namespace ComposeGuards

/-- The same instruction under other names for labels. -/
def Instruction.rename (f : Label → Label) : Instruction → Instruction
  | label l => label (f l)
  | lineNumber line start => lineNumber line (f start)
  | frame => frame
  | call o callee onInterface => call o callee onInterface
  | jump o target => jump o (f target)
  | slot o index => slot o index
  | integer o value => integer o value
  | type o desc => type o desc
  | field o member => field o member
  | constant value => constant value
  | plain o => plain o

def Body.rename (f : Label → Label) (b : Body) : Body :=
  b.map (Instruction.rename f)

def Method.rename (f : Label → Label) (m : Method) : Method :=
  { m with body := m.body.rename f }

namespace Instruction
variable (f : Label → Label) (i : Instruction)

@[simp] theorem opcode?_rename : (i.rename f).opcode? = i.opcode? := by
  cases i <;> rfl

@[simp] theorem callee?_rename : (i.rename f).callee? = i.callee? := by
  cases i <;> rfl

@[simp] theorem hasOpcode_rename (m : Mnemonic) : (i.rename f).hasOpcode m = i.hasOpcode m := by
  rw [hasOpcode, hasOpcode, opcode?_rename]

@[simp] theorem isReal_rename : (i.rename f).isReal = i.isReal := by
  rw [isReal, isReal, opcode?_rename]

@[simp] theorem defines?_rename : (i.rename f).defines? = i.defines?.map f := by
  cases i <;> rfl

@[simp] theorem refersTo?_rename : (i.rename f).refersTo? = i.refersTo?.map f := by
  cases i <;> rfl

@[simp] theorem jumpTarget?_rename (expected : Opcode) :
    (i.rename f).jumpTarget? expected = (i.jumpTarget? expected).map f := by
  cases i with
  | jump o target =>
    simp only [rename, jumpTarget?]
    split <;> rfl
  | _ => rfl

theorem isLabel_rename {f : Label → Label} (hf : Function.Injective f) (l : Label) :
    (i.rename f).isLabel (f l) = i.isLabel l := by
  simp only [isLabel, defines?_rename, ← Option.map_some, (Option.map_injective hf).eq_iff]

end Instruction

namespace Body
variable {f : Label → Label} (b : Body)

theorem definedLabels_rename : (b.rename f).definedLabels = b.definedLabels.map f := by
  simp only [definedLabels, rename, List.filterMap_map, List.map_filterMap, Function.comp_def,
    Instruction.defines?_rename]

theorem usedLabels_rename : (b.rename f).usedLabels = b.usedLabels.map f := by
  simp only [usedLabels, rename, List.filterMap_map, List.map_filterMap, Function.comp_def,
    Instruction.refersTo?_rename]

theorem jumpAt?_rename (m : Mnemonic) (i : Nat) :
    (b.rename f).jumpAt? m i = (b.jumpAt? m i).map f := by
  rw [jumpAt?, jumpAt?, rename, List.getElem?_map]
  cases b[i]? with
  | none => rfl
  | some x => exact x.jumpTarget?_rename f (.named m)

variable (hf : Function.Injective f)
include hf

/-- A label is found under its new name where it was found before. -/
theorem position?_rename (l : Label) : (b.rename f).position? (f l) = b.position? l := by
  rw [position?_eq_findIdx?, position?_eq_findIdx?, rename, List.findIdx?_map]
  simp only [Function.comp_def, Instruction.isLabel_rename _ hf]

theorem mem_undefinedLabels_rename {k : Label} :
    k ∈ (b.rename f).undefinedLabels ↔ k ∈ b.undefinedLabels.map f := by
  simp only [mem_undefinedLabels_iff, definedLabels_rename, usedLabels_rename, List.mem_map]
  constructor
  · rintro ⟨⟨l, hused, rfl⟩, hdefined⟩
    exact ⟨l, ⟨hused, fun hl => hdefined ⟨l, hl, rfl⟩⟩, rfl⟩
  · rintro ⟨l, ⟨hused, hdefined⟩, rfl⟩
    refine ⟨⟨l, hused, rfl⟩, ?_⟩
    rintro ⟨l', hl', hsame⟩
    rw [hf hsame] at hl'
    exact hdefined hl'

/-- The undefined labels of the renamed body are the new names of the undefined labels, sorted
anew. -/
theorem undefinedLabels_rename :
    (b.rename f).undefinedLabels = (b.undefinedLabels.map f).mergeSort := by
  have hsorted := (b.rename f).undefinedLabels_pairwise
  have hnodup : (b.undefinedLabels.map f).Nodup :=
    List.Nodup.map hf (b.undefinedLabels_pairwise.imp UInt32.ne_of_lt)
  have hperm : (b.rename f).undefinedLabels.Perm (b.undefinedLabels.map f) :=
    (List.perm_ext_iff_of_nodup (hsorted.imp UInt32.ne_of_lt) hnodup).mpr fun _ =>
      b.mem_undefinedLabels_rename hf
  have hmerge : (b.undefinedLabels.map f).mergeSort.Pairwise (· ≤ ·) := by
    have htrans : ∀ k l n : Label, decide (k ≤ l) = true → decide (l ≤ n) = true →
        decide (k ≤ n) = true := by
      simp only [decide_eq_true_eq]
      exact fun _ _ _ => UInt32.le_trans
    have htotal : ∀ k l : Label, (decide (k ≤ l) || decide (l ≤ k)) = true := by
      simp only [Bool.or_eq_true, decide_eq_true_eq]
      exact UInt32.le_total
    exact (List.pairwise_mergeSort htrans htotal _).imp of_decide_eq_true
  refine List.Perm.eq_of_pairwise (fun _ _ _ _ => UInt32.le_antisymm) ?_ hmerge ?_
  · exact hsorted.imp UInt32.le_of_lt
  · exact hperm.trans (List.mergeSort_perm _ _).symm

end Body
end ComposeGuards
