import ComposeGuards.Proofs.Bytecode.Renaming
import ComposeGuards.Proofs.Guard.Congruence

/-! # Names of labels do not matter

A scan asks where a label is defined and never which label it is. So a method is scanned alike under
any names for its labels, and it misses the same labels, up to their names.
-/
namespace ComposeGuards

theorem Body.scansAlike_rename {f : Label → Label} (hf : Function.Injective f) (b : Body) :
    b.ScansAlike (b.rename f) where
  callees := by
    simp only [rename, List.map_map, Function.comp_def, Instruction.callee?_rename]
  opcodes m := by
    simp only [rename, List.map_map, Function.comp_def, Instruction.hasOpcode_rename]
  reals := by
    simp only [rename, List.map_map, Function.comp_def, Instruction.isReal_rename]
  targets m i := by
    simp only [jumpAt?_rename, Option.map_map, Function.comp_def, position?_rename _ hf]

/-- Under names that keep different labels different, a scan with any settings finds the same guards
and writes the same messages. Every label is found where it was found before, and the undefined
labels are the new names of the undefined ones, in increasing order. -/
theorem label_names_carry_no_meaning {f : Label → Label} (hf : Function.Injective f) (m : Method) :
    (∀ s : Settings, s.findings (m.rename f) = s.findings m ∧
      s.scanLog (m.rename f) = s.scanLog m) ∧
      (∀ l, (m.rename f).body.position? (f l) = m.body.position? l) ∧
      (m.rename f).body.undefinedLabels.Pairwise (· < ·) ∧
      (m.rename f).body.undefinedLabels = (m.body.undefinedLabels.map f).mergeSort := by
  have hscan : m.body.ScansAlike (m.rename f).body := m.body.scansAlike_rename hf
  refine ⟨fun s => ⟨(s.findings_congr hscan).symm, (s.scanLog_congr hscan rfl rfl).symm⟩, ?_, ?_, ?_⟩
  · exact m.body.position?_rename hf
  · exact (m.rename f).body.undefinedLabels_pairwise
  · exact m.body.undefinedLabels_rename hf

/-- A skip guard whose target is defined twice, and two labels that are defined nowhere. -/
def unboundMethod : Method where
  name := "m"
  desc := "()V"
  body := [.lineNumber 7 4, .call (.named .invokeinterface) Guard.skip.signature true,
    .jump (.named .ifne) 2, .label 2, .jump (.named .goto) 5, .label 2]

/-- Names in the opposite order turn the undefined labels around. -/
theorem label_names_carry_no_meaning_reversed :
    Function.Injective (fun l : Label => 9 - l) ∧
      Settings.standard.findings unboundMethod = [⟨.skip, 1, [⟨0, 2⟩, ⟨3, 5⟩]⟩] ∧
      Settings.standard.findings (unboundMethod.rename fun l => 9 - l) =
        [⟨.skip, 1, [⟨0, 2⟩, ⟨3, 5⟩]⟩] ∧
      unboundMethod.body.undefinedLabels = [4, 5] ∧
      (unboundMethod.rename fun l => 9 - l).body.undefinedLabels =
        ([4, 5].map fun l => 9 - l).mergeSort ∧
      (unboundMethod.rename fun l => 9 - l).body.undefinedLabels = [9 - 5, 9 - 4] := by
  have hf : Function.Injective (fun l : Label => 9 - l) := fun _ _ h => by simpa using h
  have hfindings : Settings.standard.findings unboundMethod =
      [⟨.skip, 1, [⟨0, 2⟩, ⟨3, 5⟩]⟩] := by rfl
  have hundefined : unboundMethod.body.undefinedLabels = [4, 5] := by rfl
  obtain ⟨hscan, -, -, hlabels⟩ := label_names_carry_no_meaning hf unboundMethod
  rw [hundefined] at hlabels
  exact ⟨hf, hfindings, (hscan .standard).1.trans hfindings, hundefined, hlabels, by rfl⟩

end ComposeGuards
