import ComposeGuards.Listing.Printer
import ComposeGuards.Proofs.Guard.Congruence
import Mathlib.Data.List.Forall2

/-! # Bare and named opcodes

A bare byte may stand for the name that the table gives to it. Methods that differ only in such
aliases compare equal, are printed alike, and are scanned alike: no function looks at more of an
opcode than its byte.
-/
namespace ComposeGuards

namespace Opcode
variable {o p : Opcode}

theorem isStackOp_congr (h : o.byte = p.byte) : o.isStackOp = p.isStackOp := by
  simp only [isStackOp, mnemonic?_congr h]

theorem same_congr (h : o.byte = p.byte) (expected : Opcode) :
    o.same expected = p.same expected := by
  simp only [same, h]

end Opcode

namespace Instruction

/-- The same instruction, where opcodes only need to have the same byte. -/
inductive Aliased : Instruction → Instruction → Prop
  | label (l : Label) : Aliased (.label l) (.label l)
  | lineNumber (line : UInt32) (start : Label) :
      Aliased (.lineNumber line start) (.lineNumber line start)
  | frame : Aliased .frame .frame
  | call {o p : Opcode} (byte : o.byte = p.byte) (callee : MemberRef) (onInterface : Bool) :
      Aliased (.call o callee onInterface) (.call p callee onInterface)
  | jump {o p : Opcode} (byte : o.byte = p.byte) (target : Label) :
      Aliased (.jump o target) (.jump p target)
  | slot {o p : Opcode} (byte : o.byte = p.byte) (index : UInt16) :
      Aliased (.slot o index) (.slot p index)
  | integer {o p : Opcode} (byte : o.byte = p.byte) (value : Int32) :
      Aliased (.integer o value) (.integer p value)
  | type {o p : Opcode} (byte : o.byte = p.byte) (desc : String) :
      Aliased (.type o desc) (.type p desc)
  | field {o p : Opcode} (byte : o.byte = p.byte) (member : MemberRef) :
      Aliased (.field o member) (.field p member)
  | constant (value : String) : Aliased (.constant value) (.constant value)
  | plain {o p : Opcode} (byte : o.byte = p.byte) : Aliased (.plain o) (.plain p)

namespace Aliased
variable {i j : Instruction} (h : Aliased i j)
include h

theorem normalize_eq : i.normalize = j.normalize := by
  cases h <;> simp only [normalize, Opcode.normalize, *]

theorem text_eq : i.text = j.text := by
  rw [← text_normalize i, ← text_normalize j, h.normalize_eq]

theorem isMarker_eq : i.isMarker = j.isMarker := by
  rw [← isMarker_normalize i, ← isMarker_normalize j, h.normalize_eq]

theorem defines?_eq : i.defines? = j.defines? := by
  rw [← defines?_normalize i, ← defines?_normalize j, h.normalize_eq]

theorem refersTo?_eq : i.refersTo? = j.refersTo? := by
  rw [← refersTo?_normalize i, ← refersTo?_normalize j, h.normalize_eq]

theorem callee?_eq : i.callee? = j.callee? := by
  rw [← callee?_normalize i, ← callee?_normalize j, h.normalize_eq]

theorem isReal_eq : i.isReal = j.isReal := by
  rw [isReal_eq_not_isMarker, isReal_eq_not_isMarker, h.isMarker_eq]

theorem kind_eq : i.kind = j.kind := by
  cases h with
  | plain byte => simp only [kind, Opcode.isStackOp_congr byte]
  | _ => rfl

theorem hasOpcode_eq (m : Mnemonic) : i.hasOpcode m = j.hasOpcode m := by
  cases h <;> simp only [hasOpcode, opcode?, Option.any_some, Opcode.is, *]

theorem jumpTarget?_eq (expected : Opcode) : i.jumpTarget? expected = j.jumpTarget? expected := by
  cases h with
  | jump byte target => simp only [jumpTarget?, Opcode.same_congr byte]
  | _ => rfl

end Aliased

end Instruction

namespace Body

/-- The same instructions one by one, up to aliases. -/
abbrev Aliased (b b' : Body) : Prop :=
  List.Forall₂ Instruction.Aliased b b'

namespace Aliased
variable {b b' : Body} (h : b.Aliased b')
include h

/-- What aliased instructions agree on, the bodies agree on everywhere. -/
theorem map_eq {α : Type} {f : Instruction → α} (hf : ∀ i j, i.Aliased j → f i = f j) :
    b.map f = b'.map f := by
  rw [← List.forall₂_eq_eq_eq, List.forall₂_map_left_iff, List.forall₂_map_right_iff]
  exact h.imp hf

theorem normalize_eq : b.normalize = b'.normalize :=
  h.map_eq fun _ _ hij => hij.normalize_eq

theorem position?_eq (l : Label) : b.position? l = b'.position? l := by
  have hdefined : b.map Instruction.defines? = b'.map Instruction.defines? :=
    h.map_eq fun _ _ hij => hij.defines?_eq
  have hfind : ∀ c : Body,
      c.position? l = (c.map Instruction.defines?).findIdx? fun d => d = some l := by
    intro c
    rw [position?_eq_findIdx?, List.findIdx?_map]
    rfl
  rw [hfind, hfind, hdefined]

theorem undefinedLabels_eq : b.undefinedLabels = b'.undefinedLabels := by
  have hused : b.map Instruction.refersTo? = b'.map Instruction.refersTo? :=
    h.map_eq fun _ _ hij => hij.refersTo?_eq
  have hlabels : ∀ c : Body, c.usedLabels = (c.map Instruction.refersTo?).filterMap id := by
    intro c
    rw [usedLabels, List.filterMap_map]
    rfl
  refine b.undefinedLabels_pairwise.eq_of_mem_iff b'.undefinedLabels_pairwise ?_
  intro l
  rw [mem_undefinedLabels_iff, mem_undefinedLabels_iff, ← position?_eq_none_iff,
    ← position?_eq_none_iff, h.position?_eq, hlabels, hlabels, hused]

theorem jumpAt?_eq (m : Mnemonic) (i : Nat) : b.jumpAt? m i = b'.jumpAt? m i := by
  have htargets : b.map (Instruction.jumpTarget? (.named m)) =
      b'.map (Instruction.jumpTarget? (.named m)) :=
    h.map_eq fun _ _ hij => hij.jumpTarget?_eq (.named m)
  have hjump : ∀ c : Body,
      c.jumpAt? m i = (c.map (Instruction.jumpTarget? (.named m)))[i]?.bind id := by
    intro c
    rw [jumpAt?, List.getElem?_map, Option.bind_map]
    rfl
  rw [hjump, hjump, htargets]

theorem scansAlike : b.ScansAlike b' where
  callees := h.map_eq fun _ _ hij => hij.callee?_eq
  opcodes m := h.map_eq fun _ _ hij => hij.hasOpcode_eq m
  reals := h.map_eq fun _ _ hij => hij.isReal_eq
  targets m i := by rw [h.jumpAt?_eq, show b.position? = b'.position? from funext h.position?_eq]

end Aliased

end Body

/-- Two methods with the same signature, annotations and instructions, up to aliases. -/
structure Method.Aliased (m m' : Method) : Prop where
  name : m.name = m'.name
  desc : m.desc = m'.desc
  visible : m.visible = m'.visible
  invisible : m.invisible = m'.invisible
  body : m.body.Aliased m'.body

theorem Method.Aliased.normalize_eq {m m' : Method} (h : m.Aliased m') :
    m.normalize = m'.normalize := by
  simp only [normalize, h.name, h.desc, h.visible, h.invisible, h.body.normalize_eq]

/-- Methods that differ only in the spelling of opcodes compare equal and are printed alike. Their
instructions agree one by one in kind, in being markers, in text and in the target that a jump on a
given opcode has. They miss the same labels, and under all settings a scan finds the same guards in
them and writes the same messages. -/
theorem aliased_methods_agree {m m' : Method} (h : m.Aliased m') :
    m.same m' = true ∧ Text.unlines m.lines = Text.unlines m'.lines ∧
      List.Forall₂ (fun i j => i.kind = j.kind ∧ i.isMarker = j.isMarker ∧ i.text = j.text ∧
        ∀ expected, i.jumpTarget? expected = j.jumpTarget? expected) m.body m'.body ∧
      m.body.undefinedLabels = m'.body.undefinedLabels ∧
      ∀ s : Settings, s.findings m = s.findings m' ∧ s.scanLog m = s.scanLog m' := by
  have hnormal : m.normalize = m'.normalize := h.normalize_eq
  have hlines : m.lines = m'.lines := by
    rw [← m.lines_normalize, ← m'.lines_normalize, hnormal]
  have hscan : m.body.ScansAlike m'.body := h.body.scansAlike
  refine ⟨decide_eq_true hnormal, congrArg Text.unlines hlines, ?_, h.body.undefinedLabels_eq, ?_⟩
  · exact h.body.imp fun _ _ hij =>
      ⟨hij.kind_eq, hij.isMarker_eq, hij.text_eq, hij.jumpTarget?_eq⟩
  · intro s
    exact ⟨s.findings_congr hscan, s.scanLog_congr hscan h.name h.desc⟩

/-- A scope guard whose `DUP`, `IFNULL` and `POP` have the opcodes that are given. -/
def scopeMethod (dup ifnull pop : Opcode) : Method where
  name := "m"
  desc := "()V"
  body := [.call (.named .invokeinterface) Guard.scope.signature true, .plain dup, .jump ifnull 1,
    .label 1, .plain pop]

/-- The guard is found whether its opcodes are named or bare. -/
theorem aliased_methods_agree_scope :
    (scopeMethod (.named .dup) (.named .ifnull) (.named .pop)).Aliased
        (scopeMethod (.bare 0x59) (.bare 0xc6) (.bare 0x57)) ∧
      (scopeMethod (.named .dup) (.named .ifnull) (.named .pop)).same
        (scopeMethod (.bare 0x59) (.bare 0xc6) (.bare 0x57)) = true ∧
      Settings.standard.findings (scopeMethod (.named .dup) (.named .ifnull) (.named .pop)) =
        [⟨.scope, 0, [⟨2, 4⟩]⟩] ∧
      Settings.standard.findings (scopeMethod (.bare 0x59) (.bare 0xc6) (.bare 0x57)) =
        [⟨.scope, 0, [⟨2, 4⟩]⟩] := by
  have haliased : (scopeMethod (.named .dup) (.named .ifnull) (.named .pop)).Aliased
      (scopeMethod (.bare 0x59) (.bare 0xc6) (.bare 0x57)) := by
    refine ⟨rfl, rfl, rfl, rfl, ?_⟩
    exact .cons (.call (by rfl) _ _) (.cons (.plain (by rfl)) (.cons (.jump (by rfl) 1)
      (.cons (.label 1) (.cons (.plain (by rfl)) .nil))))
  have hfound : Settings.standard.findings
      (scopeMethod (.named .dup) (.named .ifnull) (.named .pop)) = [⟨.scope, 0, [⟨2, 4⟩]⟩] := by
    rfl
  obtain ⟨hsame, -, -, -, hscan⟩ := aliased_methods_agree haliased
  exact ⟨haliased, hsame, hfound, (hscan .standard).1 ▸ hfound⟩

end ComposeGuards
