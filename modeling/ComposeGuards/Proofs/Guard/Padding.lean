import ComposeGuards.Proofs.Bytecode.Padding
import ComposeGuards.Proofs.Guard.Recognition
import Mathlib.Data.List.Sort

/-! # Metadata does not change what is excluded

A guard looks at the instructions directly after its anchor, at the target of a jump and at the
first executable instruction there. Line numbers and frames that are put in elsewhere move all of
these to their new places. So the same guards are found, their calls at their new places, and their
spans hold the same instructions.
-/
namespace ComposeGuards

/-- A position lies in one of the spans. -/
def Span.Within (ss : List Span) (i : Nat) : Prop :=
  ∃ x ∈ ss, x.first ≤ i ∧ i ≤ x.last

namespace Body

/-- Nothing is put in between a call that anchors a guard and the instructions that must follow it:
one for each guard, and one more for the scope guard. -/
structure Padded.LeavesAnchors {b b' : Body} {place : Nat → Nat} (_ : b.Padded b' place) : Prop where
  next : ∀ g call, b.Anchors g call → place (call + 1) = place call + 1
  second : ∀ call, b.Anchors .scope call → place (call + 2) = place call + 2

namespace Padded
variable {b b' : Body} {place : Nat → Nat} (h : b.Padded b' place)
include h

theorem anchors_iff {g : Guard} {j : Nat} :
    b'.Anchors g j ↔ ∃ call, place call = j ∧ b.Anchors g call := by
  constructor
  · rintro ⟨o, onInterface, hcall⟩
    obtain ⟨call, hplace, hcall⟩ := h.exists_place hcall rfl
    exact ⟨call, hplace, o, onInterface, hcall⟩
  · rintro ⟨call, rfl, o, onInterface, hcall⟩
    exact ⟨o, onInterface, by rw [h.kept, hcall]⟩

/-- A shape moves with its anchor, and its spans hold the same instructions. -/
theorem shape_place (hleaves : h.LeavesAnchors) {g : Guard} {call : Nat} {ss : List Span}
    (hanchor : b.Anchors g call) (hshape : g.Shape b call ss) :
    ∃ ss', g.Shape b' (place call) ss' ∧
      ∀ i < b.length, Span.Within ss i ↔ Span.Within ss' (place i) := by
  have hmono : ∀ {i j : Nat}, place i ≤ place j ↔ i ≤ j := h.strictMono.le_iff_le
  have hnext := hleaves.next g call hanchor
  cases hshape with
  | @skip l target jump defined =>
    have hjump : b'.Jumps 0x9a (place call + 1) l := by rwa [← hnext, h.jumps_iff]
    have hdefined : b'.FirstDefined l (place target) := h.firstDefined_iff.mpr ⟨target, rfl, defined⟩
    refine ⟨_, .skip hjump hdefined, ?_⟩
    intro i hi
    have hplace := h.lt_length_iff.mpr hi
    have hfirst : i ≤ call + 1 ↔ place i ≤ place call + 1 := by rw [← hnext, hmono]
    have hlast : target ≤ i ↔ place target ≤ place i := hmono.symm
    simp only [Span.Within, List.mem_cons, List.not_mem_nil, or_false, exists_eq_or_imp,
      exists_eq_left]
    omega
  | @scope l target pop dup jump defined real carries forward =>
    have hsecond := hleaves.second call hanchor
    have hdup : b'.Carries 0x59 (place call + 1) := by rwa [← hnext, h.carries_iff]
    have hjump : b'.Jumps 0xc6 (place call + 2) l := by rwa [← hsecond, h.jumps_iff]
    have hdefined : b'.FirstDefined l (place target) := h.firstDefined_iff.mpr ⟨target, rfl, defined⟩
    have hreal : b'.FirstReal (place target) (place pop) := h.firstReal_iff.mpr ⟨pop, rfl, real⟩
    have hcarries : b'.Carries 0x57 (place pop) := h.carries_iff.mpr carries
    have hforward : place call + 2 < place pop := by rw [← hsecond]; exact h.strictMono forward
    refine ⟨_, .scope hdup hjump hdefined hreal hcarries hforward, ?_⟩
    intro i _
    simp only [Span.Within, List.mem_singleton, exists_eq_left, ← hsecond, hmono]
  | @trace l target jump defined forward =>
    have hjump : b'.Jumps 0x99 (place call + 1) l := by rwa [← hnext, h.jumps_iff]
    have hdefined : b'.FirstDefined l (place target) := h.firstDefined_iff.mpr ⟨target, rfl, defined⟩
    have hforward : place call + 1 < place target := by rw [← hnext]; exact h.strictMono forward
    refine ⟨_, .trace hjump hdefined hforward, ?_⟩
    intro i _
    simp only [Span.Within, List.mem_singleton, exists_eq_left, ← hnext, hmono]

/-- No shape arises from metadata. -/
theorem exists_shape_of_place (hleaves : h.LeavesAnchors) {g : Guard} {call : Nat}
    {ss' : List Span} (hanchor : b.Anchors g call) (hshape : g.Shape b' (place call) ss') :
    ∃ ss, g.Shape b call ss := by
  have hnext := hleaves.next g call hanchor
  cases hshape with
  | skip jump defined =>
    obtain ⟨target, -, hdefined⟩ := h.firstDefined_iff.mp defined
    rw [← hnext, h.jumps_iff] at jump
    exact ⟨_, .skip jump hdefined⟩
  | scope dup jump defined real carries forward =>
    have hsecond := hleaves.second call hanchor
    obtain ⟨target, rfl, hdefined⟩ := h.firstDefined_iff.mp defined
    obtain ⟨pop, rfl, hreal⟩ := h.firstReal_iff.mp real
    rw [← hnext, h.carries_iff] at dup
    rw [← hsecond, h.jumps_iff] at jump
    rw [h.carries_iff] at carries
    rw [← hsecond] at forward
    exact ⟨_, .scope dup jump hdefined hreal carries (h.strictMono.lt_iff_lt.mp forward)⟩
  | trace jump defined forward =>
    obtain ⟨target, rfl, hdefined⟩ := h.firstDefined_iff.mp defined
    rw [← hnext, h.jumps_iff] at jump
    rw [← hnext] at forward
    exact ⟨_, .trace jump hdefined (h.strictMono.lt_iff_lt.mp forward)⟩

end Padded

end Body

/-- A body has one shape of a guard around one call at most. -/
theorem Guard.Shape.unique {b : Body} {g : Guard} {call : Nat} {ss ss' : List Span}
    (h : g.Shape b call ss) (h' : g.Shape b call ss') : ss = ss' := by
  have hspans := (Guard.spans_eq_ok_iff.mpr h).symm.trans (Guard.spans_eq_ok_iff.mpr h')
  cases hspans
  rfl

namespace Settings

/-- The instruction at the position lies in a span of a guard that is found in the method. -/
def Covers (s : Settings) (m : Method) (i : Nat) : Prop :=
  ∃ f ∈ s.findings m, Span.Within f.spans i

/-- The guards that are found in the method, each with the position of its call. -/
def sites (s : Settings) (m : Method) : List (Guard × Nat) :=
  (s.findings m).map fun f => (f.guard, f.call)

theorem mem_sites {s : Settings} {m : Method} {g : Guard} {call : Nat} :
    (g, call) ∈ s.sites m ↔
      m.body.Anchors g call ∧ s.enables g = true ∧ ∃ ss, g.Shape m.body call ss := by
  rw [sites, List.mem_map]
  constructor
  · rintro ⟨f, hf, hsite⟩
    cases hsite
    obtain ⟨hanchor, henabled, hshape⟩ := mem_findings.mp hf
    exact ⟨hanchor, henabled, f.spans, hshape⟩
  · rintro ⟨hanchor, henabled, ss, hshape⟩
    exact ⟨⟨g, call, ss⟩, mem_findings.mpr ⟨hanchor, henabled, hshape⟩, rfl⟩

theorem sites_pairwise (s : Settings) (m : Method) :
    (s.sites m).Pairwise fun a b => a.2 < b.2 :=
  List.pairwise_map.mpr (s.findings_pairwise m)

section Padding
variable {m m' : Method} {place : Nat → Nat} (h : m.body.Padded m'.body place)
variable (hleaves : h.LeavesAnchors) (s : Settings)
include hleaves

theorem sites_padded : s.sites m' = (s.sites m).map fun a => (a.1, place a.2) := by
  have hirrefl : Std.Irrefl fun a b : Guard × Nat => a.2 < b.2 := ⟨fun _ => Nat.lt_irrefl _⟩
  have hantisymm : Std.Antisymm fun a b : Guard × Nat => a.2 < b.2 :=
    ⟨fun _ _ hab hba => absurd hab (Nat.lt_asymm hba)⟩
  have hplaced : ((s.sites m).map fun a => (a.1, place a.2)).Pairwise fun a b => a.2 < b.2 :=
    List.pairwise_map.mpr ((s.sites_pairwise m).imp fun hab => h.strictMono hab)
  refine (s.sites_pairwise m').eq_of_mem_iff hplaced ?_
  rintro ⟨g, j⟩
  simp only [mem_sites, List.mem_map, Prod.exists, Prod.mk.injEq]
  constructor
  · rintro ⟨hplace, henabled, ss', hshape⟩
    obtain ⟨call, rfl, hanchor⟩ := h.anchors_iff.mp hplace
    exact ⟨g, call, ⟨hanchor, henabled, h.exists_shape_of_place hleaves hanchor hshape⟩, rfl, rfl⟩
  · rintro ⟨g, call, ⟨hanchor, henabled, ss, hshape⟩, rfl, rfl⟩
    obtain ⟨ss', hshape', -⟩ := h.shape_place hleaves hanchor hshape
    exact ⟨h.anchors_iff.mpr ⟨call, rfl, hanchor⟩, henabled, ss', hshape'⟩

theorem covers_padded {i : Nat} (hi : i < m.body.length) :
    s.Covers m i ↔ s.Covers m' (place i) := by
  constructor
  · rintro ⟨f, hf, hwithin⟩
    obtain ⟨hanchor, henabled, hshape⟩ := mem_findings.mp hf
    obtain ⟨ss', hshape', hsame⟩ := h.shape_place hleaves hanchor hshape
    refine ⟨⟨f.guard, place f.call, ss'⟩, ?_, (hsame i hi).mp hwithin⟩
    exact mem_findings.mpr ⟨h.anchors_iff.mpr ⟨f.call, rfl, hanchor⟩, henabled, hshape'⟩
  · rintro ⟨f, hf, hwithin⟩
    obtain ⟨hanchor', henabled, hshape'⟩ := mem_findings.mp hf
    obtain ⟨call, hcall, hanchor⟩ := h.anchors_iff.mp hanchor'
    rw [← hcall] at hshape'
    obtain ⟨ss, hshape⟩ := h.exists_shape_of_place hleaves hanchor hshape'
    obtain ⟨ss', hshape'', hsame⟩ := h.shape_place hleaves hanchor hshape
    rw [hshape'.unique hshape''] at hwithin
    exact ⟨⟨f.guard, call, ss⟩, mem_findings.mpr ⟨hanchor, henabled, hshape⟩,
      (hsame i hi).mpr hwithin⟩

end Padding

end Settings

/-- The method with an instruction put in at the position. -/
def Method.insert (m : Method) (p : Nat) (x : Instruction) : Method :=
  { m with body := m.body.insertIdx p x }

/-- A line number or a frame may be put in anywhere but directly after a call that anchors a guard
and, for the scope guard, one further. The same guards are found, each call at its shifted position,
and an instruction is excluded exactly if it is excluded at its shifted position. -/
theorem metadata_keeps_coverage {m : Method} {p : Nat} {x : Instruction}
    (hp : p ≤ m.body.length) (hx : x.isMetadata = true)
    (hnext : ∀ g call, call + 1 = p → ¬ m.body.Anchors g call)
    (hsecond : ∀ call, call + 2 = p → ¬ m.body.Anchors .scope call) (s : Settings) :
    (s.findings (m.insert p x)).map (fun f => (f.guard, f.call)) =
        (s.findings m).map (fun f => (f.guard, Body.shifted p f.call)) ∧
      ∀ i < m.body.length, s.Covers m i ↔ s.Covers (m.insert p x) (Body.shifted p i) := by
  have hpadded : m.body.Padded (m.insert p x).body (Body.shifted p) := Body.padded_insertIdx hp hx
  have hleaves : hpadded.LeavesAnchors := by
    constructor
    · intro g call hanchor
      exact Body.shifted_succ fun hcall => hnext g call hcall hanchor
    · intro call hanchor
      rw [Body.shifted_succ fun hcall => hsecond call hcall hanchor,
        Body.shifted_succ fun hcall => hnext .scope call hcall hanchor]
  refine ⟨?_, fun i hi => s.covers_padded hpadded hleaves hi⟩
  have hsites := s.sites_padded hpadded hleaves
  rw [Settings.sites, Settings.sites, List.map_map] at hsites
  exact hsites

/-- A skip guard around a scope guard. -/
def nestedMethod : Method where
  name := "m"
  desc := "()V"
  body := [.call (.named .invokeinterface) Guard.skip.signature true, .jump (.named .ifne) 1,
    .plain (.named .nop), .call (.named .invokeinterface) Guard.scope.signature true,
    .plain (.named .dup), .jump (.named .ifnull) 2, .label 2, .plain (.named .pop), .label 1,
    .plain (.named .returnVoid)]

/-- A frame between the target of the scope guard and its `POP` makes one span longer and moves
another. -/
theorem metadata_keeps_coverage_frame :
    7 ≤ nestedMethod.body.length ∧ Instruction.frame.isMetadata = true ∧
      Settings.standard.findings nestedMethod =
        [⟨.skip, 0, [⟨0, 1⟩, ⟨8, 9⟩]⟩, ⟨.scope, 3, [⟨5, 7⟩]⟩] ∧
      Settings.standard.findings (nestedMethod.insert 7 .frame) =
        [⟨.skip, 0, [⟨0, 1⟩, ⟨9, 10⟩]⟩, ⟨.scope, 3, [⟨5, 8⟩]⟩] ∧
      ∀ i < 10, Settings.standard.Covers nestedMethod i ↔
        Settings.standard.Covers (nestedMethod.insert 7 .frame) (Body.shifted 7 i) := by
  have hnext : ∀ g call, call + 1 = 7 → ¬ nestedMethod.body.Anchors g call := by
    rintro g call hcall ⟨o, onInterface, hat⟩
    obtain rfl : call = 6 := by omega
    cases hat
  have hsecond : ∀ call, call + 2 = 7 → ¬ nestedMethod.body.Anchors .scope call := by
    rintro call hcall ⟨o, onInterface, hat⟩
    obtain rfl : call = 5 := by omega
    cases hat
  obtain ⟨-, hcovers⟩ := metadata_keeps_coverage (m := nestedMethod) (p := 7) (x := .frame)
    (by decide) rfl hnext hsecond .standard
  exact ⟨by decide, rfl, by rfl, by rfl, hcovers⟩

end ComposeGuards
