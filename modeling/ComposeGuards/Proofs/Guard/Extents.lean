import ComposeGuards.Proofs.Coverage.Mask
import ComposeGuards.Proofs.Guard.Padding

/-! # Where the spans of a guard lie

A guard jumps directly after its anchor, a scope guard one position later. Its spans are laid out
around that jump and the label to which it leads, so they lie in the body and hold both. A scope or
trace guard jumps forward. A skip guard may jump back, and then its two spans leave nothing out.
-/
namespace ComposeGuards

namespace Guard

/-- The opcode on which the guard jumps. -/
def jumpOpcode : Guard → Mnemonic
  | skip => .ifne
  | scope => .ifnull
  | trace => .ifeq

/-- How far after its anchor the guard jumps. -/
def jumpOffset : Guard → Nat
  | skip | trace => 1
  | scope => 2

theorem jumpOffset_pos (g : Guard) : 0 < g.jumpOffset := by
  cases g <;> decide

/-- The guard around the anchor jumps to a label, which the body has at the position. -/
def Targets (g : Guard) (b : Body) (call target : Nat) : Prop :=
  ∃ l, b.Jumps g.jumpOpcode.byte (call + g.jumpOffset) l ∧ b.position? l = some target

/-- How the spans of a guard are laid out around its jump and the target of the jump. -/
inductive Layout (b : Body) (jump target : Nat) : Guard → List Span → Prop
  | skip (jumpInBody : jump < b.length) (targetInBody : target < b.length) :
      Layout b jump target .skip [⟨0, jump⟩, ⟨target, b.length - 1⟩]
  | scope {pop : Nat} (forward : jump < target) (reached : target ≤ pop)
      (popInBody : pop < b.length) : Layout b jump target .scope [⟨jump, pop⟩]
  | trace (forward : jump < target) (targetInBody : target < b.length) :
      Layout b jump target .trace [⟨jump, target⟩]

section Targets
variable {g : Guard} {b : Body} {call target : Nat}

theorem Targets.unique {target' : Nat} (h : g.Targets b call target)
    (h' : g.Targets b call target') : target = target' := by
  obtain ⟨l, hjump, hposition⟩ := h
  obtain ⟨l', hjump', hposition'⟩ := h'
  rw [hjump.label_unique hjump', hposition'] at hposition
  exact (Option.some.inj hposition).symm

/-- A guard never jumps to its own jump, which is no label. -/
theorem Targets.ne_jump (h : g.Targets b call target) : target ≠ call + g.jumpOffset := by
  obtain ⟨l, hjump, hposition⟩ := h
  rintro rfl
  exact (Body.position?_eq_some_iff.mp hposition).not_carries _ hjump.carries

theorem Shape.exists_layout {ss : List Span} (h : g.Shape b call ss) :
    ∃ target, g.Targets b call target ∧ Layout b (call + g.jumpOffset) target g ss := by
  cases h with
  | @skip l target jump defined =>
    have htargets : Guard.skip.Targets b call target :=
      ⟨l, jump, Body.position?_eq_some_iff.mpr defined⟩
    exact ⟨target, htargets, .skip jump.lt_length defined.lt_length⟩
  | @scope l target pop dup jump defined real carries forward =>
    have htargets : Guard.scope.Targets b call target :=
      ⟨l, jump, Body.position?_eq_some_iff.mpr defined⟩
    -- a search that starts at or before the jump stops at the jump, not behind it
    have hforward : call + 2 < target := by
      by_contra hle
      have hpop := real.le_of_carries (Nat.le_of_not_lt hle) jump.carries
      omega
    exact ⟨target, htargets, .scope hforward real.1 carries.lt_length⟩
  | @trace l target jump defined forward =>
    have htargets : Guard.trace.Targets b call target :=
      ⟨l, jump, Body.position?_eq_some_iff.mpr defined⟩
    exact ⟨target, htargets, .trace forward defined.lt_length⟩

end Targets

end Guard

namespace Finding

/-- Where the guard jumps. -/
def jump (f : Finding) : Nat :=
  f.call + f.guard.jumpOffset

/-- The spans lie in the body and hold the jump of the guard and the label that it leads to. Those of
a scope or trace guard hold more than one position, all after the anchor. -/
structure Valid (b : Body) (f : Finding) : Prop where
  inBody : ∀ x ∈ f.spans, x.first ≤ x.last ∧ x.last < b.length
  covers : ∃ l target, b.Jumps f.guard.jumpOpcode.byte f.jump l ∧ b.position? l = some target ∧
    b[target]? = some (.label l) ∧ Span.Within f.spans f.jump ∧ Span.Within f.spans target
  afterAnchor : f.guard ≠ .skip → ∀ x ∈ f.spans, x.first < x.last ∧ f.call < x.first

end Finding

section Layout
variable {g : Guard} {b : Body} {jump target : Nat} {ss : List Span}

theorem Guard.Layout.inBody (h : g.Layout b jump target ss) :
    ∀ x ∈ ss, x.first ≤ x.last ∧ x.last < b.length := by
  intro x hx
  cases h with
  | skip jumpInBody targetInBody =>
    rcases List.mem_pair.mp hx with rfl | rfl
    · exact ⟨Nat.zero_le _, jumpInBody⟩
    · exact ⟨Nat.le_sub_one_of_lt targetInBody, by dsimp only; omega⟩
  | scope forward reached popInBody =>
    obtain rfl := List.mem_singleton.mp hx
    exact ⟨by dsimp only; omega, popInBody⟩
  | trace forward targetInBody =>
    obtain rfl := List.mem_singleton.mp hx
    exact ⟨Nat.le_of_lt forward, targetInBody⟩

theorem Guard.Layout.within_jump (h : g.Layout b jump target ss) : Span.Within ss jump := by
  cases h with
  | skip => exact ⟨_, List.mem_cons_self, Nat.zero_le _, Nat.le_refl _⟩
  | scope forward reached =>
    exact ⟨_, List.mem_cons_self, Nat.le_refl _, Nat.le_of_lt (Nat.lt_of_lt_of_le forward reached)⟩
  | trace forward => exact ⟨_, List.mem_cons_self, Nat.le_refl _, Nat.le_of_lt forward⟩

theorem Guard.Layout.within_target (h : g.Layout b jump target ss) : Span.Within ss target := by
  cases h with
  | skip jumpInBody targetInBody =>
    exact ⟨_, List.mem_cons_of_mem _ List.mem_cons_self, Nat.le_refl _,
      Nat.le_sub_one_of_lt targetInBody⟩
  | scope forward reached => exact ⟨_, List.mem_cons_self, Nat.le_of_lt forward, reached⟩
  | trace forward => exact ⟨_, List.mem_cons_self, Nat.le_of_lt forward, Nat.le_refl _⟩

/-- Without a skip guard there is one span, which starts at the jump. -/
theorem Guard.Layout.longer (h : g.Layout b jump target ss) (hskip : g ≠ .skip) :
    ∀ x ∈ ss, x.first < x.last ∧ x.first = jump := by
  intro x hx
  cases h with
  | skip => exact absurd rfl hskip
  | scope forward reached =>
    obtain rfl := List.mem_singleton.mp hx
    exact ⟨Nat.lt_of_lt_of_le forward reached, rfl⟩
  | trace forward =>
    obtain rfl := List.mem_singleton.mp hx
    exact ⟨forward, rfl⟩

end Layout

namespace Settings

/-- Every span of a guard that is found lies in the body and holds a position, the spans of a guard
hold its jump and the label to which the jump leads, and the span of a scope or trace guard starts
after the anchor and holds more than one position. -/
theorem found_spans_valid {s : Settings} {m : Method} {f : Finding} (hf : f ∈ s.findings m) :
    f.Valid m.body := by
  obtain ⟨-, -, hshape⟩ := mem_findings.mp hf
  obtain ⟨target, ⟨l, hjump, hposition⟩, hlayout⟩ := hshape.exists_layout
  refine ⟨hlayout.inBody, ⟨l, target, hjump, hposition, Body.position?_eq_some hposition,
    hlayout.within_jump, hlayout.within_target⟩, fun hskip x hx => ?_⟩
  obtain ⟨hlonger, hfirst⟩ := hlayout.longer hskip x hx
  have hafter : f.call < f.call + f.guard.jumpOffset :=
    Nat.lt_add_of_pos_right f.guard.jumpOffset_pos
  exact ⟨hlonger, hfirst ▸ hafter⟩

/-- The scope guard inside a skip guard: its span starts at its jump and ends at its `POP`. -/
theorem found_spans_valid_nested :
    (⟨.scope, 3, [⟨5, 7⟩]⟩ : Finding) ∈ standard.findings nestedMethod ∧
      (⟨.scope, 3, [⟨5, 7⟩]⟩ : Finding).Valid nestedMethod.body := by
  have hfindings : standard.findings nestedMethod =
      [⟨.skip, 0, [⟨0, 1⟩, ⟨8, 9⟩]⟩, ⟨.scope, 3, [⟨5, 7⟩]⟩] := by rfl
  have hf : (⟨.scope, 3, [⟨5, 7⟩]⟩ : Finding) ∈ standard.findings nestedMethod := by
    rw [hfindings]
    exact List.mem_cons_of_mem _ List.mem_cons_self
  exact ⟨hf, found_spans_valid hf⟩

end Settings

/-! ## Forward and backward jumps -/

/-- No position lies in both spans. -/
def Span.Apart (x y : Span) : Prop :=
  ∀ i, ¬ (x.contains i = true ∧ y.contains i = true)

/-- The guard jumps forward. The spans of a skip guard are then apart, and what stands between its
jump and the target lies in neither. -/
def Finding.JumpsForward (b : Body) (f : Finding) : Prop :=
  ∃ target, f.guard.Targets b f.call target ∧ f.jump < target ∧
    (f.guard = .skip → f.spans.Pairwise Span.Apart ∧
      ∀ i, f.jump < i → i < target → ¬ Span.Within f.spans i)

/-- An enabled skip guard of the method jumps to a label that stands before its jump. -/
def Settings.SkipsBack (s : Settings) (m : Method) : Prop :=
  s.enables .skip = true ∧ ∃ call target,
    m.body.Anchors .skip call ∧ Guard.skip.Targets m.body call target ∧ target < call + 1

section Layout
variable {g : Guard} {b : Body} {jump target : Nat} {ss : List Span}

theorem Span.apart_of_lt {x y : Span} (h : x.last < y.first) : x.Apart y := by
  rintro i ⟨hx, hy⟩
  have hlast := (Span.contains_iff.mp hx).2
  have hfirst := (Span.contains_iff.mp hy).1
  omega

/-- Only a skip guard can have its target before its jump. -/
theorem Guard.Layout.forward (h : g.Layout b jump target ss) (hskip : g ≠ .skip) :
    jump < target := by
  cases h with
  | skip => exact absurd rfl hskip
  | scope forward => exact forward
  | trace forward => exact forward

theorem Guard.Layout.apart (h : Guard.skip.Layout b jump target ss) (hforward : jump < target) :
    ss.Pairwise Span.Apart := by
  cases h with
  | skip => exact List.pairwise_pair.mpr (Span.apart_of_lt hforward)

theorem Guard.Layout.not_within_between (h : Guard.skip.Layout b jump target ss) {i : Nat}
    (hi : jump < i) (hi' : i < target) : ¬ Span.Within ss i := by
  cases h with
  | skip =>
    rintro ⟨x, hx, hfirst, hlast⟩
    rcases List.mem_pair.mp hx with rfl | rfl
    · exact Nat.not_le_of_lt hi hlast
    · exact Nat.not_le_of_lt hi' hfirst

/-- The spans of a skip guard that jumps back leave nothing out. -/
theorem Guard.Layout.within_of_backward (h : Guard.skip.Layout b jump target ss)
    (hback : target < jump) {i : Nat} (hi : i < b.length) : Span.Within ss i := by
  cases h with
  | skip =>
    rcases Nat.lt_or_ge jump i with hlt | hle
    · exact ⟨_, List.mem_cons_of_mem _ List.mem_cons_self, by dsimp only; omega,
        Nat.le_sub_one_of_lt hi⟩
    · exact ⟨_, List.mem_cons_self, Nat.zero_le i, hle⟩

end Layout

namespace Settings
variable {s : Settings} {m : Method}

theorem exists_layout_of_mem_findings {f : Finding} (hf : f ∈ s.findings m) :
    ∃ target, f.guard.Targets m.body f.call target ∧
      f.guard.Layout m.body f.jump target f.spans :=
  (mem_findings.mp hf).2.2.exists_layout

/-- A guard that is found jumps forward exactly if its target stands behind its jump. -/
theorem jumpsForward_iff {f : Finding} (hf : f ∈ s.findings m) {target : Nat}
    (htarget : f.guard.Targets m.body f.call target) :
    f.JumpsForward m.body ↔ f.jump < target := by
  constructor
  · rintro ⟨target', htarget', hforward, -⟩
    rwa [htarget.unique htarget']
  · intro hforward
    obtain ⟨target', htarget', hlayout⟩ := exists_layout_of_mem_findings hf
    rw [← htarget.unique htarget'] at hlayout
    refine ⟨target, htarget, hforward, fun hskip => ?_⟩
    rw [hskip] at hlayout
    exact ⟨hlayout.apart hforward, fun i hi hi' => hlayout.not_within_between hi hi'⟩

/-- A guard that does not jump forward is a skip guard, and its spans hold the whole body. -/
theorem within_of_not_jumpsForward {f : Finding} (hf : f ∈ s.findings m)
    (hback : ¬ f.JumpsForward m.body) :
    f.guard = .skip ∧ ∀ i < m.body.length, Span.Within f.spans i := by
  obtain ⟨target, htarget, hlayout⟩ := exists_layout_of_mem_findings hf
  rw [jumpsForward_iff hf htarget] at hback
  have hskip : f.guard = .skip := by
    by_contra hne
    exact hback (hlayout.forward hne)
  have hlt : target < f.jump :=
    Nat.lt_of_le_of_ne (Nat.le_of_not_lt hback) htarget.ne_jump
  rw [hskip] at hlayout
  exact ⟨hskip, fun i hi => hlayout.within_of_backward hlt hi⟩

/-- A skip guard is found wherever its anchor is followed by a jump to a label of the body. -/
theorem exists_finding_of_targets {call target : Nat} (henabled : s.enables .skip = true)
    (hanchor : m.body.Anchors .skip call) (htarget : Guard.skip.Targets m.body call target) :
    ∃ f ∈ s.findings m, f.guard = .skip ∧ f.call = call := by
  obtain ⟨l, hjump, hposition⟩ := htarget
  have hshape : Guard.skip.Shape m.body call [⟨0, call + 1⟩, ⟨target, m.body.length - 1⟩] :=
    .skip hjump (Body.position?_eq_some_iff.mp hposition)
  exact ⟨⟨.skip, call, _⟩, mem_findings.mpr ⟨hanchor, henabled, hshape⟩, rfl, rfl⟩

/-- Every guard that is found in a method jumps forward exactly if no enabled skip guard of the
method jumps back. So scope and trace guards always do, and of a method with a skip guard that does
not, that guard excludes everything. -/
theorem found_guards_jump_forward_unless_skip (s : Settings) (m : Method) :
    ((∀ f ∈ s.findings m, f.JumpsForward m.body) ↔ ¬ s.SkipsBack m) ∧
      ∀ f ∈ s.findings m, ¬ f.JumpsForward m.body →
        f.guard = .skip ∧ ∀ i < m.body.length, Span.Within f.spans i := by
  refine ⟨⟨?_, ?_⟩, fun f hf hback => within_of_not_jumpsForward hf hback⟩
  · rintro hall ⟨henabled, call, target, hanchor, htarget, hback⟩
    obtain ⟨f, hf, hskip, rfl⟩ := exists_finding_of_targets henabled hanchor htarget
    rw [← hskip] at htarget
    have hforward := (jumpsForward_iff hf htarget).mp (hall f hf)
    rw [Finding.jump, hskip] at hforward
    exact Nat.lt_asymm hback hforward
  · intro hnone f hf
    by_contra hback
    obtain ⟨hskip, -⟩ := within_of_not_jumpsForward hf hback
    obtain ⟨target, htarget, -⟩ := exists_layout_of_mem_findings hf
    obtain ⟨hanchor, henabled, -⟩ := mem_findings.mp hf
    rw [jumpsForward_iff hf htarget, Finding.jump] at hback
    have hne := htarget.ne_jump
    rw [hskip] at hanchor henabled htarget hback hne
    exact hnone ⟨henabled, f.call, target, hanchor, htarget,
      Nat.lt_of_le_of_ne (Nat.le_of_not_lt hback) hne⟩

/-- Both guards of the method jump forward. -/
theorem found_guards_jump_forward_nested :
    (⟨.skip, 0, [⟨0, 1⟩, ⟨8, 9⟩]⟩ : Finding) ∈ standard.findings nestedMethod ∧
      ∀ f ∈ standard.findings nestedMethod, f.JumpsForward nestedMethod.body := by
  have hfindings : standard.findings nestedMethod =
      [⟨.skip, 0, [⟨0, 1⟩, ⟨8, 9⟩]⟩, ⟨.scope, 3, [⟨5, 7⟩]⟩] := by rfl
  have hnone : ¬ standard.SkipsBack nestedMethod := by
    rintro ⟨henabled, call, target, hanchor, htarget, hback⟩
    obtain ⟨f, hf, hskip, rfl⟩ := exists_finding_of_targets henabled hanchor htarget
    rw [hfindings] at hf
    rcases List.mem_pair.mp hf with rfl | rfl
    · obtain ⟨l, ⟨o, hjump, -⟩, hposition⟩ := htarget
      cases hjump
      cases hposition
      exact absurd hback (by decide)
    · cases hskip
  refine ⟨by rw [hfindings]; exact List.mem_cons_self, ?_⟩
  exact (found_guards_jump_forward_unless_skip standard nestedMethod).1.mpr hnone

/-- A skip guard whose jump leads to the label before its anchor. -/
def loopingMethod : Method where
  name := "m"
  desc := "()V"
  invisible := [Guard.composable]
  body := [.label 1, .call (.named .invokeinterface) Guard.skip.signature true,
    .jump (.named .ifne) 1, .plain (.named .nop), .plain (.named .returnVoid)]

/-- The guard is found although it jumps back, and with it the `NOP` that it skips is excluded. -/
theorem not_jumpsForward_loopingMethod :
    (⟨.skip, 1, [⟨0, 2⟩, ⟨0, 4⟩]⟩ : Finding) ∈ standard.findings loopingMethod ∧
      ¬ (⟨.skip, 1, [⟨0, 2⟩, ⟨0, 4⟩]⟩ : Finding).JumpsForward loopingMethod.body ∧
      ¬ [⟨0, 2⟩, ⟨0, 4⟩].Pairwise Span.Apart := by
  have hfindings : standard.findings loopingMethod = [⟨.skip, 1, [⟨0, 2⟩, ⟨0, 4⟩]⟩] := by rfl
  refine ⟨by rw [hfindings]; exact List.mem_cons_self, ?_, ?_⟩
  · rintro ⟨target, ⟨l, ⟨o, hjump, -⟩, hposition⟩, hforward, -⟩
    cases hjump
    cases hposition
    exact absurd hforward (by decide)
  · intro hapart
    exact List.pairwise_pair.mp hapart 0 ⟨by decide, by decide⟩

end Settings

end ComposeGuards
