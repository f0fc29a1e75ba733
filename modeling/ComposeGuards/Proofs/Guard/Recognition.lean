import ComposeGuards.Guard.Scan
import ComposeGuards.Proofs.Bytecode.Positions

/-! # What the scan recognises

The shapes of the three guards are stated over the bytes and labels of a body. A guard yields spans
at a position exactly when the body has its shape there, and the findings of a method are exactly
the shapes around the calls to the signatures of enabled guards, in the order of their calls.
-/
namespace ComposeGuards

namespace Guard

/-- The body has the shape of a guard around the call at the position, and these are its spans. -/
inductive Shape (b : Body) (call : Nat) : Guard → List Span → Prop
  | skip {l : Label} {target : Nat} (jump : b.Jumps 0x9a (call + 1) l)
      (defined : b.FirstDefined l target) :
      Shape b call .skip [⟨0, call + 1⟩, ⟨target, b.length - 1⟩]
  | scope {l : Label} {target pop : Nat} (dup : b.Carries 0x59 (call + 1))
      (jump : b.Jumps 0xc6 (call + 2) l) (defined : b.FirstDefined l target)
      (real : b.FirstReal target pop) (carries : b.Carries 0x57 pop) (forward : call + 2 < pop) :
      Shape b call .scope [⟨call + 2, pop⟩]
  | trace {l : Label} {target : Nat} (jump : b.Jumps 0x99 (call + 1) l)
      (defined : b.FirstDefined l target) (forward : call + 1 < target) :
      Shape b call .trace [⟨call + 1, target⟩]

theorem jumpFrom_eq_ok_iff_jumps {b : Body} {m : Mnemonic} {e : Mismatch} {jump target : Nat} :
    jumpFrom b m e jump = .ok target ↔
      ∃ l, b.Jumps m.byte jump l ∧ b.FirstDefined l target := by
  simp only [jumpFrom_eq_ok_iff, Body.jumpAt?_eq_some_iff, Body.position?_eq_some_iff]

theorem skipSpans_eq_ok_iff {b : Body} {call : Nat} {ss : List Span} :
    skipSpans b call = .ok ss ↔ Shape b call .skip ss := by
  constructor
  · intro h
    unfold skipSpans at h
    cases hj : jumpFrom b .ifne .noIfne (call + 1) with
    | error e => rw [hj] at h; cases h
    | ok target =>
      rw [hj] at h
      cases h
      obtain ⟨l, hjump, hdef⟩ := jumpFrom_eq_ok_iff_jumps.mp hj
      exact .skip hjump hdef
  · intro h
    cases h with
    | @skip l target jump defined =>
      have hj : jumpFrom b .ifne .noIfne (call + 1) = .ok target :=
        jumpFrom_eq_ok_iff_jumps.mpr ⟨l, jump, defined⟩
      rw [skipSpans, hj]

/-- The search for `POP` never stops at the jump itself, which carries `IFNULL`. -/
theorem scopeSpans_eq_ok_iff {b : Body} {call : Nat} {ss : List Span} :
    scopeSpans b call = .ok ss ↔ Shape b call .scope ss := by
  constructor
  · intro h
    unfold scopeSpans at h
    by_cases hd : b.hasOpcodeAt .dup (call + 1) = true
    · rw [if_pos hd] at h
      cases hj : jumpFrom b .ifnull .noIfnull (call + 2) with
      | error e => rw [hj] at h; cases h
      | ok target =>
        obtain ⟨l, hjump, hdef⟩ := jumpFrom_eq_ok_iff_jumps.mp hj
        cases hr : b.firstReal? target with
        | none => simp [hj, hr] at h
        | some pop =>
          by_cases hp : b.hasOpcodeAt .pop pop = true
          · by_cases hlt : pop < call + 2
            · simp [hj, hr, hp, hlt] at h
            · simp only [hj, hr, hp, hlt, Bool.not_true, Bool.false_eq_true, ↓reduceIte] at h
              cases h
              have hcarries := Body.hasOpcodeAt_iff.mp hp
              have hne : pop ≠ call + 2 := by
                rintro rfl
                exact absurd (hcarries.byte_unique hjump.carries) (by decide)
              exact .scope (Body.hasOpcodeAt_iff.mp hd) hjump hdef
                (Body.firstReal?_eq_some_iff.mp hr) hcarries (by omega)
          · simp [hj, hr, hp] at h
    · rw [if_neg hd] at h
      cases h
  · intro h
    cases h with
    | @scope l target pop dup jump defined real carries forward =>
      have hd : b.hasOpcodeAt .dup (call + 1) = true := Body.hasOpcodeAt_iff.mpr dup
      have hj : jumpFrom b .ifnull .noIfnull (call + 2) = .ok target :=
        jumpFrom_eq_ok_iff_jumps.mpr ⟨l, jump, defined⟩
      have hr : b.firstReal? target = some pop := Body.firstReal?_eq_some_iff.mpr real
      have hp : b.hasOpcodeAt .pop pop = true := Body.hasOpcodeAt_iff.mpr carries
      have hlt : ¬ pop < call + 2 := by omega
      simp [scopeSpans, hd, hj, hr, hp, hlt]

/-- The target never is the jump itself, since a label carries no opcode. -/
theorem traceSpans_eq_ok_iff {b : Body} {call : Nat} {ss : List Span} :
    traceSpans b call = .ok ss ↔ Shape b call .trace ss := by
  constructor
  · intro h
    unfold traceSpans at h
    cases hj : jumpFrom b .ifeq .noIfeq (call + 1) with
    | error e => rw [hj] at h; cases h
    | ok target =>
      obtain ⟨l, hjump, hdef⟩ := jumpFrom_eq_ok_iff_jumps.mp hj
      by_cases hlt : target < call + 1
      · simp [hj, hlt] at h
      · simp only [hj, hlt, ↓reduceIte] at h
        cases h
        have hne : target ≠ call + 1 := by
          rintro rfl
          exact hdef.not_carries _ hjump.carries
        exact .trace hjump hdef (by omega)
  · intro h
    cases h with
    | @trace l target jump defined forward =>
      have hj : jumpFrom b .ifeq .noIfeq (call + 1) = .ok target :=
        jumpFrom_eq_ok_iff_jumps.mpr ⟨l, jump, defined⟩
      have hlt : ¬ target < call + 1 := by omega
      simp [traceSpans, hj, hlt]

theorem spans_eq_ok_iff {g : Guard} {b : Body} {call : Nat} {ss : List Span} :
    g.spans b call = .ok ss ↔ Shape b call g ss := by
  cases g with
  | skip => exact skipSpans_eq_ok_iff
  | scope => exact scopeSpans_eq_ok_iff
  | trace => exact traceSpans_eq_ok_iff

end Guard

/-- The instruction at the position calls the method that anchors the guard. -/
def Body.Anchors (b : Body) (g : Guard) (call : Nat) : Prop :=
  ∃ o onInterface, b[call]? = some (.call o g.signature onInterface)

theorem Body.sightingAt?_eq_some_iff {b : Body} {i : Instruction} {call : Nat} {x : Sighting} :
    b.sightingAt? i call = some x ↔
      (∃ o onInterface, i = .call o x.guard.signature onInterface) ∧ x.call = call ∧
        x.outcome = x.guard.spans b call := by
  unfold Body.sightingAt?
  constructor
  · intro h
    obtain ⟨callee, hcallee, h⟩ := Option.bind_eq_some_iff.mp h
    obtain ⟨g, hg, h⟩ := Option.bind_eq_some_iff.mp h
    cases h
    have hsig := Guard.ofCallee?_eq_some_iff.mp hg
    cases i with
    | call o c onInterface => cases hcallee; subst hsig; exact ⟨⟨o, onInterface, rfl⟩, rfl, rfl⟩
    | _ => cases hcallee
  · rintro ⟨⟨o, onInterface, rfl⟩, rfl, hout⟩
    have hg : Guard.ofCallee? x.guard.signature = some x.guard :=
      Guard.ofCallee?_eq_some_iff.mpr rfl
    cases x with
    | mk g call outcome =>
      simp only at hg hout
      subst hout
      simp [Instruction.callee?, hg]

theorem Body.mem_sightings {b : Body} {x : Sighting} :
    x ∈ b.sightings ↔ b.Anchors x.guard x.call ∧ x.outcome = x.guard.spans b x.call := by
  simp only [Body.sightings, List.mem_filterMap, Prod.exists, List.mk_mem_zipIdx_iff_getElem?,
    Body.sightingAt?_eq_some_iff]
  constructor
  · rintro ⟨i, call, hi, ⟨o, onInterface, rfl⟩, rfl, hout⟩
    exact ⟨⟨o, onInterface, hi⟩, hout⟩
  · rintro ⟨⟨o, onInterface, hi⟩, hout⟩
    exact ⟨_, x.call, hi, ⟨o, onInterface, rfl⟩, rfl, hout⟩

/-- Sightings stand in the order of their positions, one position at most once. -/
theorem Body.sightings_pairwise (b : Body) : b.sightings.Pairwise fun x y => x.call < y.call := by
  have hzip : b.zipIdx.Pairwise fun p q => p.2 < q.2 := by
    have h : (b.zipIdx.map Prod.snd).Pairwise (· < ·) := by
      rw [List.zipIdx_map_snd]
      exact List.pairwise_lt_range'
    exact List.pairwise_map.mp h
  refine hzip.filterMap _ ?_
  rintro ⟨i, c⟩ ⟨j, d⟩ hcd x hx y hy
  rw [(Body.sightingAt?_eq_some_iff.mp hx).2.1, (Body.sightingAt?_eq_some_iff.mp hy).2.1]
  exact hcd

theorem Sighting.finding?_eq_some_iff {x : Sighting} {f : Finding} :
    x.finding? = some f ↔ x.guard = f.guard ∧ x.call = f.call ∧ x.outcome = .ok f.spans := by
  cases x with
  | mk g call outcome =>
    cases f with
    | mk g' call' spans => cases outcome <;> simp [Sighting.finding?]

namespace Settings

theorem mem_findings {s : Settings} {m : Method} {f : Finding} :
    f ∈ s.findings m ↔
      m.body.Anchors f.guard f.call ∧ s.enables f.guard = true ∧
        f.guard.Shape m.body f.call f.spans := by
  simp only [findings, sightings, List.mem_filterMap, List.mem_filter, Body.mem_sightings,
    Sighting.finding?_eq_some_iff]
  constructor
  · rintro ⟨x, ⟨⟨hanchor, hout⟩, henabled⟩, hg, hc, hspans⟩
    rw [hg, hc] at hanchor hout
    rw [hg] at henabled
    exact ⟨hanchor, henabled, Guard.spans_eq_ok_iff.mp (hout.symm.trans hspans)⟩
  · rintro ⟨hanchor, henabled, hshape⟩
    exact ⟨⟨f.guard, f.call, .ok f.spans⟩,
      ⟨⟨hanchor, (Guard.spans_eq_ok_iff.mpr hshape).symm⟩, henabled⟩, rfl, rfl, rfl⟩

theorem findings_pairwise (s : Settings) (m : Method) :
    (s.findings m).Pairwise fun f g => f.call < g.call := by
  refine (m.body.sightings_pairwise.filter _).filterMap _ ?_
  intro x y hxy f hf g hg
  rw [← (Sighting.finding?_eq_some_iff.mp hf).2.1, ← (Sighting.finding?_eq_some_iff.mp hg).2.1]
  exact hxy

/-- The findings of a method stand in strictly increasing order of their calls, and they are exactly
the calls to the signature of an enabled guard around which the body has the guard's shape. -/
theorem findings_sound_and_complete (s : Settings) (m : Method) :
    ((s.findings m).Pairwise fun f g => f.call < g.call) ∧
      ∀ f : Finding, f ∈ s.findings m ↔
        (∃ o onInterface, m.body[f.call]? = some (.call o f.guard.signature onInterface)) ∧
          s.enables f.guard = true ∧ f.guard.Shape m.body f.call f.spans :=
  ⟨s.findings_pairwise m, fun _ => mem_findings⟩

end Settings
end ComposeGuards
