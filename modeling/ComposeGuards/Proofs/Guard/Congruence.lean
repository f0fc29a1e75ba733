import ComposeGuards.Proofs.Guard.Recognition

/-! # What a scan depends on

A scan asks of an instruction which method it calls, which opcode it carries and whether it is
executable, and of a jump where its target is defined. Bodies that answer alike, position by
position, are scanned alike: the same guards are found and the same messages are written.
-/
namespace ComposeGuards

/-- Two bodies that answer every question of a scan alike. -/
structure Body.ScansAlike (b b' : Body) : Prop where
  callees : b.map Instruction.callee? = b'.map Instruction.callee?
  opcodes : ∀ m, b.map (Instruction.hasOpcode m) = b'.map (Instruction.hasOpcode m)
  reals : b.map Instruction.isReal = b'.map Instruction.isReal
  targets : ∀ m i, (b.jumpAt? m i).map b.position? = (b'.jumpAt? m i).map b'.position?

namespace Body

theorem hasOpcodeAt_eq (b : Body) (m : Mnemonic) (i : Nat) :
    b.hasOpcodeAt m i = (b.map (Instruction.hasOpcode m))[i]?.any id := by
  rw [hasOpcodeAt, List.getElem?_map, Option.any_map]
  rfl

theorem realFrom_eq (b : Body) (start : Nat) :
    b.realFrom start = (List.range (b.map Instruction.isReal).length).filter fun i =>
      start ≤ i && (b.map Instruction.isReal)[i]?.any id := by
  rw [realFrom_eq_filter, List.length_map]
  apply List.filter_congr
  intro i _
  rw [List.getElem?_map, Option.any_map]
  rfl

/-- The sightings of a body, read off the methods that its instructions call. -/
theorem sightings_eq (b : Body) :
    b.sightings = (b.map Instruction.callee?).zipIdx.filterMap fun p => do
      let callee ← p.1
      let g ← Guard.ofCallee? callee
      return ⟨g, p.2, g.spans b p.2⟩ := by
  rw [List.zipIdx_map, List.filterMap_map]
  rfl

namespace ScansAlike
variable {b b' : Body} (h : b.ScansAlike b')
include h

theorem length_eq : b.length = b'.length := by
  simpa using congrArg List.length h.callees

theorem hasOpcodeAt_eq (m : Mnemonic) (i : Nat) : b.hasOpcodeAt m i = b'.hasOpcodeAt m i := by
  rw [Body.hasOpcodeAt_eq, Body.hasOpcodeAt_eq, h.opcodes]

theorem firstReal?_eq (start : Nat) : b.firstReal? start = b'.firstReal? start := by
  rw [firstReal?_eq_head?, firstReal?_eq_head?, realFrom_eq, realFrom_eq, h.reals]

theorem jumpFrom_eq (m : Mnemonic) (e : Guard.Mismatch) (jump : Nat) :
    Guard.jumpFrom b m e jump = Guard.jumpFrom b' m e jump := by
  have htargets := h.targets m jump
  unfold Guard.jumpFrom
  cases hj : b.jumpAt? m jump with
  | none =>
    cases hj' : b'.jumpAt? m jump with
    | none => rfl
    | some l' => simp [hj, hj'] at htargets
  | some l =>
    cases hj' : b'.jumpAt? m jump with
    | none => simp [hj, hj'] at htargets
    | some l' =>
      have hposition : b.position? l = b'.position? l' := by simpa [hj, hj'] using htargets
      simp only [hposition]

theorem spans_eq (g : Guard) (call : Nat) : g.spans b call = g.spans b' call := by
  cases g with
  | skip => simp only [Guard.spans, Guard.skipSpans, h.jumpFrom_eq, h.length_eq]
  | scope =>
    simp only [Guard.spans, Guard.scopeSpans, h.jumpFrom_eq, h.hasOpcodeAt_eq, h.firstReal?_eq]
  | trace => simp only [Guard.spans, Guard.traceSpans, h.jumpFrom_eq]

theorem sightings_eq : b.sightings = b'.sightings := by
  rw [Body.sightings_eq, Body.sightings_eq, h.callees]
  simp only [h.spans_eq]

end ScansAlike

end Body

namespace Settings
variable {m m' : Method} (s : Settings) (h : m.body.ScansAlike m'.body)
include h

theorem sightings_congr : s.sightings m = s.sightings m' := by
  rw [sightings, sightings, h.sightings_eq]

theorem findings_congr : s.findings m = s.findings m' := by
  rw [findings, findings, s.sightings_congr h]

theorem scanLog_congr (hname : m.name = m'.name) (hdesc : m.desc = m'.desc) :
    s.scanLog m = s.scanLog m' := by
  have hmessage : Sighting.message s.drift m = Sighting.message s.drift m' := by
    funext x
    simp only [Sighting.message, hname, hdesc]
  rw [scanLog, scanLog, s.sightings_congr h, hmessage]

end Settings
end ComposeGuards
