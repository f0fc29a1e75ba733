import ComposeGuards.Proofs.Guard.Drift
import ComposeGuards.Proofs.Guard.Reports

/-! # Guards do not interfere

Signatures are pairwise distinct, so which guard a call anchors is settled before the settings are
asked. What settings find is therefore what all guards find together, less the guards that are not
enabled, and the mask of a filter is the union of the masks that its guards have alone.
-/
namespace ComposeGuards

theorem Guard.mem_all (g : Guard) : g ∈ Guard.all := by
  cases g <;> decide

namespace Exclusions

/-- The mask that is set where one of the masks is. -/
def union (length : Nat) (masks : List (List Bool)) : List Bool :=
  masks.foldr (List.zipWith (· || ·)) (List.replicate length false)

theorem union_map {α : Type} (length : Nat) (flag : α → Nat → Bool) (xs : List α) :
    union length (xs.map fun x => (List.range length).map (flag x)) =
      (List.range length).map fun i => xs.any fun x => flag x i := by
  induction xs with
  | nil =>
    have hfalse : (List.range length).map (fun _ => false) = List.replicate length false := by
      rw [List.map_const', List.length_range]
    simp only [union, List.map_nil, List.foldr_nil, List.any_nil, hfalse]
  | cons x xs ih =>
    have hcons : union length ((x :: xs).map fun x => (List.range length).map (flag x)) =
        List.zipWith (· || ·) ((List.range length).map (flag x))
          (union length (xs.map fun x => (List.range length).map (flag x))) := rfl
    rw [hcons, ih, List.zipWith_map_left, List.zipWith_map_right, List.zipWith_self]
    simp only [List.any_cons]

end Exclusions

namespace Settings

/-- One guard alone, under a drift policy. -/
def only (g : Guard) (d : DriftPolicy) : Settings :=
  ({ skip := false, scope := false, trace := false, drift := d } : Settings).set true g

theorem enables_standard (g : Guard) : standard.enables g = true := by
  cases g <;> rfl

theorem enables_only {g h : Guard} {d : DriftPolicy} : (only g d).enables h = true ↔ h = g := by
  have hnone : ({ skip := false, scope := false, trace := false, drift := d } : Settings).enables h =
      false := by
    cases h <;> rfl
  rw [only, enables_set, hnone]
  simp [eq_comm]

theorem guard_of_finding? {x : Sighting} {f : Finding} (h : x.finding? = some f) :
    x.guard = f.guard :=
  (Sighting.finding?_eq_some_iff.mp h).1

/-- The standard settings see every anchor. -/
theorem sightings_standard (m : Method) : standard.sightings m = m.body.sightings := by
  rw [sightings, List.filter_eq_self]
  exact fun x _ => enables_standard x.guard

theorem findings_eq_filter (s : Settings) (m : Method) :
    s.findings m = (standard.findings m).filter fun f => s.enables f.guard := by
  rw [findings, findings, sightings, sightings_standard, List.filterMap_filter,
    List.filter_filterMap]
  apply List.filterMap_congr
  intro x _
  cases hf : x.finding? with
  | none => rw [ite_self, Option.filter_none]
  | some f => rw [guard_of_finding? hf, Option.filter_some]

theorem find_eq_filter (s : Settings) (inKotlin : Bool) (m : Method) :
    s.find inKotlin m = (standard.find inKotlin m).filter fun f => s.enables f.guard := by
  unfold find
  split
  · exact s.findings_eq_filter m
  · rfl

/-- A position is masked if an enabled guard has a span that holds it. -/
theorem mask_filter (s : Settings) (inKotlin : Bool) (m : Method) (length : Nat) :
    (s.filter inKotlin m {}).mask length =
      (List.range length).map fun i => (standard.find inKotlin m).any fun f =>
        s.enables f.guard && f.spans.any fun x => x.contains i := by
  have hspans : (s.filter inKotlin m {}).spans =
      ((standard.find inKotlin m).filter fun f => s.enables f.guard).flatMap Finding.spans := by
    rw [filter, spans_foldl_ignoreAll, ← find_eq_filter]
    rfl
  rw [Exclusions.mask_eq_map]
  apply List.map_congr_left
  intro i _
  rw [Exclusions.isIgnored, hspans, List.any_flatMap, List.any_filter]

/-- What settings find in a method is exactly what all guards together find there, less the findings
of guards that are not enabled: in the same order, with the same calls and spans. For every class and
every length the mask is the union of the masks that the enabled guards give alone. -/
theorem enabled_guards_do_not_interfere (s : Settings) (m : Method) :
    s.findings m = (standard.findings m).filter (fun f => s.enables f.guard) ∧
      ∀ (inKotlin : Bool) (d : DriftPolicy) (length : Nat),
        (s.filter inKotlin m {}).mask length =
          Exclusions.union length ((Guard.all.filter s.enables).map fun g =>
            ((only g d).filter inKotlin m {}).mask length) := by
  refine ⟨s.findings_eq_filter m, fun inKotlin d length => ?_⟩
  simp only [mask_filter]
  rw [Exclusions.union_map]
  apply List.map_congr_left
  intro i _
  rw [Bool.eq_iff_iff]
  simp only [List.any_eq_true, List.mem_filter, Bool.and_eq_true, enables_only]
  constructor
  · rintro ⟨f, hf, henabled, hspan⟩
    exact ⟨f.guard, ⟨Guard.mem_all f.guard, henabled⟩, f, hf, rfl, hspan⟩
  · rintro ⟨g, ⟨-, henabled⟩, f, hf, rfl, hspan⟩
    exact ⟨f, hf, henabled, hspan⟩

end Settings
end ComposeGuards
