import ComposeGuards.Report
import ComposeGuards.Proofs.Coverage.Mask
import ComposeGuards.Proofs.Guard.Recognition
import Mathlib.Data.List.Forall2

/-! # What a report says

A report has one entry for each method, in the order of the listing. The entry agrees with what the
scan finds in the method and with the spans that the filter reports, and it counts every excluded
instruction once. A guard that is recognised always excludes an instruction of the method, so an
entry without excluded instructions is one without guards.
-/
namespace ComposeGuards

/-- Every recognised guard has a span that holds a position of the body. -/
theorem Guard.Shape.exists_position {b : Body} {call : Nat} {g : Guard} {ss : List Span}
    (h : g.Shape b call ss) : ∃ s ∈ ss, ∃ i, i < b.length ∧ s.first ≤ i ∧ i ≤ s.last := by
  cases h with
  | skip jump defined =>
    have hjump := jump.lt_length
    exact ⟨_, List.mem_cons_self, 0, by omega, Nat.le_refl 0, Nat.zero_le _⟩
  | scope dup jump defined real carries forward =>
    have hjump := jump.lt_length
    exact ⟨_, List.mem_cons_self, call + 2, hjump, Nat.le_refl _, Nat.le_of_lt forward⟩
  | trace jump defined forward =>
    have hjump := jump.lt_length
    exact ⟨_, List.mem_cons_self, call + 1, hjump, Nat.le_refl _, Nat.le_of_lt forward⟩

/-- The methods of a listing with their classes, in order. -/
def ClassUnit.placedMethods (cs : List ClassUnit) : List (ClassUnit × Method) :=
  cs.flatMap fun c => c.methods.map fun m => (c, m)

/-- What an entry says about a method of a class under the settings. -/
structure MethodReport.Describes (s : Settings) (c : ClassUnit) (m : Method) (r : MethodReport) :
    Prop where
  className : r.className = c.name
  method : r.method = m.name
  desc : r.desc = m.desc
  instructions : r.instructions = m.body.length
  composable : r.composable = true ↔
    c.isKotlin = true ∧ "Landroidx/compose/runtime/Composable;" ∈ m.invisible
  nothing : r.composable = false → r.findings = [] ∧ r.spans = [] ∧ r.excluded = 0
  findings : r.composable = true → r.findings = s.findings m
  spans : r.spans = r.findings.flatMap Finding.spans
  filtered : (s.filter c.isKotlin m {}).spans = r.spans
  excluded : r.excluded =
    ((Finset.range r.instructions).filter fun i => ∃ x ∈ r.spans, x.first ≤ i ∧ i ≤ x.last).card
  excluded_le : r.excluded ≤ r.instructions
  excluded_pos : 0 < r.excluded ↔ r.findings ≠ []

theorem forall₂_map_self {α β : Type} {R : α → β → Prop} {f : α → β} (h : ∀ a, R a (f a))
    (as : List α) : List.Forall₂ R as (as.map f) := by
  rw [List.forall₂_map_right_iff, List.forall₂_same]
  exact fun a _ => h a

namespace Settings

theorem spans_foldl_ignoreAll (fs : List Finding) (e : Exclusions) :
    (fs.foldl (fun e f => e.ignoreAll f.spans) e).spans = e.spans ++ fs.flatMap Finding.spans := by
  induction fs generalizing e with
  | nil => simp
  | cons f fs ih =>
    rw [List.foldl_cons, ih, Exclusions.ignoreAll_spans, List.flatMap_cons, List.append_assoc]

theorem isComposable_iff {m : Method} {inKotlin : Bool} :
    m.isComposable inKotlin = true ↔
      inKotlin = true ∧ "Landroidx/compose/runtime/Composable;" ∈ m.invisible := by
  simp [Method.isComposable, Method.hasInvisible, Guard.composable]

theorem find_of_composable {s : Settings} {m : Method} {inKotlin : Bool}
    (h : m.isComposable inKotlin = true) : s.find inKotlin m = s.findings m := by
  rw [find, if_pos h]

theorem find_of_not_composable {s : Settings} {m : Method} {inKotlin : Bool}
    (h : m.isComposable inKotlin = false) : s.find inKotlin m = [] := by
  rw [find, if_neg (by rw [h]; exact Bool.false_ne_true)]

theorem mem_findings_of_mem_find {s : Settings} {m : Method} {inKotlin : Bool} {f : Finding}
    (h : f ∈ s.find inKotlin m) : f ∈ s.findings m := by
  cases hc : m.isComposable inKotlin with
  | true => rwa [find_of_composable hc] at h
  | false => rw [find_of_not_composable hc] at h; cases h

section Entry
variable (s : Settings) (c : ClassUnit) (m : Method)

theorem spans_methodReport :
    (s.methodReport c m).spans = (s.find c.isKotlin m).flatMap Finding.spans := by
  simp only [methodReport, Exclusions.ignoreAll_spans, Finding.allSpans, List.nil_append]

theorem excluded_methodReport :
    (s.methodReport c m).excluded =
      ((Finset.range m.body.length).filter fun i =>
        ∃ x ∈ (s.methodReport c m).spans, x.first ≤ i ∧ i ≤ x.last).card :=
  Exclusions.count_eq_card _ _

theorem excluded_pos_iff : 0 < (s.methodReport c m).excluded ↔ s.find c.isKotlin m ≠ [] := by
  rw [excluded_methodReport, Finset.card_pos, spans_methodReport]
  constructor
  · rintro ⟨i, hi⟩ hnil
    obtain ⟨-, x, hx, -⟩ := Finset.mem_filter.mp hi
    rw [hnil] at hx
    cases hx
  · intro hne
    obtain ⟨f, hf⟩ := List.exists_mem_of_ne_nil _ hne
    obtain ⟨-, -, hshape⟩ := mem_findings.mp (mem_findings_of_mem_find hf)
    obtain ⟨x, hx, i, hlt, hfirst, hlast⟩ := hshape.exists_position
    exact ⟨i, Finset.mem_filter.mpr
      ⟨Finset.mem_range.mpr hlt, x, List.mem_flatMap.mpr ⟨f, hf, hx⟩, hfirst, hlast⟩⟩

theorem excluded_le_length : (s.methodReport c m).excluded ≤ m.body.length := by
  rw [excluded_methodReport]
  calc _ ≤ (Finset.range m.body.length).card := Finset.card_filter_le _ _
    _ = m.body.length := Finset.card_range _

theorem methodReport_describes : (s.methodReport c m).Describes s c m where
  className := rfl
  method := rfl
  desc := rfl
  instructions := rfl
  composable := isComposable_iff
  nothing h := by
    have hfind : s.find c.isKotlin m = [] := find_of_not_composable h
    refine ⟨hfind, ?_, ?_⟩
    · rw [spans_methodReport, hfind]
      rfl
    · exact Nat.eq_zero_of_not_pos fun hpos => (excluded_pos_iff s c m).mp hpos hfind
  findings h := find_of_composable h
  spans := spans_methodReport s c m
  filtered := by
    rw [spans_methodReport, filter, spans_foldl_ignoreAll]
    rfl
  excluded := excluded_methodReport s c m
  excluded_le := excluded_le_length s c m
  excluded_pos := excluded_pos_iff s c m

end Entry

theorem report_eq_map (s : Settings) (cs : List ClassUnit) :
    s.report cs = (ClassUnit.placedMethods cs).map fun p => s.methodReport p.1 p.2 := by
  simp [report, ClassUnit.placedMethods, List.map_flatMap, Function.comp_def]

theorem report_describes (s : Settings) (cs : List ClassUnit) :
    List.Forall₂ (fun p r => MethodReport.Describes s p.1 p.2 r) (ClassUnit.placedMethods cs)
      (s.report cs) := by
  rw [report_eq_map]
  exact forall₂_map_self (fun p : ClassUnit × Method => s.methodReport_describes p.1 p.2) _

end Settings

end ComposeGuards
