import ComposeGuards.Coverage.Exclusions
import Mathlib.Data.Nat.Count

/-! # The mask of the excluded positions

Painting a span sets the flags of the positions that it holds and no others, so the mask of a body
has one flag per position, and the flag says whether some span holds the position. The positions
that are counted are those that lie in a span, each of them once.

Painting fills a slice of the mask, from the first position of the span to the one after its last,
as far as the mask reaches. That slice always is one: a span which is empty or starts behind the mask
is passed over, and no other end lies behind the mask or before the start.
-/
namespace ComposeGuards

theorem Span.contains_iff {s : Span} {i : Nat} :
    s.contains i = true ↔ s.first ≤ i ∧ i ≤ s.last := by
  simp [Span.contains]

theorem Span.contains_eq_false_iff {s : Span} {i : Nat} :
    s.contains i = false ↔ i < s.first ∨ s.last < i := by
  rw [← Bool.not_eq_true, contains_iff]
  omega

theorem Span.getElem?_paint (mask : List Bool) (s : Span) (i : Nat) :
    (s.paint mask)[i]? = mask[i]?.map fun flag => flag || s.contains i := by
  by_cases hi : i < mask.length
  · rw [List.getElem?_eq_getElem hi, Option.map_some]
    simp only [Span.paint]
    split
    · next hstop =>
      have htake : (mask.take s.first).length = s.first := by rw [List.length_take]; omega
      by_cases hfirst : i < s.first
      · have hout : s.contains i = false := contains_eq_false_iff.mpr (.inl hfirst)
        rw [List.append_assoc, List.getElem?_append_left (by omega), List.getElem?_take_of_lt hfirst,
          List.getElem?_eq_getElem hi, hout, Bool.or_false]
      · rw [List.append_assoc, List.getElem?_append_right (by omega), htake]
        by_cases hlast : i ≤ s.last
        · have hin : s.contains i = true := contains_iff.mpr ⟨by omega, hlast⟩
          rw [List.getElem?_append_left (by rw [List.length_replicate]; omega),
            List.getElem?_replicate_of_lt (by omega), hin, Bool.or_true]
        · have hout : s.contains i = false := contains_eq_false_iff.mpr (.inr (by omega))
          have hdrop : min (s.last + 1) mask.length +
              (i - s.first - (min (s.last + 1) mask.length - s.first)) = i := by omega
          rw [List.getElem?_append_right (by rw [List.length_replicate]; omega),
            List.length_replicate, List.getElem?_drop, hdrop, List.getElem?_eq_getElem hi, hout,
            Bool.or_false]
    · next hstop =>
      -- the span holds nothing, or starts behind the mask
      have hout : s.contains i = false := contains_eq_false_iff.mpr (by omega)
      rw [List.getElem?_eq_getElem hi, hout, Bool.or_false]
  · have hmask : mask[i]? = none := List.getElem?_eq_none (by omega)
    have hpaint : (s.paint mask)[i]? = none :=
      List.getElem?_eq_none (by rw [Span.length_paint]; omega)
    rw [hmask, hpaint, Option.map_none]

namespace Exclusions

theorem getElem?_foldl_paint (ss : List Span) (mask : List Bool) (i : Nat) :
    (ss.foldl Span.paint mask)[i]? =
      mask[i]?.map fun flag => flag || ss.any fun s => s.contains i := by
  induction ss generalizing mask with
  | nil => simp
  | cons s ss ih =>
    rw [List.foldl_cons, ih, Span.getElem?_paint, Option.map_map]
    congr 1
    funext flag
    simp [Bool.or_assoc]

theorem mask_eq_map (e : Exclusions) (length : Nat) :
    e.mask length = (List.range length).map e.isIgnored := by
  apply List.ext_getElem?
  intro i
  rw [mask, getElem?_foldl_paint, List.getElem?_map]
  by_cases hi : i < length
  · simp [hi, isIgnored]
  · rw [List.getElem?_eq_none (by simpa using hi), List.getElem?_eq_none (by simpa using hi)]
    rfl

theorem isIgnored_iff {e : Exclusions} {i : Nat} :
    e.isIgnored i = true ↔ ∃ s ∈ e.spans, s.first ≤ i ∧ i ≤ s.last := by
  simp only [isIgnored, List.any_eq_true, Span.contains_iff]

/-- Every position of the body that lies in at least one span is counted once. -/
theorem count_eq_card (e : Exclusions) (length : Nat) :
    e.count length =
      ((Finset.range length).filter fun i => ∃ s ∈ e.spans, s.first ≤ i ∧ i ≤ s.last).card := by
  have hcount : e.count length = Nat.count (fun i => e.isIgnored i = true) length := by
    rw [count, mask_eq_map, List.count_eq_countP, List.countP_map, Nat.count]
    congr 1
  simp only [hcount, Nat.count_eq_card_filter_range, isIgnored_iff]

end Exclusions

/-! ## Painting in slices -/

/-- Sets the flags from `start` up to `stop`, which must be the ends of a slice of the mask. -/
def fill? (mask : List Bool) (start stop : Nat) : Option (List Bool) :=
  if start ≤ stop ∧ stop ≤ mask.length then
    some (mask.mapIdx fun i flag => flag || (decide (start ≤ i) && decide (i < stop)))
  else none

/-- The position after the given one, if it is a number of 64 bits. -/
def positionAfter? (i : Nat) : Option Nat :=
  if i + 1 < UInt64.size then some (i + 1) else none

/-- Paints the span by filling a slice. -/
def Span.paint? (mask : List Bool) (s : Span) : Option (List Bool) := do
  let past ← positionAfter? s.last
  let stop := min past mask.length
  if s.first < stop then fill? mask s.first stop else some mask

theorem Span.paint?_eq_some {mask : List Bool} {s : Span} (h : s.last + 1 < UInt64.size) :
    s.paint? mask = some (s.paint mask) := by
  have hpast : positionAfter? s.last = some (s.last + 1) := if_pos h
  simp only [Span.paint?, hpast, Option.bind_eq_bind, Option.bind_some]
  split
  · next hstop =>
    have hslice : s.first ≤ min (s.last + 1) mask.length ∧
        min (s.last + 1) mask.length ≤ mask.length := ⟨hstop.le, Nat.min_le_right _ _⟩
    rw [fill?, if_pos hslice, Option.some.injEq]
    apply List.ext_getElem?
    intro i
    rw [List.getElem?_mapIdx, Span.getElem?_paint]
    by_cases hi : i < mask.length
    · have hheld : (decide (s.first ≤ i) && decide (i < min (s.last + 1) mask.length)) =
          s.contains i := by
        rw [Bool.eq_iff_iff, contains_iff]
        simp only [Bool.and_eq_true, decide_eq_true_eq]
        omega
      simp only [hheld]
    · rw [List.getElem?_eq_none (by omega)]
      rfl
  · next hstop => simp only [Span.paint, if_neg hstop]

namespace Exclusions

/-- The mask, painted slice by slice. -/
def mask? (e : Exclusions) (length : Nat) : Option (List Bool) :=
  e.spans.foldlM Span.paint? (List.replicate length false)

theorem foldlM_paint? {ss : List Span} (h : ∀ s ∈ ss, s.last + 1 < UInt64.size)
    (mask : List Bool) : ss.foldlM Span.paint? mask = some (ss.foldl Span.paint mask) := by
  induction ss generalizing mask with
  | nil => rfl
  | cons s ss ih =>
    rw [List.foldlM_cons, Span.paint?_eq_some (h s List.mem_cons_self)]
    exact ih (fun t ht => h t (List.mem_cons_of_mem s ht)) (s.paint mask)

theorem mask?_eq_some {e : Exclusions} (h : ∀ s ∈ e.spans, s.last + 1 < UInt64.size)
    (length : Nat) : e.mask? length = some (e.mask length) :=
  foldlM_paint? h _

/-! ## The union of the spans -/

/-- What is excluded after these spans were reported, one after another. -/
def ofReports (reports : List Span) : Exclusions :=
  ignoreAll {} reports

theorem spans_ofReports (reports : List Span) : (ofReports reports).spans = reports := by
  rw [ofReports, ignoreAll_spans, List.nil_append]

theorem isIgnored_congr {e e' : Exclusions} (h : ∀ s, s ∈ e'.spans ↔ s ∈ e.spans) (i : Nat) :
    e'.isIgnored i = e.isIgnored i := by
  rw [Bool.eq_iff_iff, isIgnored_iff, isIgnored_iff]
  simp only [h]

theorem mask_congr {e e' : Exclusions} (h : ∀ s, s ∈ e'.spans ↔ s ∈ e.spans) (length : Nat) :
    e'.mask length = e.mask length := by
  rw [mask_eq_map, mask_eq_map, funext (isIgnored_congr h)]

theorem getElem?_mask {e : Exclusions} {length i : Nat} (hi : i < length) :
    (e.mask length)[i]? = some (e.isIgnored i) := by
  rw [mask_eq_map, List.getElem?_map, List.getElem?_range hi, Option.map_some]

theorem mask_eq_take {length longer : Nat} (h : length ≤ longer) (e : Exclusions) :
    e.mask length = (e.mask longer).take length := by
  rw [mask_eq_map, mask_eq_map, ← List.map_take, List.take_range, Nat.min_eq_left h]

/-- Whatever spans are reported, in whatever order and as often as they are, the mask is painted
without leaving it. It has one flag per position, set exactly where some span holds the position, so
it depends on nothing but the set of the spans, and the mask of a shorter body is the beginning of
that of a longer one. -/
theorem mask_represents_union {reports : List Span}
    (h : ∀ s ∈ reports, s.last + 1 < UInt64.size) (length : Nat) :
    (ofReports reports).mask? length = some ((ofReports reports).mask length) ∧
      ((ofReports reports).mask length).length = length ∧
      (∀ i < length,
        ((ofReports reports).mask length)[i]? = some ((ofReports reports).isIgnored i)) ∧
      (∀ i, (ofReports reports).isIgnored i = true ↔ ∃ s ∈ reports, s.first ≤ i ∧ i ≤ s.last) ∧
      (∀ reports', (∀ s, s ∈ reports' ↔ s ∈ reports) →
        (ofReports reports').mask length = (ofReports reports).mask length) ∧
      ∀ longer, length ≤ longer →
        (ofReports reports).mask length = ((ofReports reports).mask longer).take length := by
  refine ⟨?_, length_mask _ _, fun i hi => getElem?_mask hi, ?_, ?_, ?_⟩
  · exact mask?_eq_some (by rwa [spans_ofReports]) length
  · intro i
    rw [isIgnored_iff, spans_ofReports]
  · intro reports' hsame
    exact mask_congr (by simpa only [spans_ofReports] using hsame) length
  · exact fun longer hle => mask_eq_take hle _

/-- Spans that overlap, repeat, run past the body, start behind it or hold nothing. -/
theorem mask_represents_union_overlapping :
    (∀ s ∈ ([⟨4, 2⟩, ⟨3, 9⟩, ⟨1, 3⟩, ⟨1, 3⟩, ⟨7, 8⟩] : List Span), s.last + 1 < UInt64.size) ∧
      (ofReports [⟨4, 2⟩, ⟨3, 9⟩, ⟨1, 3⟩, ⟨1, 3⟩, ⟨7, 8⟩]).mask? 5 =
        some [false, true, true, true, true] ∧
      (ofReports [⟨3, 9⟩, ⟨7, 8⟩, ⟨4, 2⟩, ⟨1, 3⟩]).mask 5 = [false, true, true, true, true] ∧
      [false, true, true] =
        ((ofReports [⟨4, 2⟩, ⟨3, 9⟩, ⟨1, 3⟩, ⟨1, 3⟩, ⟨7, 8⟩]).mask 5).take 3 := by
  have h : ∀ s ∈ ([⟨4, 2⟩, ⟨3, 9⟩, ⟨1, 3⟩, ⟨1, 3⟩, ⟨7, 8⟩] : List Span),
      s.last + 1 < UInt64.size := by decide
  have hmask : (ofReports [⟨4, 2⟩, ⟨3, 9⟩, ⟨1, 3⟩, ⟨1, 3⟩, ⟨7, 8⟩]).mask 5 =
      [false, true, true, true, true] := by decide
  obtain ⟨hpainted, -, -, -, hset, -⟩ := mask_represents_union h 5
  obtain ⟨-, -, -, -, -, hshort⟩ := mask_represents_union h 3
  refine ⟨h, hpainted.trans (congrArg some hmask), (hset _ (by simp; tauto)).trans hmask, ?_⟩
  exact (by decide : [false, true, true] = _).trans (hshort 5 (by decide))

end Exclusions
end ComposeGuards
