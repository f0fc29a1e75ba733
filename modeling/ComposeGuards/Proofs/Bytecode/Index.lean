import ComposeGuards.Bytecode.Body
import Mathlib.Data.List.Induction

/-! # The index of a body

The pass that fills the index keeps one invariant: over the instructions read so far, an entry of the
index is the first definition of its label, and a label without an entry is not defined. Sorting
keeps the members and gives increasing order; dropping repetitions from increasing order leaves each
member once. From these, what an indexed body finds is said about the instructions themselves.
-/
namespace ComposeGuards

/-- The label stands at the position and nowhere before it. -/
def Body.FirstDefined (b : Body) (l : Label) (i : Nat) : Prop :=
  b[i]? = some (.label l) ∧ ∀ j < i, b[j]? ≠ some (.label l)

namespace Body.FirstDefined
variable {b : Body} {l : Label} {i j : Nat}

theorem lt_length (h : b.FirstDefined l i) : i < b.length :=
  (List.getElem?_eq_some_iff.mp h.1).1

theorem mem (h : b.FirstDefined l i) : .label l ∈ b :=
  List.mem_of_getElem? h.1

theorem unique (h : b.FirstDefined l i) (h' : b.FirstDefined l j) : i = j := by
  rcases Nat.lt_trichotomy i j with hlt | heq | hgt
  · exact absurd h.1 (h'.2 i hlt)
  · exact heq
  · exact absurd h'.1 (h.2 j hgt)

/-- Instructions that follow do not move the first definition. -/
theorem append (h : b.FirstDefined l i) (c : Body) : Body.FirstDefined (b ++ c) l i := by
  have hi := h.lt_length
  refine ⟨?_, ?_⟩
  · rw [List.getElem?_append_left hi]
    exact h.1
  · intro j hj
    rw [List.getElem?_append_left (Nat.lt_trans hj hi)]
    exact h.2 j hj

/-- A label that was not defined is defined first where it is added. -/
theorem of_not_mem (h : .label l ∉ b) : Body.FirstDefined (b ++ [.label l]) l b.length := by
  refine ⟨List.getElem?_concat_length, ?_⟩
  intro j hj hl
  rw [List.getElem?_append_left hj] at hl
  exact h (List.mem_of_getElem? hl)

end Body.FirstDefined

/-! ## The pass -/

namespace LabelIndex

theorem lookup_enter (index : LabelIndex) (l k : Label) (i : Nat) :
    (index.enter l i).lookup k = (index.lookup k).or (if k = l then some i else none) := by
  cases hl : index.lookup l with
  | some j =>
    simp only [enter, hl]
    by_cases hk : k = l
    · subst hk
      simp [hl]
    · simp [hk]
  | none =>
    simp only [enter, hl, List.lookup_cons]
    by_cases hk : k = l
    · subst hk
      simp [hl]
    · simp [hk, beq_eq_false_iff_ne.mpr hk]

/-- The index agrees with the instructions that were read. -/
structure Covers (index : LabelIndex) (b : Body) : Prop where
  first : ∀ l i, index.lookup l = some i → b.FirstDefined l i
  missing : ∀ l, index.lookup l = none → .label l ∉ b

namespace Covers
variable {index : LabelIndex} {b : Body}

theorem lookup_eq_some_iff (h : index.Covers b) {l : Label} {i : Nat} :
    index.lookup l = some i ↔ b.FirstDefined l i := by
  refine ⟨h.first l i, fun hi => ?_⟩
  cases hl : index.lookup l with
  | none => exact absurd hi.mem (h.missing l hl)
  | some j => rw [(h.first l j hl).unique hi]

theorem lookup_eq_none_iff (h : index.Covers b) {l : Label} :
    index.lookup l = none ↔ .label l ∉ b := by
  refine ⟨h.missing l, fun hl => ?_⟩
  cases hi : index.lookup l with
  | none => rfl
  | some i => exact absurd (h.first l i hi).mem hl

/-- One step of the pass: the next instruction is numbered by how many were read. -/
theorem visit (h : index.Covers b) (x : Instruction) :
    (index.visit (x, b.length)).Covers (b ++ [x]) := by
  cases x with
  | label m =>
    constructor
    · intro l i hl
      rw [LabelIndex.visit, lookup_enter, Option.or_eq_some_iff] at hl
      rcases hl with hold | ⟨hnone, hnew⟩
      · exact (h.first l i hold).append _
      · split at hnew
        · next hlm =>
          cases hnew
          subst hlm
          exact .of_not_mem (h.missing l hnone)
        · cases hnew
    · intro l hl
      rw [LabelIndex.visit, lookup_enter, Option.or_eq_none_iff] at hl
      have hlm : l ≠ m := by simpa using hl.2
      simp [h.missing l hl.1, hlm]
  | _ =>
    exact ⟨fun l i hl => (h.first l i hl).append _, fun l hl => by simpa using h.missing l hl⟩

end Covers

/-- The whole pass. -/
theorem covers_ofInstructions (b : Body) : (ofInstructions b).Covers b := by
  induction b using List.reverseRecOn with
  | nil => exact ⟨fun _ _ hl => (by cases hl), fun _ _ => List.not_mem_nil⟩
  | append_singleton b x ih =>
    have hstep : ofInstructions (b ++ [x]) = (ofInstructions b).visit (x, b.length) := by
      simp [ofInstructions, List.zipIdx_append]
    rw [hstep]
    exact ih.visit x

end LabelIndex

/-! ## Sorting and dropping repetitions -/

namespace Label

theorem mem_insertSorted {l k : Label} {ks : List Label} :
    k ∈ insertSorted l ks ↔ k = l ∨ k ∈ ks := by
  induction ks with
  | nil => simp [insertSorted]
  | cons j js ih =>
    unfold insertSorted
    split
    · rw [List.mem_cons, ih, List.mem_cons]
      exact or_left_comm
    · exact List.mem_cons

theorem mem_sort {l : Label} {ls : List Label} : l ∈ sort ls ↔ l ∈ ls := by
  induction ls with
  | nil => exact Iff.rfl
  | cons k ks ih => rw [sort, List.foldr_cons, mem_insertSorted, ← sort, ih, List.mem_cons]

theorem pairwise_insertSorted {l : Label} {ks : List Label} (h : ks.Pairwise (· ≤ ·)) :
    (insertSorted l ks).Pairwise (· ≤ ·) := by
  induction ks with
  | nil => exact List.pairwise_singleton _ l
  | cons k ks ih =>
    obtain ⟨hk, hks⟩ := List.pairwise_cons.mp h
    unfold insertSorted
    split
    · next hlt =>
      refine List.pairwise_cons.mpr ⟨?_, ih hks⟩
      intro j hj
      rcases mem_insertSorted.mp hj with rfl | hj
      · exact UInt32.le_of_lt hlt
      · exact hk j hj
    · next hge =>
      refine List.pairwise_cons.mpr ⟨?_, h⟩
      have hlk : l ≤ k := UInt32.not_lt.mp hge
      intro j hj
      rcases List.mem_cons.mp hj with rfl | hj
      · exact hlk
      · exact UInt32.le_trans hlk (hk j hj)

theorem pairwise_sort (ls : List Label) : (sort ls).Pairwise (· ≤ ·) := by
  induction ls with
  | nil => exact .nil
  | cons l ls ih => exact pairwise_insertSorted ih

theorem eraseReps_loop (ls : List Label) (l : Label) (kept : List Label) :
    List.eraseRepsBy.loop (· == ·) l ls kept = kept.reverse ++ (l :: ls).eraseReps := by
  induction ls generalizing l kept with
  | nil => simp [List.eraseReps, List.eraseRepsBy, List.eraseRepsBy.loop]
  | cons k ks ih =>
    rw [List.eraseReps, List.eraseRepsBy, List.eraseRepsBy.loop, List.eraseRepsBy.loop]
    split
    · rw [ih, ih]
      simp
    · rw [ih, ih]
      simp

theorem eraseReps_cons_cons (l k : Label) (ks : List Label) :
    (l :: k :: ks).eraseReps =
      if l = k then (l :: ks).eraseReps else l :: (k :: ks).eraseReps := by
  rw [List.eraseReps, List.eraseRepsBy, List.eraseRepsBy.loop]
  by_cases h : l = k
  · rw [if_pos h, beq_iff_eq.mpr h, eraseReps_loop]
    rfl
  · rw [if_neg h, beq_eq_false_iff_ne.mpr h]
    exact eraseReps_loop ks k [l]

theorem mem_eraseReps {k : Label} : ∀ {ls : List Label}, k ∈ ls.eraseReps ↔ k ∈ ls
  | [] | [_] => Iff.rfl
  | l :: m :: ms => by
    rw [eraseReps_cons_cons]
    split
    · next h =>
      rw [mem_eraseReps, h]
      simp
    · rw [List.mem_cons, mem_eraseReps]
      exact List.mem_cons.symm

/-- In increasing order equal labels stand beside each other, so each is left once. -/
theorem pairwise_eraseReps : ∀ {ls : List Label}, ls.Pairwise (· ≤ ·) →
    ls.eraseReps.Pairwise (· < ·)
  | [], _ => .nil
  | [l], _ => List.pairwise_singleton _ l
  | l :: m :: ms, h => by
    obtain ⟨hl, hms⟩ := List.pairwise_cons.mp h
    rw [eraseReps_cons_cons]
    split
    · next heq =>
      subst heq
      exact pairwise_eraseReps hms
    · next hne =>
      have hlt : l < m := UInt32.lt_of_le_of_ne (hl m List.mem_cons_self) hne
      refine List.pairwise_cons.mpr ⟨?_, pairwise_eraseReps hms⟩
      intro k hk
      rcases List.mem_cons.mp (mem_eraseReps.mp hk) with rfl | hk
      · exact hlt
      · exact UInt32.lt_of_lt_of_le hlt (List.rel_of_pairwise_cons hms hk)

end Label

/-! ## What an indexed body finds -/

/-- In increasing order the first is the one that none is below. -/
theorem head?_eq_some_iff_of_pairwise {α : Type} {lt : α → α → Prop}
    (hasymm : ∀ a b, lt a b → ¬ lt b a) {as : List α} (h : as.Pairwise lt) {a : α} :
    as.head? = some a ↔ a ∈ as ∧ ∀ b ∈ as, ¬ lt b a := by
  cases as with
  | nil => simp
  | cons c cs =>
    constructor
    · intro ha
      cases ha
      refine ⟨List.mem_cons_self, ?_⟩
      intro b hb hba
      rcases List.mem_cons.mp hb with rfl | hb
      · exact hasymm b b hba hba
      · exact hasymm _ _ (List.rel_of_pairwise_cons h hb) hba
    · rintro ⟨hmem, hleast⟩
      rcases List.mem_cons.mp hmem with rfl | hlater
      · rfl
      · exact absurd (List.rel_of_pairwise_cons h hlater) (hleast c List.mem_cons_self)

namespace IndexedBody
variable {b : Body}

theorem position?_eq_some_iff {l : Label} {i : Nat} :
    b.indexed.position? l = some i ↔ b.FirstDefined l i :=
  (LabelIndex.covers_ofInstructions b).lookup_eq_some_iff

theorem position?_eq_none_iff {l : Label} :
    b.indexed.position? l = none ↔ .label l ∉ b :=
  (LabelIndex.covers_ofInstructions b).lookup_eq_none_iff

theorem mem_undefinedLabels {l : Label} :
    l ∈ b.indexed.undefinedLabels ↔ l ∈ b.filterMap Instruction.refersTo? ∧ .label l ∉ b := by
  rw [undefinedLabels, Label.mem_eraseReps, Label.mem_sort, List.mem_filter,
    Option.isNone_iff_eq_none]
  exact and_congr_right' position?_eq_none_iff

theorem undefinedLabels_pairwise (b : Body) : b.indexed.undefinedLabels.Pairwise (· < ·) :=
  Label.pairwise_eraseReps (Label.pairwise_sort _)

theorem mem_realFrom {start i : Nat} {x : Instruction} :
    (x, i) ∈ b.indexed.realFrom start ↔ start ≤ i ∧ b[i]? = some x ∧ x.isReal = true := by
  have hdrop : (x, i) ∈ b.zipIdx.drop start ↔ start ≤ i ∧ b[i]? = some x := by
    simp only [List.mem_iff_getElem?, List.getElem?_drop, List.getElem?_zipIdx]
    constructor
    · rintro ⟨n, hn⟩
      obtain ⟨y, hy, hpair⟩ := Option.map_eq_some_iff.mp hn
      obtain ⟨rfl, rfl⟩ := Prod.mk.inj hpair
      exact ⟨by omega, by rwa [Nat.zero_add]⟩
    · rintro ⟨hle, hx⟩
      have hi : start + (i - start) = i := by omega
      exact ⟨i - start, by simp [hi, hx]⟩
  rw [realFrom, List.mem_filter, ← and_assoc]
  exact and_congr_left' hdrop

theorem realFrom_pairwise (b : Body) (start : Nat) :
    (b.indexed.realFrom start).Pairwise (·.2 < ·.2) := by
  have hnumbers : b.zipIdx.Pairwise (·.2 < ·.2) := by
    rw [← List.pairwise_map, List.zipIdx_map_snd]
    exact List.pairwise_lt_range'
  exact (hnumbers.sublist (List.drop_sublist start _)).filter _

/-- The search stops at the least position of an executable instruction. -/
theorem firstReal?_eq_some_iff {start i : Nat} {x : Instruction} :
    b.indexed.firstReal? start = some (x, i) ↔
      (x, i) ∈ b.indexed.realFrom start ∧ ∀ p ∈ b.indexed.realFrom start, i ≤ p.2 := by
  rw [firstReal?, head?_eq_some_iff_of_pairwise (fun _ _ => Nat.lt_asymm) (realFrom_pairwise b start)]
  simp only [Nat.not_lt]

theorem firstReal?_eq_none_iff {start : Nat} :
    b.indexed.firstReal? start = none ↔ b.indexed.realFrom start = [] :=
  List.head?_eq_none_iff

end IndexedBody
end ComposeGuards
