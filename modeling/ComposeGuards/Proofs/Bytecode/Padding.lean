import ComposeGuards.Proofs.Bytecode.Positions
import Mathlib.Order.Monotone.Basic

/-! # Bodies with more metadata

Line numbers and frames are metadata: they carry no opcode and define no label. A body is padded if
metadata is put in anywhere; every instruction of it has a new place, and the places keep their
order. What stands at a position is found at its place again, the first definition of a label at the
place of the first definition, and the first executable instruction at the place of the first.
-/
namespace ComposeGuards

/-- Line numbers and frames. -/
def Instruction.isMetadata : Instruction → Bool
  | .lineNumber _ _ | .frame => true
  | _ => false

theorem Instruction.opcode?_of_isMetadata {x : Instruction} (h : x.isMetadata = true) :
    x.opcode? = none := by
  cases x with
  | lineNumber line start => rfl
  | frame => rfl
  | _ => cases h

namespace Body

/-- The second body is the first with metadata put in, and `place` says where every position of the
first has gone. Positions behind the end go behind the end. -/
structure Padded (b b' : Body) (place : Nat → Nat) : Prop where
  strictMono : StrictMono place
  kept : ∀ i, b'[place i]? = b[i]?
  added : ∀ j x, b'[j]? = some x → x.isMetadata = true ∨ ∃ i, place i = j

namespace Padded
variable {b b' : Body} {place : Nat → Nat} (h : b.Padded b' place)
include h

theorem lt_length_iff {i : Nat} : place i < b'.length ↔ i < b.length := by
  rw [← not_iff_not, Nat.not_lt, Nat.not_lt, ← List.getElem?_eq_none_iff,
    ← List.getElem?_eq_none_iff, h.kept]

/-- Whatever is no metadata comes from the first body. -/
theorem exists_place {j : Nat} {x : Instruction} (hx : b'[j]? = some x)
    (hmeta : x.isMetadata = false) : ∃ i, place i = j ∧ b[i]? = some x := by
  rcases h.added j x hx with hnew | ⟨i, rfl⟩
  · rw [hmeta] at hnew
    cases hnew
  · rw [h.kept] at hx
    exact ⟨i, rfl, hx⟩

theorem carries_iff {byte : UInt8} {i : Nat} : b'.Carries byte (place i) ↔ b.Carries byte i := by
  rw [Carries, Carries, h.kept]

theorem jumps_iff {byte : UInt8} {i : Nat} {l : Label} :
    b'.Jumps byte (place i) l ↔ b.Jumps byte i l := by
  rw [Jumps, Jumps, h.kept]

theorem firstDefined_iff {l : Label} {j : Nat} :
    b'.FirstDefined l j ↔ ∃ i, place i = j ∧ b.FirstDefined l i := by
  constructor
  · rintro ⟨hlabel, hbefore⟩
    obtain ⟨i, rfl, hi⟩ := h.exists_place hlabel rfl
    refine ⟨i, rfl, hi, ?_⟩
    intro k hk hdefined
    apply hbefore (place k) (h.strictMono hk)
    rw [h.kept, hdefined]
  · rintro ⟨i, rfl, hi, hbefore⟩
    refine ⟨by rw [h.kept, hi], ?_⟩
    intro j hj hdefined
    obtain ⟨k, rfl, hk⟩ := h.exists_place hdefined rfl
    exact hbefore k (h.strictMono.lt_iff_lt.mp hj) hk

theorem firstReal_iff {start j : Nat} :
    b'.FirstReal (place start) j ↔ ∃ i, place i = j ∧ b.FirstReal start i := by
  have hopcode : ∀ {x : Instruction} {o}, x.opcode? = some o → x.isMetadata = false := by
    intro x o ho
    by_contra hmeta
    rw [Instruction.opcode?_of_isMetadata (Bool.not_eq_false _ ▸ hmeta)] at ho
    cases ho
  constructor
  · rintro ⟨hstart, ⟨x, o, hx, ho⟩, hbefore⟩
    obtain ⟨i, rfl, hi⟩ := h.exists_place hx (hopcode ho)
    refine ⟨i, rfl, h.strictMono.le_iff_le.mp hstart, ⟨x, o, hi, ho⟩, ?_⟩
    intro k y hk hki hy
    apply hbefore (place k) y (h.strictMono.le_iff_le.mpr hk) (h.strictMono hki)
    rw [h.kept, hy]
  · rintro ⟨i, rfl, hstart, ⟨x, o, hx, ho⟩, hbefore⟩
    refine ⟨h.strictMono.le_iff_le.mpr hstart, ⟨x, o, by rw [h.kept, hx], ho⟩, ?_⟩
    intro j y hj hji hy
    by_contra hne
    obtain ⟨p, hp⟩ := Option.ne_none_iff_exists'.mp hne
    obtain ⟨k, rfl, hk⟩ := h.exists_place hy (hopcode hp)
    exact hne (hbefore k y (h.strictMono.le_iff_le.mp hj) (h.strictMono.lt_iff_lt.mp hji) hk)

end Padded

/-- Where a position goes when one instruction is put in at `p`. -/
def shifted (p i : Nat) : Nat :=
  if i < p then i else i + 1

theorem shifted_of_lt {p i : Nat} (h : i < p) : shifted p i = i := if_pos h

theorem shifted_of_le {p i : Nat} (h : p ≤ i) : shifted p i = i + 1 := if_neg (Nat.not_lt.mpr h)

theorem shifted_strictMono (p : Nat) : StrictMono (shifted p) := by
  intro i j hij
  unfold shifted
  split_ifs <;> omega

theorem padded_insertIdx {b : Body} {p : Nat} {x : Instruction} (hp : p ≤ b.length)
    (hx : x.isMetadata = true) : b.Padded (b.insertIdx p x) (shifted p) where
  strictMono := shifted_strictMono p
  kept i := by
    rcases Nat.lt_or_ge i p with hi | hi
    · rw [shifted_of_lt hi, List.getElem?_insertIdx_of_lt hi]
    · rw [shifted_of_le hi, List.getElem?_insertIdx_of_gt (by omega), Nat.add_sub_cancel]
  added j y hy := by
    rcases Nat.lt_trichotomy j p with hlt | rfl | hgt
    · exact .inr ⟨j, shifted_of_lt hlt⟩
    · left
      rw [List.getElem?_insertIdx_self, if_pos hp] at hy
      cases hy
      exact hx
    · right
      refine ⟨j - 1, ?_⟩
      rw [shifted_of_le (by omega)]
      omega

/-- Positions next to each other are parted only by an insertion between them. -/
theorem shifted_succ {p i : Nat} (h : i + 1 ≠ p) : shifted p (i + 1) = shifted p i + 1 := by
  unfold shifted
  split_ifs <;> omega

end Body
end ComposeGuards
