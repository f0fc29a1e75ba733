import ComposeGuards.Proofs.Bytecode.Index
import Mathlib.Data.List.Sort

/-! # Positions in a body

What stands at a position, said about the body itself: opcodes by their bytes, a label where it is
defined first, and the first executable instruction from a position on. The searches of a body find
exactly these positions. The labels of a body are bound if each is defined once and none is missing.
-/
namespace ComposeGuards.Body

/-- The instruction at the position carries an opcode with that byte, in whatever form. -/
def Carries (b : Body) (byte : UInt8) (i : Nat) : Prop :=
  ∃ x o, b[i]? = some x ∧ x.opcode? = some o ∧ o.byte = byte

/-- The instruction at the position is a jump to the label, on an opcode with that byte. -/
def Jumps (b : Body) (byte : UInt8) (i : Nat) (l : Label) : Prop :=
  ∃ o, b[i]? = some (.jump o l) ∧ o.byte = byte

/-- The position is the first from `start` on whose instruction carries an opcode. -/
def FirstReal (b : Body) (start i : Nat) : Prop :=
  start ≤ i ∧ (∃ x o, b[i]? = some x ∧ x.opcode? = some o) ∧
    ∀ j x, start ≤ j → j < i → b[j]? = some x → x.opcode? = none

theorem hasOpcodeAt_iff {b : Body} {m : Mnemonic} {i : Nat} :
    b.hasOpcodeAt m i = true ↔ b.Carries m.byte i := by
  simp only [hasOpcodeAt, Instruction.hasOpcode, Opcode.is, Carries, Option.any_eq_true,
    decide_eq_true_eq]
  constructor
  · rintro ⟨x, hx, o, ho, hb⟩
    exact ⟨x, o, hx, ho, hb⟩
  · rintro ⟨x, o, hx, ho, hb⟩
    exact ⟨x, hx, o, ho, hb⟩

theorem jumpAt?_eq_some_iff {b : Body} {m : Mnemonic} {i : Nat} {l : Label} :
    b.jumpAt? m i = some l ↔ b.Jumps m.byte i l := by
  unfold jumpAt? Jumps
  constructor
  · intro h
    obtain ⟨x, hx, hj⟩ := Option.bind_eq_some_iff.mp h
    cases x with
    | jump o target =>
      rw [Instruction.jumpTarget?] at hj
      split at hj
      · next hs =>
        cases hj
        exact ⟨o, hx, of_decide_eq_true hs⟩
      · cases hj
    | _ => simp [Instruction.jumpTarget?] at hj
  · rintro ⟨o, hx, hb⟩
    have hs : o.same (.named m) = true := decide_eq_true hb
    simp [hx, Instruction.jumpTarget?, hs]

theorem Jumps.carries {b : Body} {byte : UInt8} {i : Nat} {l : Label} (h : b.Jumps byte i l) :
    b.Carries byte i := by
  obtain ⟨o, hx, hb⟩ := h
  exact ⟨_, o, hx, rfl, hb⟩

theorem Carries.lt_length {b : Body} {byte : UInt8} {i : Nat} (h : b.Carries byte i) :
    i < b.length := by
  obtain ⟨x, o, hx, -⟩ := h
  exact (List.getElem?_eq_some_iff.mp hx).1

theorem Jumps.lt_length {b : Body} {byte : UInt8} {i : Nat} {l : Label} (h : b.Jumps byte i l) :
    i < b.length :=
  h.carries.lt_length

/-- A position is a jump to one label. -/
theorem Jumps.label_unique {b : Body} {byte byte' : UInt8} {i : Nat} {l l' : Label}
    (h : b.Jumps byte i l) (h' : b.Jumps byte' i l') : l = l' := by
  obtain ⟨o, hx, -⟩ := h
  obtain ⟨o', hx', -⟩ := h'
  rw [hx] at hx'
  cases hx'
  rfl

/-- One position carries one byte. -/
theorem Carries.byte_unique {b : Body} {byte byte' : UInt8} {i : Nat} (h : b.Carries byte i)
    (h' : b.Carries byte' i) : byte = byte' := by
  obtain ⟨x, o, hx, ho, rfl⟩ := h
  obtain ⟨y, p, hy, hp, rfl⟩ := h'
  rw [hx] at hy
  cases hy
  rw [ho] at hp
  cases hp
  rfl

/-- The first executable instruction from a position on stands before all others. -/
theorem FirstReal.le_of_carries {b : Body} {byte : UInt8} {start i j : Nat}
    (h : b.FirstReal start i) (hj : start ≤ j) (hcarries : b.Carries byte j) : i ≤ j := by
  by_contra hlt
  obtain ⟨x, o, hx, ho, -⟩ := hcarries
  have hnone := h.2.2 j x hj (Nat.lt_of_not_le hlt) hx
  rw [ho] at hnone
  cases hnone

/-- A label is a marker, so no opcode stands where it is defined. -/
theorem FirstDefined.not_carries {b : Body} {l : Label} {i : Nat} (h : b.FirstDefined l i)
    (byte : UInt8) : ¬ b.Carries byte i := by
  rintro ⟨x, o, hx, ho, -⟩
  rw [h.1] at hx
  cases hx
  cases ho

theorem position?_eq_some_iff {b : Body} {l : Label} {i : Nat} :
    b.position? l = some i ↔ b.FirstDefined l i :=
  IndexedBody.position?_eq_some_iff

theorem position?_eq_some {b : Body} {l : Label} {i : Nat} (h : b.position? l = some i) :
    b[i]? = some (.label l) :=
  (position?_eq_some_iff.mp h).1

/-- The index places a label where a search through the body finds it. -/
theorem position?_eq_findIdx? (b : Body) (l : Label) :
    b.position? l = b.findIdx? (·.isLabel l) := by
  have hlabel : ∀ i (hi : i < b.length), b[i].isLabel l = true ↔ b[i]? = some (.label l) := by
    intro i hi
    rw [Instruction.isLabel_iff, List.getElem?_eq_getElem hi, Option.some_inj]
  ext i
  rw [position?_eq_some_iff, List.findIdx?_eq_some_iff_getElem]
  constructor
  · intro h
    have hi := h.lt_length
    refine ⟨hi, (hlabel i hi).mpr h.1, ?_⟩
    intro j hj hl
    exact h.2 j hj ((hlabel j (Nat.lt_trans hj hi)).mp hl)
  · rintro ⟨hi, hl, hbefore⟩
    refine ⟨(hlabel i hi).mp hl, ?_⟩
    intro j hj hjl
    exact hbefore j hj ((hlabel j (Nat.lt_trans hj hi)).mpr hjl)

/-- The labels that the body defines, in order. -/
def definedLabels (b : Body) : List Label :=
  b.filterMap Instruction.defines?

/-- The labels that the jumps and line numbers of the body refer to, in order. -/
def usedLabels (b : Body) : List Label :=
  b.filterMap Instruction.refersTo?

/-- No label is defined twice, and every label that is referred to is defined. -/
structure LabelsBound (b : Body) : Prop where
  once : b.definedLabels.Nodup
  defined : ∀ l ∈ b.usedLabels, l ∈ b.definedLabels

theorem not_labelsBound_iff {b : Body} :
    ¬ b.LabelsBound ↔ ¬ b.definedLabels.Nodup ∨ ∃ l ∈ b.usedLabels, l ∉ b.definedLabels := by
  have hiff : b.LabelsBound ↔ b.definedLabels.Nodup ∧ ∀ l ∈ b.usedLabels, l ∈ b.definedLabels :=
    ⟨fun h => ⟨h.once, h.defined⟩, fun h => ⟨h.1, h.2⟩⟩
  simp only [hiff, not_and_or, not_forall, exists_prop]

instance (b : Body) : Decidable b.LabelsBound :=
  decidable_of_iff
    (b.definedLabels.Nodup ∧ b.usedLabels.all (fun l => decide (l ∈ b.definedLabels)) = true)
    ⟨fun ⟨once, defined⟩ => ⟨once, by simpa using defined⟩,
      fun ⟨once, defined⟩ => ⟨once, by simpa using defined⟩⟩

theorem mem_definedLabels {b : Body} {l : Label} : l ∈ b.definedLabels ↔ .label l ∈ b := by
  rw [definedLabels, List.mem_filterMap]
  constructor
  · rintro ⟨x, hx, hl⟩
    rw [← Instruction.isLabel_iff.mp (decide_eq_true hl)]
    exact hx
  · intro h
    exact ⟨_, h, rfl⟩

theorem position?_eq_none_iff {b : Body} {l : Label} :
    b.position? l = none ↔ l ∉ b.definedLabels := by
  rw [mem_definedLabels]
  exact IndexedBody.position?_eq_none_iff

theorem isSome_position?_iff {b : Body} {l : Label} :
    (b.position? l).isSome = true ↔ l ∈ b.definedLabels := by
  rw [← not_iff_not, ← position?_eq_none_iff, Option.not_isSome_iff_eq_none]

theorem mem_undefinedLabels_iff {b : Body} {l : Label} :
    l ∈ b.undefinedLabels ↔ l ∈ b.usedLabels ∧ l ∉ b.definedLabels := by
  rw [mem_definedLabels]
  exact IndexedBody.mem_undefinedLabels

theorem undefinedLabels_eq_nil_iff {b : Body} :
    b.undefinedLabels = [] ↔ ∀ l ∈ b.usedLabels, l ∈ b.definedLabels := by
  rw [List.eq_nil_iff_forall_not_mem]
  simp only [mem_undefinedLabels_iff, not_and, not_not]

theorem undefinedLabels_pairwise (b : Body) : b.undefinedLabels.Pairwise (· < ·) :=
  IndexedBody.undefinedLabels_pairwise b

/-- The first of the undefined labels is the least label that is referred to and not defined. -/
theorem head?_undefinedLabels_eq_some_iff {b : Body} {l : Label} :
    b.undefinedLabels.head? = some l ↔
      (l ∈ b.usedLabels ∧ l ∉ b.definedLabels) ∧
        ∀ k ∈ b.usedLabels, k ∉ b.definedLabels → l ≤ k := by
  rw [head?_eq_some_iff_of_pairwise (fun _ _ => UInt32.lt_asymm) (undefinedLabels_pairwise b)]
  simp only [mem_undefinedLabels_iff, UInt32.not_lt, and_imp]

theorem mem_realFrom {b : Body} {start i : Nat} :
    i ∈ b.realFrom start ↔ start ≤ i ∧ ∃ x, b[i]? = some x ∧ x.isReal = true := by
  rw [realFrom, List.mem_map]
  constructor
  · rintro ⟨⟨x, j⟩, hmem, rfl⟩
    obtain ⟨hle, hx⟩ := IndexedBody.mem_realFrom.mp hmem
    exact ⟨hle, x, hx⟩
  · rintro ⟨hle, x, hx⟩
    exact ⟨(x, i), IndexedBody.mem_realFrom.mpr ⟨hle, hx⟩, rfl⟩

theorem realFrom_pairwise (b : Body) (start : Nat) : (b.realFrom start).Pairwise (· < ·) :=
  (IndexedBody.realFrom_pairwise b start).map _ fun _ _ h => h

/-- The executable positions, picked from all positions of the body. -/
theorem realFrom_eq_filter (b : Body) (start : Nat) :
    b.realFrom start =
      (List.range b.length).filter fun i => start ≤ i && b[i]?.any Instruction.isReal := by
  refine (realFrom_pairwise b start).eq_of_mem_iff (List.pairwise_lt_range.filter _) ?_
  intro i
  rw [mem_realFrom, List.mem_filter, List.mem_range, Bool.and_eq_true, decide_eq_true_eq,
    Option.any_eq_true]
  constructor
  · rintro ⟨hle, x, hx, hr⟩
    exact ⟨(List.getElem?_eq_some_iff.mp hx).1, hle, x, hx, hr⟩
  · rintro ⟨-, hle, hx⟩
    exact ⟨hle, hx⟩

theorem firstReal?_eq_head? (b : Body) (start : Nat) :
    b.firstReal? start = (b.realFrom start).head? :=
  List.head?_map.symm

theorem firstReal?_eq_some_iff {b : Body} {start i : Nat} :
    b.firstReal? start = some i ↔ b.FirstReal start i := by
  have hreal : ∀ x : Instruction, x.isReal = true ↔ ∃ o, x.opcode? = some o := fun x =>
    Option.isSome_iff_exists
  rw [firstReal?, Option.map_eq_some_iff]
  constructor
  · rintro ⟨⟨x, _⟩, hfirst, rfl⟩
    obtain ⟨hmem, hleast⟩ := IndexedBody.firstReal?_eq_some_iff.mp hfirst
    obtain ⟨hs, hx, hr⟩ := IndexedBody.mem_realFrom.mp hmem
    obtain ⟨o, ho⟩ := (hreal x).mp hr
    refine ⟨hs, ⟨x, o, hx, ho⟩, ?_⟩
    intro j y hj hji hy
    by_contra hne
    have hyr : y.isReal = true := (hreal y).mpr (Option.ne_none_iff_exists'.mp hne)
    have hle := hleast (y, j) (IndexedBody.mem_realFrom.mpr ⟨hj, hy, hyr⟩)
    exact absurd hji (Nat.not_lt.mpr hle)
  · rintro ⟨hs, ⟨x, o, hx, ho⟩, hbefore⟩
    refine ⟨(x, i), IndexedBody.firstReal?_eq_some_iff.mpr ⟨?_, ?_⟩, rfl⟩
    · exact IndexedBody.mem_realFrom.mpr ⟨hs, hx, (hreal x).mpr ⟨o, ho⟩⟩
    · rintro ⟨y, j⟩ hmem
      obtain ⟨hj, hy, hyr⟩ := IndexedBody.mem_realFrom.mp hmem
      -- a real instruction before `i` would carry an opcode
      by_contra hji
      obtain ⟨p, hp⟩ := (hreal y).mp hyr
      rw [hbefore j y hj (Nat.lt_of_not_le hji) hy] at hp
      cases hp

/-! ## All searches together -/

/-- The label is the target of a jump, or a line number starts at it. -/
theorem mem_usedLabels {b : Body} {l : Label} :
    l ∈ b.usedLabels ↔ (∃ o, .jump o l ∈ b) ∨ ∃ line, .lineNumber line l ∈ b := by
  rw [usedLabels, List.mem_filterMap]
  constructor
  · rintro ⟨x, hx, hl⟩
    cases x with
    | jump o target =>
      cases hl
      exact .inl ⟨o, hx⟩
    | lineNumber line start =>
      cases hl
      exact .inr ⟨line, hx⟩
    | _ => cases hl
  · rintro (⟨o, hx⟩ | ⟨line, hx⟩)
    · exact ⟨_, hx, rfl⟩
    · exact ⟨_, hx, rfl⟩

/-- Whatever the body holds, its index places a label where it is defined first; the undefined
labels are those that are referred to and defined nowhere, each once and in increasing order; and
from every position on, beyond the end too, the executable instructions are listed with their
positions in increasing order. The first of them is the one at the least position, and there is none
only if no executable instruction follows. -/
theorem searches_exact (b : Body) :
    (∀ l i, b.indexed.position? l = some i ↔
        b[i]? = some (.label l) ∧ ∀ j < i, b[j]? ≠ some (.label l)) ∧
      (b.indexed.undefinedLabels.Pairwise (· < ·) ∧
        ∀ l, l ∈ b.indexed.undefinedLabels ↔
          ((∃ o, .jump o l ∈ b) ∨ ∃ line, .lineNumber line l ∈ b) ∧ .label l ∉ b) ∧
      ∀ start,
        ((b.indexed.realFrom start).Pairwise (·.2 < ·.2) ∧
          ∀ x i, (x, i) ∈ b.indexed.realFrom start ↔
            start ≤ i ∧ b[i]? = some x ∧ ∃ o, x.opcode? = some o) ∧
        (∀ x i, b.indexed.firstReal? start = some (x, i) ↔
          (x, i) ∈ b.indexed.realFrom start ∧ ∀ p ∈ b.indexed.realFrom start, i ≤ p.2) ∧
        (b.indexed.firstReal? start = none ↔
          ∀ i x, start ≤ i → b[i]? = some x → x.opcode? = none) := by
  refine ⟨fun l i => IndexedBody.position?_eq_some_iff,
    ⟨IndexedBody.undefinedLabels_pairwise b, fun l => ?_⟩,
    fun start => ⟨⟨IndexedBody.realFrom_pairwise b start, fun x i => ?_⟩,
      fun x i => IndexedBody.firstReal?_eq_some_iff, ?_⟩⟩
  · rw [← mem_usedLabels]
    exact IndexedBody.mem_undefinedLabels
  · rw [IndexedBody.mem_realFrom, Instruction.isReal, Option.isSome_iff_exists]
  · rw [IndexedBody.firstReal?_eq_none_iff, List.eq_nil_iff_forall_not_mem]
    simp only [Prod.forall, IndexedBody.mem_realFrom, not_and, Instruction.isReal,
      Bool.not_eq_true, Option.isSome_eq_false_iff, Option.isNone_iff_eq_none]
    exact forall_comm

end ComposeGuards.Body
