import ComposeGuards.Bytecode.Instruction

/-! # Indexed instructions

The instructions of a body beside an index of their labels. One pass fills the index: a label is
entered where it is met, and a label that is entered already stays where it is. Labels are looked up
in the index alone. The searches for executable instructions go over the numbered instructions.
-/
namespace ComposeGuards

/-- Labels with their positions. -/
abbrev LabelIndex := List (Label × Nat)

namespace LabelIndex

/-- Enters a label at a position unless it has an entry. -/
def enter (index : LabelIndex) (l : Label) (i : Nat) : LabelIndex :=
  match index.lookup l with
  | some _ => index
  | none => (l, i) :: index

/-- What the pass does at one numbered instruction. -/
def visit (index : LabelIndex) : Instruction × Nat → LabelIndex
  | (.label l, i) => index.enter l i
  | _ => index

/-- The index of the labels that the instructions define. -/
def ofInstructions (is : List Instruction) : LabelIndex :=
  is.zipIdx.foldl visit []

end LabelIndex

namespace Label

/-- Puts a label before the first that is not less. -/
def insertSorted (l : Label) : List Label → List Label
  | [] => [l]
  | k :: ks => if k < l then k :: insertSorted l ks else l :: k :: ks

/-- The labels in increasing order, repeated ones beside each other. -/
def sort (ls : List Label) : List Label :=
  ls.foldr insertSorted []

end Label

structure IndexedBody where
  instructions : List Instruction
  labels : LabelIndex

namespace IndexedBody

def ofInstructions (is : List Instruction) : IndexedBody :=
  ⟨is, .ofInstructions is⟩

/-- Where the index places the label. -/
def position? (b : IndexedBody) (l : Label) : Option Nat :=
  b.labels.lookup l

/-- The executable instructions from position `start` on, each with its position. -/
def realFrom (b : IndexedBody) (start : Nat) : List (Instruction × Nat) :=
  (b.instructions.zipIdx.drop start).filter fun p => p.1.isReal

/-- The first executable instruction from position `start` on, with its position. -/
def firstReal? (b : IndexedBody) (start : Nat) : Option (Instruction × Nat) :=
  (b.realFrom start).head?

/-- The labels that are referred to and have no entry, increasing and without repetition. -/
def undefinedLabels (b : IndexedBody) : List Label :=
  let missing := (b.instructions.filterMap Instruction.refersTo?).filter fun l =>
    (b.labels.lookup l).isNone
  (Label.sort missing).eraseReps

end IndexedBody
end ComposeGuards
