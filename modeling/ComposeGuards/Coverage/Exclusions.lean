import ComposeGuards.Log

/-! # Excluded spans

A span is an inclusive range of positions in a method body. Exclusions keep the reported spans in
the order of their reports and merge nothing; together they exclude the positions that lie in at
least one span. A span whose first position lies after its last holds nothing.
-/
namespace ComposeGuards

structure Span where
  first : Nat
  last : Nat
  deriving DecidableEq, Repr

def positionText (i : Nat) : String :=
  "#" ++ toString i

namespace Span

def contains (s : Span) (i : Nat) : Bool :=
  s.first ≤ i && i ≤ s.last

def text (s : Span) : String :=
  positionText s.first ++ "..=" ++ positionText s.last

/-- Sets the positions of the span in a mask, as far as the mask reaches. -/
def paint (mask : List Bool) (s : Span) : List Bool :=
  let stop := min (s.last + 1) mask.length
  if s.first < stop then
    mask.take s.first ++ List.replicate (stop - s.first) true ++ mask.drop stop
  else mask

@[simp] theorem length_paint (mask : List Bool) (s : Span) :
    (paint mask s).length = mask.length := by
  simp only [paint]
  split
  · simp only [List.length_append, List.length_take, List.length_replicate, List.length_drop]
    omega
  · rfl

end Span

structure Exclusions where
  spans : List Span := []
  deriving DecidableEq, Repr

namespace Exclusions

def ignore (e : Exclusions) (s : Span) : Exclusions :=
  ⟨e.spans ++ [s]⟩

def ignoreAll (e : Exclusions) (ss : List Span) : Exclusions :=
  ss.foldl ignore e

/-- The message of one report. -/
def ignoreMessage (s : Span) : Log.Message :=
  ⟨.trace, "ignore " ++ s.text⟩

def isEmpty (e : Exclusions) : Bool :=
  e.spans.isEmpty

def isIgnored (e : Exclusions) (i : Nat) : Bool :=
  e.spans.any (·.contains i)

/-- One flag per position of a body of the given length, set where some span holds the position. -/
def mask (e : Exclusions) (length : Nat) : List Bool :=
  e.spans.foldl Span.paint (List.replicate length false)

/-- How many positions of a body of the given length are excluded. -/
def count (e : Exclusions) (length : Nat) : Nat :=
  (e.mask length).count true

theorem ignoreAll_spans (e : Exclusions) (ss : List Span) :
    (e.ignoreAll ss).spans = e.spans ++ ss := by
  induction ss generalizing e with
  | nil => simp [ignoreAll]
  | cons s ss ih => simpa [ignoreAll, ignore] using ih (e.ignore s)

theorem length_mask (e : Exclusions) (length : Nat) : (e.mask length).length = length := by
  have h : ∀ (ss : List Span) (m : List Bool), (ss.foldl Span.paint m).length = m.length := by
    intro ss
    induction ss with
    | nil => simp
    | cons s ss ih => intro m; simp [ih]
  simp [mask, h]

end Exclusions
end ComposeGuards
