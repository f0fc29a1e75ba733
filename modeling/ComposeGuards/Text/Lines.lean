/-! # Lines

A line ends at a line feed, and one carriage return directly before that line feed belongs to the
line ending. What follows the last line feed is a line only if it is not empty, and there a
carriage return is an ordinary character.
-/
namespace ComposeGuards.Text

def lines : List Char → List (List Char)
  | [] => []
  | '\n' :: cs => [] :: lines cs
  | '\r' :: '\n' :: cs => [] :: lines cs
  | c :: cs =>
    match lines cs with
    | [] => [[c]]
    | line :: rest => (c :: line) :: rest

/-- Every line followed by a line feed. -/
def unlines (ls : List String) : String :=
  String.join (ls.map (· ++ "\n"))

theorem lines_eq_nil_iff {cs : List Char} : lines cs = [] ↔ cs = [] := by
  constructor
  · intro h
    unfold lines at h
    split at h
    · rfl
    · cases h
    · cases h
    · split at h <;> cases h
  · rintro rfl
    rfl

end ComposeGuards.Text
