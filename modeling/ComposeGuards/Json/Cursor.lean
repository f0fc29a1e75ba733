import ComposeGuards.Json.Fault

/-! # Moving through a JSON text

A reader takes the rest of the text and returns a value with what it left, or a fault. Readers that
repeat a step do so through `iterate`, which runs as long as each step uses up some of the text.
-/
namespace ComposeGuards.Json

abbrev Result (α : Type) := Except Fault (α × List Char)

def isBlank (c : Char) : Bool :=
  c = ' ' || c = '\n' || c = '\t' || c = '\r'

def skipBlank (cs : List Char) : List Char :=
  cs.dropWhile isBlank

/-- Reads exactly the given characters. -/
def readWord : List Char → List Char → Except Fault (List Char)
  | [], cs => .ok cs
  | _ :: _, [] => .error .cutOff
  | w :: ws, c :: cs => if w = c then readWord ws cs else .error .malformed

/-- Reads one character after blanks. -/
def readMark (mark : Char) (cs : List Char) : Except Fault (List Char) :=
  match skipBlank cs with
  | [] => .error .cutOff
  | c :: cs => if c = mark then .ok cs else .error .malformed

/-- Accepts the end of the text after blanks. -/
def readEnd (cs : List Char) : Except Fault Unit :=
  if (skipBlank cs).isEmpty then .ok () else .error .malformed

/-- Repeats a step, which either goes on with a new state or returns a value. A step that goes on
must use up some of the text. -/
def iterate {σ α : Type} (step : σ → List Char → Result (σ ⊕ α)) (s : σ) (cs : List Char) :
    Result α :=
  match step s cs with
  | .error e => .error e
  | .ok (.inr a, rest) => .ok (a, rest)
  | .ok (.inl s, rest) =>
    if rest.length < cs.length then iterate step s rest else .error .malformed
termination_by cs.length

theorem iterate_done {σ α : Type} {step : σ → List Char → Result (σ ⊕ α)} {s : σ}
    {cs rest : List Char} {a : α} (h : step s cs = .ok (.inr a, rest)) :
    iterate step s cs = .ok (a, rest) := by
  rw [iterate, h]

theorem iterate_step {σ α : Type} {step : σ → List Char → Result (σ ⊕ α)} {s t : σ}
    {cs rest : List Char} (h : step s cs = .ok (.inl t, rest)) (hr : rest.length < cs.length) :
    iterate step s cs = iterate step t rest := by
  rw [iterate, h]
  simp [hr]

theorem readWord_append (ws cs : List Char) : readWord ws (ws ++ cs) = .ok cs := by
  induction ws with
  | nil => rfl
  | cons w ws ih => simpa [readWord] using ih

end ComposeGuards.Json
