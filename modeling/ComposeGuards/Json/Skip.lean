import ComposeGuards.Json.Literal
import ComposeGuards.Json.Numeral

/-! # Passing over a JSON value

A value whose content does not matter is passed over piece by piece. The only thing to remember is
which brackets are open, so values may be nested to any depth.
-/
namespace ComposeGuards.Json

inductive Bracket
  | array | object
  deriving DecidableEq, Repr

/-- What comes next: a value; the first element or the end of the innermost bracket; or, after an
element, a comma or that end. -/
inductive Expect
  | value | start | next
  deriving DecidableEq, Repr

/-- What is expected and the open brackets, innermost first. -/
abbrev SkipState := Expect × List Bracket

abbrev SkipResult := Result (SkipState ⊕ Unit)

/-- Goes on after a complete value. -/
def afterValue (opened : List Bracket) (rest : List Char) : SkipResult :=
  match opened with
  | [] => .ok (.inr (), rest)
  | _ :: _ => .ok (.inl (.next, opened), rest)

/-- Goes on after a scalar, once it is passed over. -/
def afterScalar (opened : List Bracket) : Except Fault (List Char) → SkipResult
  | .ok rest => afterValue opened rest
  | .error e => .error e

/-- Passes over a scalar, or opens a bracket. -/
def skipHead (opened : List Bracket) : List Char → SkipResult
  | [] => .error .cutOff
  | 'n' :: cs => afterScalar opened (readWord "ull".toList cs)
  | 't' :: cs => afterScalar opened (readWord "rue".toList cs)
  | 'f' :: cs => afterScalar opened (readWord "alse".toList cs)
  | '"' :: cs => afterScalar opened (skipText cs)
  | '[' :: cs => .ok (.inl (.start, .array :: opened), cs)
  | '\x7b' :: cs => .ok (.inl (.start, .object :: opened), cs)
  | '-' :: cs => afterScalar opened (skipMagnitude cs)
  | c :: cs => if c.isDigit then afterScalar opened (skipMagnitude (c :: cs)) else .error .malformed

/-- Passes over a key and its colon. -/
def skipKey (opened : List Bracket) : List Char → SkipResult
  | [] => .error .cutOff
  | '"' :: cs =>
    match skipText cs with
    | .error e => .error e
    | .ok cs =>
      match readMark ':' cs with
      | .error e => .error e
      | .ok cs => .ok (.inl (.value, opened), cs)
  | _ => .error .malformed

/-- Passes over what one element of the innermost bracket starts with. -/
def skipElement (b : Bracket) (opened : List Bracket) (cs : List Char) : SkipResult :=
  match b with
  | .array => skipHead opened cs
  | .object => skipKey opened cs

def Bracket.closing : Bracket → Char
  | array => ']'
  | object => '\x7d'

/-- One piece of the value. -/
def skipStep (s : SkipState) (cs : List Char) : SkipResult :=
  match s, skipBlank cs with
  | _, [] => .error .cutOff
  | (.value, opened), cs => skipHead opened cs
  | (_, []), _ => .error .malformed
  | (.start, b :: opened), c :: cs =>
    if c = b.closing then afterValue opened cs else skipElement b (b :: opened) (c :: cs)
  | (.next, b :: opened), c :: cs =>
    if c = b.closing then afterValue opened cs
    else if c = ',' then skipElement b (b :: opened) (skipBlank cs)
    else .error .malformed

/-- Passes over one value. -/
def skipValue (cs : List Char) : Except Fault (List Char) :=
  match iterate skipStep (.value, []) cs with
  | .ok (_, rest) => .ok rest
  | .error e => .error e

end ComposeGuards.Json
