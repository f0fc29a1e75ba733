import ComposeGuards.Json.Skip

/-! # Readers of expected shapes

Each reader names what it expects and reports what it finds instead.
-/
namespace ComposeGuards.Json

/-- The fault of a value that has another type than expected. The value's first piece is read, and a
fault in it comes first. -/
def wrongType (expected : String) (cs : List Char) : Fault :=
  let report (found : Found) : Fault := .mismatch (.wrongType found expected)
  let word (ws : String) (cs : List Char) (found : Found) : Fault :=
    match readWord ws.toList cs with
    | .ok _ => report found
    | .error e => e
  let number (r : Result Number) : Fault :=
    match r with
    | .ok (n, _) => report (.number n)
    | .error e => e
  match cs with
  | 'n' :: cs => word "ull" cs .null
  | 't' :: cs => word "rue" cs (.boolean true)
  | 'f' :: cs => word "alse" cs (.boolean false)
  | '"' :: cs =>
    match readText cs with
    | .ok (s, _) => report (.text s)
    | .error e => e
  | '[' :: _ => report .sequence
  | '\x7b' :: _ => report .map
  | '-' :: _ => number (readNumber cs)
  | c :: _ => if c.isDigit then number (readNumber cs) else .malformed
  | [] => .cutOff

/-- Reads a truth value. -/
def readBool (cs : List Char) : Result Bool :=
  match skipBlank cs with
  | [] => .error .cutOff
  | 't' :: cs => (readWord "rue".toList cs).map fun rest => (true, rest)
  | 'f' :: cs => (readWord "alse".toList cs).map fun rest => (false, rest)
  | cs => .error (wrongType "a boolean" cs)

/-- Reads the null value, the only one of the type without information. -/
def readUnit (cs : List Char) : Except Fault (List Char) :=
  match skipBlank cs with
  | [] => .error .cutOff
  | 'n' :: cs => readWord "ull".toList cs
  | cs => .error (wrongType "unit" cs)

/-- Accepts a natural number below the bound. -/
def acceptNatural (bound : Nat) (expected : String) : Number → Except Fault Nat
  | .natural n =>
    if n < bound then .ok n else .error (.mismatch (.wrongValue n expected))
  | .negative i => .error (.mismatch (.wrongValue i expected))
  | .real x => .error (.mismatch (.wrongType (.number (.real x)) expected))

/-- Reads a natural number below the bound. -/
def readNatural (bound : Nat) (expected : String) (cs : List Char) : Result Nat :=
  let read (cs : List Char) : Except Fault (Nat × List Char) := do
    let (number, rest) ← readNumber cs
    return (← acceptNatural bound expected number, rest)
  match skipBlank cs with
  | [] => .error .cutOff
  | '-' :: cs => read ('-' :: cs)
  | c :: cs => if c.isDigit then read (c :: cs) else .error (wrongType expected (c :: cs))

/-- Reads the key of the next member, or passes over the end of the object. -/
def readKey? (isFirst : Bool) (cs : List Char) : Result (Option String) :=
  let key (cs : List Char) : Result (Option String) :=
    match cs with
    | [] => .error .cutOff
    | '"' :: cs =>
      match readText cs with
      | .ok (s, rest) => .ok (some s, rest)
      | .error e => .error e
    | _ => .error .malformed
  match skipBlank cs with
  | [] => .error .cutOff
  | '\x7d' :: cs => .ok (none, cs)
  | c :: cs =>
    if isFirst then key (c :: cs)
    else if c = ',' then key (skipBlank cs)
    else .error .malformed

/-- Goes to the next element of an array; `none` at the end, which is not passed over. -/
def nextElement? (isFirst : Bool) (cs : List Char) : Except Fault (Option (List Char)) :=
  match skipBlank cs with
  | [] => .error .cutOff
  | ']' :: _ => .ok none
  | c :: cs =>
    if isFirst then .ok (some (c :: cs))
    else if c = ',' then
      match skipBlank cs with
      | [] => .error .cutOff
      | ']' :: _ => .error .malformed
      | cs => .ok (some cs)
    else .error .malformed

/-- Reads a whole text that holds one value. -/
def readDocument {α : Type} (read : List Char → Result α) (text : String) : Except Fault α := do
  let (a, rest) ← read text.toList
  readEnd rest
  return a

end ComposeGuards.Json
