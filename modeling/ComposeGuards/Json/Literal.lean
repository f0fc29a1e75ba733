import ComposeGuards.Json.Cursor

/-! # JSON strings

A string holds no control characters below the space and has the escapes of the format. Where its
text is used, `\u` escapes of surrogates must form pairs; a string that is only passed over may hold
any of them.
-/
namespace ComposeGuards.Json

/-- The character that a one-letter escape stands for. -/
def unescape? : Char → Option Char
  | '"' => some '"'
  | '\\' => some '\\'
  | '/' => some '/'
  | 'b' => some '\x08'
  | 'f' => some '\x0c'
  | 'n' => some '\n'
  | 'r' => some '\r'
  | 't' => some '\t'
  | _ => none

def hexDigit? (c : Char) : Option Nat :=
  if '0' ≤ c ∧ c ≤ '9' then some (c.toNat - '0'.toNat)
  else if 'a' ≤ c ∧ c ≤ 'f' then some (c.toNat - 'a'.toNat + 10)
  else if 'A' ≤ c ∧ c ≤ 'F' then some (c.toNat - 'A'.toNat + 10)
  else none

def hexQuad? (a b c d : Char) : Option Nat := do
  let a ← hexDigit? a
  let b ← hexDigit? b
  let c ← hexDigit? c
  let d ← hexDigit? d
  return ((a * 16 + b) * 16 + c) * 16 + d

def isHighSurrogate (n : Nat) : Bool :=
  0xd800 ≤ n && n ≤ 0xdbff

def isLowSurrogate (n : Nat) : Bool :=
  0xdc00 ≤ n && n ≤ 0xdfff

/-- The character that a pair of surrogates encodes. -/
def pairedChar (high low : Nat) : Char :=
  Char.ofNat (0x10000 + (high - 0xd800) * 0x400 + (low - 0xdc00))

/-- Bytes of a text in UTF-8. -/
def byteCount (cs : List Char) : Nat :=
  (String.ofList cs).utf8ByteSize

/-- The fault of a `\u` escape without four digits: the text ends within four bytes or the digits
are wrong. -/
def escapeFault (cs : List Char) : Fault :=
  if byteCount cs < 4 then .cutOff else .malformed

/-- The fault of a high surrogate that no low one follows. -/
def pairFault : List Char → Fault
  | [] => .cutOff
  | ['\\'] => .cutOff
  | '\\' :: 'u' :: cs => escapeFault cs
  | _ => .malformed

/-- Puts a character before the text of a result. -/
def prepend (c : Char) : Result (List Char) → Result (List Char)
  | .ok (text, rest) => .ok (c :: text, rest)
  | .error e => .error e

/-- Reads a string whose opening quote is already read. -/
def readChars : List Char → Result (List Char)
  | [] => .error .cutOff
  | '"' :: cs => .ok ([], cs)
  | ['\\'] => .error .cutOff
  | '\\' :: 'u' :: a :: b :: c :: d :: cs =>
    match hexQuad? a b c d with
    | none => .error .malformed
    | some n =>
      if isLowSurrogate n then .error .malformed
      else if isHighSurrogate n then
        match cs with
        | '\\' :: 'u' :: e :: f :: g :: h :: cs =>
          match hexQuad? e f g h with
          | none => .error .malformed
          | some m =>
            if isLowSurrogate m then prepend (pairedChar n m) (readChars cs)
            else .error .malformed
        | cs => .error (pairFault cs)
      else prepend (Char.ofNat n) (readChars cs)
  | '\\' :: 'u' :: cs => .error (escapeFault cs)
  | '\\' :: c :: cs =>
    match unescape? c with
    | some d => prepend d (readChars cs)
    | none => .error .malformed
  | c :: cs => if c < ' ' then .error .malformed else prepend c (readChars cs)

/-- Reads a string whose opening quote is already read. -/
def readText (cs : List Char) : Result String :=
  match readChars cs with
  | .ok (text, rest) => .ok (String.ofList text, rest)
  | .error e => .error e

/-- Passes over a string whose opening quote is already read. -/
def skipText : List Char → Except Fault (List Char)
  | [] => .error .cutOff
  | '"' :: cs => .ok cs
  | ['\\'] => .error .cutOff
  | '\\' :: 'u' :: a :: b :: c :: d :: cs =>
    if (hexQuad? a b c d).isSome then skipText cs else .error .malformed
  | '\\' :: 'u' :: cs => .error (escapeFault cs)
  | '\\' :: c :: cs => if (unescape? c).isSome then skipText cs else .error .malformed
  | c :: cs => if c < ' ' then .error .malformed else skipText cs

end ComposeGuards.Json
