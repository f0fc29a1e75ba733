import ComposeGuards.Json.Cursor

/-! # JSON numbers

A number is an optional minus sign, an integer part without needless leading zeros, an optional
fraction and an optional exponent. Integers that fit 64 bits stay integers; minus zero and all other
numbers become doubles. The digits of a double are collected into a 64-bit significand as long as
they fit, and further digits only move the decimal point.
-/
namespace ComposeGuards.Json

/-- The largest significand. -/
def maxSignificand : Nat := UInt64.size - 1

/-- The largest exponent that is told from an infinite one. -/
def maxExponent : Nat := UInt32.size / 2 - 1

def digitValue (c : Char) : Nat :=
  c.toNat - '0'.toNat

def negateIf (negative : Bool) (x : Float) : Float :=
  if negative then -x else x

def powerOfTen (n : Nat) : Float :=
  Float.ofScientific 1 false n

/-- Divides by powers of ten until the exponent is in the range of one power. -/
def scaleDown (x : Float) (exponent : Nat) : Float :=
  if exponent ≤ 308 then x / powerOfTen exponent
  else if x == 0 then x
  else scaleDown (x / powerOfTen 308) (exponent - 308)
termination_by exponent

/-- The double with the given significand and decimal exponent, unless it is too large. -/
def double (negative : Bool) (significand : Nat) (exponent : Int) : Except Fault Float :=
  let x := Float.ofNat significand
  if exponent < 0 then .ok (negateIf negative (scaleDown x (-exponent).toNat))
  else if exponent ≤ 308 then
    let y := x * powerOfTen exponent.toNat
    if y.isInf then .error .malformed else .ok (negateIf negative y)
  else if x == 0 then .ok (negateIf negative x)
  else .error .malformed

/-- Collects digits while the significand fits; returns it with the number of digits taken. -/
def collect (significand taken : Nat) : List Char → Nat × Nat × List Char
  | [] => (significand, taken, [])
  | c :: cs =>
    if c.isDigit then
      let next := significand * 10 + digitValue c
      if next ≤ maxSignificand then collect next (taken + 1) cs else (significand, taken, c :: cs)
    else (significand, taken, c :: cs)

/-- Reads the digits of an exponent; `none` stands for one beyond `maxExponent`. -/
def exponentValue? (value : Nat) : List Char → Option Nat
  | [] => some value
  | c :: cs =>
    let next := value * 10 + digitValue c
    if next ≤ maxExponent then exponentValue? next cs else none

/-- Splits the sign off an exponent. -/
def exponentSign : List Char → Bool × List Char
  | '+' :: cs => (false, cs)
  | '-' :: cs => (true, cs)
  | cs => (false, cs)

/-- Reads an exponent whose letter is already read. -/
def readExponent (negative : Bool) (significand : Nat) (exponent : Int) (cs : List Char) :
    Result Number :=
  let (below, cs) := exponentSign cs
  match cs with
  | [] => .error .cutOff
  | c :: rest =>
    if c.isDigit then
      let digits := (c :: rest).takeWhile Char.isDigit
      let rest := (c :: rest).dropWhile Char.isDigit
      match exponentValue? 0 digits with
      | some e =>
        match double negative significand (if below then exponent - e else exponent + e) with
        | .ok x => .ok (.real x, rest)
        | .error f => .error f
      | none =>
        if significand ≠ 0 && !below then .error .malformed
        else .ok (.real (negateIf negative 0), rest)
    else .error .malformed

/-- Ends a double, or goes on with its exponent. -/
def readScale (negative : Bool) (significand : Nat) (exponent : Int) (cs : List Char) :
    Result Number :=
  match cs with
  | 'e' :: cs | 'E' :: cs => readExponent negative significand exponent cs
  | cs =>
    match double negative significand exponent with
    | .ok x => .ok (.real x, cs)
    | .error f => .error f

/-- Reads a fraction whose point is already read. -/
def readFraction (negative : Bool) (significand : Nat) (exponent : Int) (cs : List Char) :
    Result Number :=
  match cs with
  | [] => .error .cutOff
  | c :: _ =>
    if c.isDigit then
      let (significand, taken, rest) := collect significand 0 cs
      readScale negative significand (exponent - taken) (rest.dropWhile Char.isDigit)
    else .error .malformed

/-- An integer of at most 64 bits; minus zero and integers below `-2^63` become doubles. -/
def integer (negative : Bool) (significand : Nat) : Number :=
  if !negative then .natural significand
  else if 0 < significand && significand ≤ UInt64.size / 2 then .negative (-(significand : Int))
  else .real (-(Float.ofNat significand))

/-- Goes on after the integer part, `dropped` digits of which did not fit the significand. -/
def readTail (negative : Bool) (significand dropped : Nat) (cs : List Char) : Result Number :=
  match cs with
  | '.' :: cs => readFraction negative significand dropped cs
  | cs@('e' :: _) | cs@('E' :: _) => readScale negative significand dropped cs
  | cs =>
    if dropped = 0 then .ok (integer negative significand, cs)
    else readScale negative significand dropped cs

/-- Reads a number without its sign. -/
def readMagnitude (negative : Bool) : List Char → Result Number
  | [] => .error .cutOff
  | '0' :: cs =>
    match cs with
    | c :: _ => if c.isDigit then .error .malformed else readTail negative 0 0 cs
    | [] => readTail negative 0 0 cs
  | c :: cs =>
    if c.isDigit then
      let (significand, _, rest) := collect 0 0 (c :: cs)
      let more := rest.takeWhile Char.isDigit
      readTail negative significand more.length (rest.dropWhile Char.isDigit)
    else .error .malformed

/-- Reads a number from its first character on. -/
def readNumber : List Char → Result Number
  | '-' :: cs => readMagnitude true cs
  | cs => readMagnitude false cs

/-- Passes over digits, of which there must be one. -/
def skipDigits : List Char → Except Fault (List Char)
  | [] => .error .malformed
  | c :: cs => if c.isDigit then .ok (cs.dropWhile Char.isDigit) else .error .malformed

def skipExponent : List Char → Except Fault (List Char)
  | 'e' :: cs | 'E' :: cs => skipDigits (exponentSign cs).2
  | cs => .ok cs

def skipFraction : List Char → Except Fault (List Char)
  | '.' :: cs => skipDigits cs
  | cs => .ok cs

def skipInteger : List Char → Except Fault (List Char)
  | '0' :: cs =>
    match cs with
    | c :: _ => if c.isDigit then .error .malformed else .ok cs
    | [] => .ok cs
  | cs => skipDigits cs

/-- Passes over a number without its sign. A number that is only passed over may be of any size, and
one that ends too early is malformed. -/
def skipMagnitude (cs : List Char) : Except Fault (List Char) := do
  skipExponent (← skipFraction (← skipInteger cs))

end ComposeGuards.Json
