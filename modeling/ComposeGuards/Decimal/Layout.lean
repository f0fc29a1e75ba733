import ComposeGuards.Decimal.Shortest

/-! # Text of doubles

A double is written with its shortest decimal. The text is positional, and then always holds a
point, while the exponent is in the range of the format; otherwise it has one digit before the point
and an exponent with its sign.
-/
namespace ComposeGuards.Decimal

/-- Where positional notation ends, and how an exponent looks: `places` is the most digits before
the point, fewer than `leadingZeros` zeros may stand between the point and the first digit, and
`plusSign` says whether a positive exponent shows its sign. -/
structure Format where
  leadingZeros : Nat
  places : Nat
  plusSign : Bool

/-- Doubles have up to sixteen digits before the point, up to four zeros after it, and signed
exponents. -/
def doubleFormat : Format := ⟨5, 16, true⟩

def zeros (n : Nat) : String :=
  String.ofList (List.replicate n '0')

/-- An exponent after the letter that announces it. -/
def Format.renderExponent (f : Format) (exponent : Int) : String :=
  (if f.plusSign && 0 ≤ exponent then "e+" else "e") ++ toString exponent

def Format.render (f : Format) (x : Scientific) : String :=
  let digits := Nat.toDigits 10 x.coefficient
  let point : Int := digits.length + x.exponent
  if 0 ≤ x.exponent && point ≤ f.places then
    String.ofList digits ++ zeros x.exponent.toNat ++ ".0"
  else if 0 < point && point ≤ f.places then
    String.ofList (digits.take point.toNat) ++ "." ++ String.ofList (digits.drop point.toNat)
  else if -(f.leadingZeros : Int) < point && point ≤ 0 then
    "0." ++ zeros (-point).toNat ++ String.ofList digits
  else
    let fraction := digits.drop 1
    String.ofList (digits.take 1) ++
      (if fraction.isEmpty then "" else "." ++ String.ofList fraction) ++
      f.renderExponent (point - 1)

/-- The value of the bits without their sign; `none` for zero. -/
def binaryOfBits (bits : Nat) : Option Binary :=
  let fraction : Nat := bits % Nat.pow 2 52
  let exponent : Nat := bits / Nat.pow 2 52 % Nat.pow 2 11
  if exponent = 0 then
    if fraction = 0 then none else some ⟨fraction, -1074, false⟩
  else some ⟨Nat.pow 2 52 + fraction, (exponent : Int) - 1075, fraction = 0 && 1 < exponent⟩

/-- Text of a finite double. -/
def text (x : Float) : String :=
  let bits := x.toBits.toNat
  let sign := if UInt64.size / 2 ≤ bits then "-" else ""
  match (binaryOfBits bits).bind shortest? with
  | some s => sign ++ doubleFormat.render s
  | none => sign ++ "0.0"

end ComposeGuards.Decimal
