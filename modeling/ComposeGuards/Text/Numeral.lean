/-! # Decimal numerals

Numerals are runs of the ten ASCII digits, with any number of leading zeros. A number that a field
of the listing holds may carry one sign, `-` only where the field is signed, and is refused when
it does not fit the field's width.
-/
namespace ComposeGuards.Text

def digits? (cs : List Char) : Option Nat :=
  if cs.isEmpty then none
  else if cs.all Char.isDigit then some (Nat.ofDigitChars 10 cs 0) else none

def unsigned? : List Char → Option Nat
  | '+' :: cs => digits? cs
  | cs => digits? cs

def signed? : List Char → Option Int
  | '-' :: cs => (digits? cs).map fun n => -(n : Int)
  | cs => (unsigned? cs).map Int.ofNat

/-- The number as a 16-bit word, if it fits. -/
def word16? (n : Nat) : Option UInt16 :=
  if h : n < UInt16.size then some (UInt16.ofNatLT n h) else none

/-- The number as a 32-bit word, if it fits. -/
def word32? (n : Nat) : Option UInt32 :=
  if h : n < UInt32.size then some (UInt32.ofNatLT n h) else none

/-- The number as a signed 32-bit word, if it fits. -/
def int32? (i : Int) : Option Int32 :=
  if Int32.minValue.toInt ≤ i ∧ i ≤ Int32.maxValue.toInt then some (Int32.ofInt i) else none

/-- Decimal text of an integer, with a sign only below zero. -/
def signedText (i : Int) : String :=
  if i < 0 then "-" ++ toString i.natAbs else toString i.natAbs

theorem digits?_toDigits (n : Nat) : digits? (Nat.toDigits 10 n) = some n := by
  have hne : (Nat.toDigits 10 n).isEmpty = false := by simp
  have hall : (Nat.toDigits 10 n).all Char.isDigit = true :=
    List.all_eq_true.mpr fun c hc => Nat.isDigit_of_mem_toDigits (by decide) (by decide) hc
  simp [digits?, hne, hall, Nat.ofDigitChars_ten_toDigits]

theorem word32?_toNat (w : UInt32) : word32? w.toNat = some w := by
  simp [word32?, w.toNat_lt_size]

theorem word16?_toNat (w : UInt16) : word16? w.toNat = some w := by
  simp [word16?, w.toNat_lt_size]

end ComposeGuards.Text
