/-! # Shortest decimals

The reals that round to a positive binary number form an interval around it. Its shortest decimal
is the multiple of the largest power of ten that lies in the interval, and of two such multiples the
nearer one. All comparisons are between natural numbers.
-/
namespace ComposeGuards.Decimal

/-- The number `mantissa * 2 ^ exponent`; `narrowBelow` says that the next smaller number is half as
far away as the next larger one. -/
structure Binary where
  mantissa : Nat
  exponent : Int
  narrowBelow : Bool
  deriving DecidableEq, Repr

/-- The number `coefficient * 10 ^ exponent`. -/
structure Scientific where
  coefficient : Nat
  exponent : Int
  deriving DecidableEq, Repr

/-- `quarters` quarters of the last binary place over a power of ten, as a fraction. -/
def ratio (x : Binary) (power : Int) (quarters : Nat) : Nat × Nat :=
  let e := x.exponent - 2
  (quarters * Nat.pow 2 e.toNat * Nat.pow 10 (-power).toNat,
    Nat.pow 10 power.toNat * Nat.pow 2 (-e).toNat)

/-- Whether the multiple of the power of ten rounds to the number. -/
def roundsTo (x : Binary) (power : Int) (coefficient : Nat) : Bool :=
  let (low, den) := ratio x power (4 * x.mantissa - if x.narrowBelow then 1 else 2)
  let (high, _) := ratio x power (4 * x.mantissa + 2)
  let value := coefficient * den
  if x.mantissa % 2 = 0 then low ≤ value && value ≤ high else low < value && value < high

/-- The multiple of the power of ten that rounds to the number and is nearest to it, if any. -/
def onGrid? (x : Binary) (power : Int) : Option Scientific :=
  let (num, den) := ratio x power (4 * x.mantissa)
  let below := num / den
  let above := below + 1
  match roundsTo x power below, roundsTo x power above with
  | true, true =>
    let toBelow := num - below * den
    let toAbove := above * den - num
    if toBelow < toAbove || toBelow = toAbove && below % 2 = 0 then some ⟨below, power⟩
    else some ⟨above, power⟩
  | true, false => some ⟨below, power⟩
  | false, true => some ⟨above, power⟩
  | false, false => none

/-- The powers of ten that a double can need, largest first. -/
def powers : List Int :=
  (List.range 634).map fun (i : Nat) => 309 - (i : Int)

def shortest? (x : Binary) : Option Scientific :=
  powers.findSome? (onGrid? x)

theorem roundsTo_of_onGrid? {x : Binary} {power : Int} {s : Scientific}
    (h : onGrid? x power = some s) :
    s.exponent = power ∧ roundsTo x power s.coefficient = true := by
  unfold onGrid? at h
  simp only at h
  split at h
  · next hb ha =>
    split at h <;> (obtain rfl := Option.some.inj h; exact ⟨rfl, by assumption⟩)
  · next hb ha => obtain rfl := Option.some.inj h; exact ⟨rfl, hb⟩
  · next hb ha => obtain rfl := Option.some.inj h; exact ⟨rfl, ha⟩
  · cases h

/-- A shortest decimal rounds to the number. -/
theorem roundsTo_of_shortest? {x : Binary} {s : Scientific} (h : shortest? x = some s) :
    roundsTo x s.exponent s.coefficient = true := by
  obtain ⟨power, -, hp⟩ := List.exists_of_findSome?_eq_some h
  obtain ⟨he, hr⟩ := roundsTo_of_onGrid? hp
  rw [he]
  exact hr

/-- No larger power of ten among those that are tried has a multiple with a rounding neighbour. -/
theorem onGrid?_eq_none_of_shortest? {x : Binary} {s : Scientific} (h : shortest? x = some s) :
    ∃ before after, powers = before ++ s.exponent :: after ∧ ∀ p ∈ before, onGrid? x p = none := by
  obtain ⟨before, power, after, hl, hp, hn⟩ := List.findSome?_eq_some_iff.mp h
  obtain ⟨he, -⟩ := roundsTo_of_onGrid? hp
  exact ⟨before, after, by rw [he]; exact hl, hn⟩

end ComposeGuards.Decimal
