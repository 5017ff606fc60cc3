import DocShape.Number.Binary64

/-!
# Shortest decimal digits

`Binary64.shortest` finds the fewest decimal digits that read back as a given number: on the decimal
grids of 1, 2, … 17 digits it tests the two neighbours of the number, and the first grid with a
neighbour that rounds to the number wins; of two such neighbours the nearer one, in a tie the even
one.
-/

namespace DocShape

/-- Decimal digits `digits` that stand for `digits * 10 ^ exponent`. -/
structure Decimal where
  digits : Nat
  exponent : Int
  deriving DecidableEq, Repr

namespace Binary64

/-- The reals that round to `m * 2 ^ e`, in units of `2 ^ (e - 2)`: both ends, and whether they
belong to it. Below a power of two the numbers are twice as dense. -/
private def roundingInterval (m : Nat) (e : Int) : Nat × Nat × Bool :=
  (if m = twoTo 52 ∧ e ≠ -1074 then 4 * m - 1 else 4 * m - 2, 4 * m + 2, m % 2 == 0)

/-- The least `k` with `num / den < 10 ^ k`: the number of digits before the decimal point, and not
positive for a number below one. -/
private def decimalOrder (num den : Nat) : Int :=
  let digits := (Text.decimal (num / den)).length
  if den ≤ num then digits
  else
    let zeros := (Text.decimal (den / num)).length
    if num * tenTo (zeros - 1) < den then 1 - (zeros : Int) else 2 - (zeros : Int)

/-- The digits on one decimal grid that read back as `m * 2 ^ e`, if there are any. -/
private def onGrid? (m : Nat) (e : Int) (exponent : Int) : Option Nat :=
  let binary : Int := e - 2
  -- Everything below is multiplied by `2 ^ -binary` and `10 ^ -exponent` where these are integers.
  let unit := twoTo binary.toNat * tenTo (-exponent).toNat
  let step := twoTo (-binary).toNat * tenTo exponent.toNat
  let (low, high, closed) := roundingInterval m e
  let value := 4 * m * unit
  let inside (d : Nat) : Bool :=
    if closed then low * unit ≤ d * step && d * step ≤ high * unit
    else low * unit < d * step && d * step < high * unit
  let below := value / step
  let above := below + 1
  if inside below && inside above then
    let rest := value % step
    if 2 * rest < step then some below
    else if step < 2 * rest then some above
    else some (below + below % 2)
  else if inside below then some below
  else if inside above then some above
  else none

/-- Tries the grids of `width`, `width + 1`, … digits. -/
private def search (m : Nat) (e : Int) (order : Int) : Nat → Nat → Option Decimal
  | 0, _ => none
  | count + 1, width =>
    match onGrid? m e (order - width) with
    | some digits => some ⟨digits, order - width⟩
    | none => search m e order count (width + 1)

/-- Trailing zeros of the digits move into the power of ten. -/
private def normalize : Nat → Decimal → Decimal
  | 0, d => d
  | fuel + 1, d =>
    if d.digits % 10 = 0 ∧ d.digits ≠ 0 then normalize fuel ⟨d.digits / 10, d.exponent + 1⟩ else d

/-- The fewest digits that read back as the positive number `m * 2 ^ e`. -/
def shortest (m : Nat) (e : Int) : Decimal :=
  let order := decimalOrder (m * twoTo e.toNat) (twoTo (-e).toNat)
  match search m e order 17 1 with
  | some d => normalize 20 d
  | none => ⟨m * twoTo e.toNat, 0⟩

end Binary64

end DocShape
