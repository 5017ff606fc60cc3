import DocShape.Text.Basic

/-!
# Binary floating point of 64 bits

Numbers are held exactly, as a sign, a mantissa and a power of two.

* `Binary64.ofRatio` rounds a quotient to the nearest number, a tie to the even mantissa;
* `Binary64.ofDecimal` reads decimal digits with a power of ten;
* `Binary64.truncate?` drops the fraction, `Binary64.isInt` compares with an integer;
* `LinePoint` places integers and floating-point numbers on one line.
-/

namespace DocShape

/-- A number `mantissa * 2 ^ exponent` with a sign, an infinity, or no number. The mantissa of a
number has 53 bits unless the exponent is `-1074`. -/
inductive Binary64
  | finite (negative : Bool) (mantissa : Nat) (exponent : Int)
  | infinite (negative : Bool)
  | nan
  deriving DecidableEq, Repr

def twoTo (k : Nat) : Nat := Nat.pow 2 k

def tenTo (k : Nat) : Nat := Nat.pow 10 k

/-- The quotient rounded to the nearest integer, a tie to the even one. -/
def roundDiv (num den : Nat) : Nat :=
  let quotient := num / den
  let remainder := num % den
  if 2 * remainder < den then quotient
  else if den < 2 * remainder then quotient + 1
  else quotient + quotient % 2

namespace Binary64

def zero (negative : Bool) : Binary64 := .finite negative 0 (-1074)

/-- The greatest `k` with `2 ^ k ≤ num / den`. -/
private def binaryOrder (num den : Nat) : Int :=
  let k : Int := (num.log2 : Int) - den.log2
  if num * twoTo (-k).toNat < den * twoTo k.toNat then k - 1 else k

/-- The number nearest to `num / den`. -/
def ofRatio (negative : Bool) (num den : Nat) : Binary64 :=
  if num = 0 then zero negative
  else
    let e := max (binaryOrder num den - 52) (-1074)
    let m := roundDiv (num * twoTo (-e).toNat) (den * twoTo e.toNat)
    let (m, e) := if m = twoTo 53 then (twoTo 52, e + 1) else (m, e)
    if 971 < e then .infinite negative else .finite negative m e

/-- The number nearest to `digits * 10 ^ exponent`. Values whose order of magnitude is far outside
the range are told by their digit count. -/
def ofDecimal (negative : Bool) (digits : Nat) (exponent : Int) : Binary64 :=
  let order := ((Text.decimal digits).length : Int) + exponent
  if digits = 0 then zero negative
  else if 320 < order then .infinite negative
  else if order < -340 then zero negative
  else ofRatio negative (digits * tenTo exponent.toNat) (tenTo (-exponent).toNat)

/-- The integer part of a finite number. -/
def truncate? : Binary64 → Option Int
  | .finite negative m e =>
    let magnitude : Int := if 0 ≤ e then m * twoTo e.toNat else m / twoTo (-e).toNat
    some (if negative then -magnitude else magnitude)
  | _ => none

def isZero : Binary64 → Bool
  | .finite _ m _ => m == 0
  | _ => false

/-- Numeric equality: both zeros are equal, and no number equals nothing. -/
def numericEq : Binary64 → Binary64 → Bool
  | .nan, _ => false
  | _, .nan => false
  | a, b => a = b || (a.isZero && b.isZero)

/-- Whether a number is the integer `n`. -/
def isInt (n : Int) : Binary64 → Bool
  | .finite negative m e =>
    let magnitude : Int := if 0 ≤ e then m * twoTo e.toNat else m
    (if negative then -magnitude else magnitude) == (if 0 ≤ e then n else n * twoTo (-e).toNat)
  | _ => false

end Binary64

/-! ## Order -/

/-- A place on the number line with its two ends, in multiples of the smallest positive number. -/
inductive LinePoint
  | leftEnd
  | units (n : Int)
  | rightEnd
  deriving DecidableEq, Repr

namespace LinePoint

def ofInt (n : Int) : LinePoint := .units (n * twoTo 1074)

/-- A sign and a mantissa place a number; what is no number has no place. -/
def ofBinary64? : Binary64 → Option LinePoint
  | .finite negative m e =>
    let n : Int := m * twoTo (e + 1074).toNat
    some (.units (if negative then -n else n))
  | .infinite negative => some (if negative then .leftEnd else .rightEnd)
  | .nan => none

def before : LinePoint → LinePoint → Bool
  | .leftEnd, .leftEnd => false
  | .leftEnd, _ => true
  | .units a, .units b => a < b
  | .units _, .rightEnd => true
  | _, _ => false

end LinePoint

end DocShape
