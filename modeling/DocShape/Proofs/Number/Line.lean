import DocShape.Proofs.Json.Equivalence
import Mathlib.Tactic.Ring

/-!
Places on the number line. Equal numbers stand at one place, floating-point numbers and integers alike
(`place_of_numericEq`, `place_of_isInt`), and places are ordered strictly.
-/

namespace DocShape

namespace Binary64

/-- A number that has a place on the number line. No exponent of a number of 64 bits is below that of the
smallest one, so that all of them have a place. -/
def IsPlaced : Binary64 → Prop
  | .finite _ _ e => -1074 ≤ e
  | .infinite _ => True
  | .nan => False

/-- A number that is an integer stands at the place of the integer. -/
theorem place_of_isInt {x : Binary64} {n : Int} (placed : x.IsPlaced) (h : x.isInt n) :
    LinePoint.ofBinary64? x = some (.ofInt n) := by
  cases x with
  | infinite | nan => cases h
  | finite negative m e =>
    have placed : -1074 ≤ e := placed
    have power : ∀ a b, twoTo (a + b) = twoTo a * twoTo b := fun a b => Nat.pow_add 2 a b
    simp only [isInt, beq_iff_eq] at h
    simp only [LinePoint.ofBinary64?, LinePoint.ofInt, Option.some.injEq, LinePoint.units.injEq]
    by_cases he : 0 ≤ e
    · have exponent : (e + 1074).toNat = e.toNat + 1074 := by omega
      simp only [if_pos he] at h
      rw [exponent, power, ← h]
      split <;> push_cast <;> ring
    · have exponent : 1074 = (-e).toNat + (e + 1074).toNat := by omega
      have unit : (twoTo 1074 : Int) = twoTo (-e).toNat * twoTo (e + 1074).toNat := by
        exact_mod_cast (congrArg twoTo exponent).trans (power _ _)
      simp only [if_neg he] at h
      rw [unit, ← mul_assoc, ← h]
      split <;> ring

/-- Equal numbers have one place. -/
theorem place_of_numericEq {x y : Binary64} (h : x.numericEq y) :
    LinePoint.ofBinary64? x = LinePoint.ofBinary64? y := by
  have zero : ∀ z : Binary64, z.isZero → LinePoint.ofBinary64? z = some (.units 0) := by
    intro z hz
    cases z with
    | infinite | nan => cases hz
    | finite negative m e =>
      obtain rfl : m = 0 := by simpa [isZero] using hz
      simp [LinePoint.ofBinary64?]
  rcases numericEq_iff.1 h with ⟨rfl, -⟩ | ⟨hx, hy⟩
  · rfl
  · rw [zero x hx, zero y hy]

end Binary64

namespace LinePoint

theorem before_irrefl (p : LinePoint) : ¬ p.before p := by
  cases p <;> simp [before]

theorem before_trans {p q r : LinePoint} (h : p.before q) (h' : q.before r) : p.before r := by
  cases p <;> cases q <;> cases r <;> simp_all [before]
  omega

end LinePoint

end DocShape
