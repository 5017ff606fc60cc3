import DocShape.Shape.Equality

/-!
# Arrays of a fixed length

* `Shape.fixedArray?` turns an object literal whose properties are named `0`, `1`, … and have one
  shape into an array of fixed length;
* `Shape.intersect?` intersects two arrays over one element.
-/

namespace DocShape.Shape

/-- The names of the items of an array of length `n`. -/
def indexNames (n : Nat) : List (Option Text) := (List.range n).map fun i => some (Text.decimal i)

/-- The array of `n` items that an object literal with the properties `0`, …, `n - 1` stands for. The
names may come in any order; the shapes have to be equal up to the names. -/
def fixedArray? : Shape → Option Shape
  | object _ .literal (some (first :: rest)) _ =>
    let n := rest.length + 1
    let element := first.withName none
    if ((first :: rest).map name).isPerm (indexNames n) &&
        rest.all fun p => element.strictEq (p.withName none) then
      some (array {} (some element) (some n) (some n))
    else none
  | _ => none

/-! ## Intersections -/

/-- A bound of zero is no bound. -/
def bound (n : Int) : Option Int := if n = 0 then none else some n

/-- The greater of two lower bounds, of which an absent one is zero. -/
def greaterBound (a b : Option Int) : Option Int := bound (max (a.getD 0) (b.getD 0))

/-- The smaller of two upper bounds, of which an absent one does not count. -/
def smallerBound (a b : Option Int) : Option Int :=
  match a, b with
  | some a, some b => bound (min a b)
  | some a, none => bound a
  | none, some b => bound b
  | none, none => none

/-- The intersection of two arrays over equal elements: at least as long as the longer minimum, at
most as long as the shorter maximum. -/
def intersect? : Shape → Shape → Option Shape
  | array _ a lowA highA, array _ b lowB highB =>
    if strictEqOption a b then
      some (array {} a (greaterBound lowA lowB) (smallerBound highA highB))
    else none
  | _, _ => none

end DocShape.Shape
