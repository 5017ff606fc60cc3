import DocShape.Json.Value

/-!
# Equality of values

* `Json.Value.strictEq` compares by structure; scalars are equal only within one type, and what is no
  number equals nothing;
* `Json.Value.looseEq` compares numbers and truth values by the number they stand for.

Both ignore the order of the members of an object.
-/

namespace DocShape.Json.Value

mutual

def strictEq : Value → Value → Bool
  | .null, .null => true
  | .bool a, .bool b => a == b
  | .int a, .int b => a == b
  | .float a, .float b => a.numericEq b
  | .text a, .text b => a == b
  | .array a, .array b => strictEqItems a b
  | .object a, .object b => a.length == b.length && strictEqMembers a b
  | _, _ => false

def strictEqItems : List Value → List Value → Bool
  | [], [] => true
  | a :: as, b :: bs => strictEq a b && strictEqItems as bs
  | _, _ => false

/-- Every member on the left has an equal one on the right. -/
def strictEqMembers : List (Text × Value) → List (Text × Value) → Bool
  | [], _ => true
  | (key, a) :: rest, other =>
    match other.lookup key with
    | some b => strictEq a b && strictEqMembers rest other
    | none => false

end

/-- Numbers and truth values are equal that stand for one number; what is no number equals itself
alone. -/
def looseEqScalar : Value → Value → Bool
  | .null, .null => true
  | .text a, .text b => a == b
  | .float a, .float b => a.numericEq b || (a = .nan && b = .nan)
  | .float a, b => b.toInt?.any fun n => a.isInt n
  | a, .float b => a.toInt?.any fun n => b.isInt n
  | a, b =>
    match a.toInt?, b.toInt? with
    | some m, some n => m == n
    | _, _ => false

mutual

def looseEq : Value → Value → Bool
  | .array a, .array b => looseEqItems a b
  | .object a, .object b => a.length == b.length && looseEqMembers a b
  | a, b => looseEqScalar a b

def looseEqItems : List Value → List Value → Bool
  | [], [] => true
  | a :: as, b :: bs => looseEq a b && looseEqItems as bs
  | _, _ => false

/-- Every member on the left has an equal one on the right. -/
def looseEqMembers : List (Text × Value) → List (Text × Value) → Bool
  | [], _ => true
  | (key, a) :: rest, other =>
    match other.lookup key with
    | some b => looseEq a b && looseEqMembers rest other
    | none => false

end

end DocShape.Json.Value
