import DocShape.Number.Binary64
import DocShape.Table

/-!
# JSON values

* `Json.Value` keeps integers and floating-point numbers apart and the members of an object in order;
* `Json.member` looks a member of an object up by its key;
* `Json.Value.isEmpty` says which values count as missing;
* `Json.Value.elements?` lists what a value holds one level down;
* `Json.Value.hasDistinctKeys` says that no key is repeated in an object;
* `Json.Pointer` is the address of a value inside a document.
-/

namespace DocShape.Json

inductive Value
  | null
  | bool (b : Bool)
  | int (n : Int)
  | float (x : Binary64)
  | text (t : Text)
  | array (items : List Value)
  | object (members : List (Text × Value))
  deriving Repr

/-- The members of an object, in order. -/
abbrev Members := Table Value

instance : Inhabited Value := ⟨.null⟩

def member? (members : Members) (key : Text) : Option Value := Table.get? members key

/-- A member that is absent reads as null. -/
def member (members : Members) (key : Text) : Value := (member? members key).getD .null

/-- The most digits of an integer in JSON text. -/
def integerDigitLimit : Nat := 4300

namespace Value

/-- Null, false, zero, and empty text, arrays and objects count as missing. -/
def isEmpty : Value → Bool
  | .null => true
  | .bool b => !b
  | .int n => n == 0
  | .float x => x.isZero
  | .text t => t.isEmpty
  | .array items => items.isEmpty
  | .object members => members.isEmpty

/-- What a value holds: the items of an array, the code points of a text, the keys of an object.
Other values hold nothing that could be listed. -/
def elements? : Value → Option (List Value)
  | .array items => some items
  | .text t => some (t.map fun c => .text [c])
  | .object members => some (members.map fun m => .text m.1)
  | _ => none

/-- The elements of a value, none where it counts as missing. -/
def elementsOrNone? (v : Value) : Option (List Value) :=
  if v.isEmpty then some [] else v.elements?

/-- An integer; the truth values are the integers zero and one. -/
def toInt? : Value → Option Int
  | .int n => some n
  | .bool b => some (if b then 1 else 0)
  | _ => none

/-- The place of a number on the number line. -/
def linePoint? : Value → Option LinePoint
  | .float x => LinePoint.ofBinary64? x
  | v => v.toInt?.map LinePoint.ofInt

def isText (t : Text) : Value → Bool
  | .text u => u == t
  | _ => false

theorem isText_iff {t : Text} {v : Value} : v.isText t ↔ v = .text t := by
  cases v <;> simp [isText]

/-- Whether a value is the number one, in any of its forms. -/
def isOne : Value → Bool
  | .float x => x.isInt 1
  | v => v.toInt? == some 1

/-! ## Distinct keys -/

mutual

/-- Whether no object inside a value has two members with one key. -/
def hasDistinctKeys : Value → Bool
  | .array items => distinctKeysInItems items
  | .object members => distinctKeysInMembers members
  | _ => true

def distinctKeysInItems : List Value → Bool
  | [] => true
  | item :: rest => item.hasDistinctKeys && distinctKeysInItems rest

def distinctKeysInMembers : List (Text × Value) → Bool
  | [] => true
  | (key, v) :: rest =>
    !(rest.map (·.1)).contains key && v.hasDistinctKeys && distinctKeysInMembers rest

end

end Value

/-! ## Addresses -/

/-- One step into a document: to a member of an object, or to an item of an array. -/
inductive Step
  | key (name : Text)
  | index (i : Nat)
  deriving DecidableEq, Repr

/-- The address of a value, the innermost step first. -/
abbrev Pointer := List Step

end DocShape.Json
