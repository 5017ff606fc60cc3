import DocShape.Json.Equality
import DocShape.Shape.Basic

/-!
# Equality of shapes

* `Shape.strictEq` compares shapes by their JSON objects, so that an absent field never equals a
  present one;
* `Operand.strictEq` compares anything built from values, lists, tuples, objects and shapes;
* `Operand.view` is what an operand is compared as: a tuple as a list, and a shape as its JSON object.
-/

namespace DocShape

open Json (Value)

def Shape.strictEq (a b : Shape) : Bool := a.toJson.strictEq b.toJson

/-- The same for shapes that may be absent. -/
def Shape.strictEqOption : Option Shape → Option Shape → Bool
  | none, none => true
  | some a, some b => a.strictEq b
  | _, _ => false

/-- What can be compared by structure. -/
inductive Operand
  | value (v : Value)
  | list (items : List Operand)
  | tuple (items : List Operand)
  | object (members : List (Text × Operand))
  | shape (s : Shape)

namespace Operand

/-! ## Views -/

/-- What an operand is compared as. -/
inductive View
  | scalar (v : Value)
  | listed (l : List Operand)
  | keyed (l : List (Text × Operand))

def View.ofValue : Value → View
  | .array items => .listed (items.map .value)
  | .object members => .keyed (members.map fun m => (m.1, .value m.2))
  | v => .scalar v

def view : Operand → View
  | .value v => .ofValue v
  | .list items | .tuple items => .listed items
  | .object members => .keyed members
  | .shape s => .ofValue s.toJson

/-! ## Sizes -/

mutual

/-- How much is inside an operand. -/
noncomputable def size : Operand → Nat
  | .value v => sizeOf v
  | .list items | .tuple items => itemsSize items + 1
  | .object members => membersSize members + 1
  | .shape s => sizeOf s.toJson

noncomputable def itemsSize : List Operand → Nat
  | [] => 0
  | item :: rest => size item + itemsSize rest + 1

noncomputable def membersSize : List (Text × Operand) → Nat
  | [] => 0
  | (_, x) :: rest => size x + membersSize rest + 1

end

/-- What is inside the view of an operand. -/
noncomputable def View.size : View → Nat
  | .scalar _ => 0
  | .listed l => itemsSize l
  | .keyed l => membersSize l

private theorem itemsSize_values (items : List Value) :
    itemsSize (items.map .value) < sizeOf items := by
  induction items with
  | nil => simp [itemsSize]
  | cons v rest ih =>
    simp only [List.map_cons, itemsSize, Operand.size, List.cons.sizeOf_spec]
    omega

private theorem membersSize_values (members : List (Text × Value)) :
    membersSize (members.map fun m => (m.1, .value m.2)) < sizeOf members := by
  induction members with
  | nil => simp [membersSize]
  | cons m rest ih =>
    obtain ⟨key, v⟩ := m
    simp only [List.map_cons, membersSize, Operand.size, List.cons.sizeOf_spec, Prod.mk.sizeOf_spec]
    omega

private theorem View.size_ofValue (v : Value) : (View.ofValue v).size < sizeOf v := by
  cases v with
  | array items =>
    have := itemsSize_values items
    simp only [View.ofValue, View.size, Value.array.sizeOf_spec]
    omega
  | object members =>
    have := membersSize_values members
    simp only [View.ofValue, View.size, Value.object.sizeOf_spec]
    omega
  | null => exact Nat.one_pos
  | bool | int | float | text =>
    simp only [View.ofValue, View.size, Value.bool.sizeOf_spec, Value.int.sizeOf_spec,
      Value.float.sizeOf_spec, Value.text.sizeOf_spec]
    omega

private theorem size_view (a : Operand) : a.view.size < a.size := by
  cases a with
  | value v => simpa only [view, Operand.size] using View.size_ofValue v
  | shape s => simpa only [view, Operand.size] using View.size_ofValue s.toJson
  | list | tuple | object => simp [view, View.size, Operand.size]

theorem itemsSize_lt_of_view {a : Operand} {l : List Operand} (h : a.view = .listed l) :
    itemsSize l < a.size := by
  have := a.size_view
  rwa [h] at this

theorem membersSize_lt_of_view {a : Operand} {l : List (Text × Operand)} (h : a.view = .keyed l) :
    membersSize l < a.size := by
  have := a.size_view
  rwa [h] at this

/-! ## Comparison -/

mutual

def strictEq (a b : Operand) : Bool :=
  match _h : a.view, b.view with
  | .listed as, .listed bs => strictEqItems as bs
  | .keyed as, .keyed bs => as.length == bs.length && strictEqMembers as bs
  | .scalar v, .scalar w => v.strictEq w
  | _, _ => false
termination_by a.size
decreasing_by
  · exact itemsSize_lt_of_view _h
  · exact membersSize_lt_of_view _h

def strictEqItems (as bs : List Operand) : Bool :=
  match as, bs with
  | [], [] => true
  | a :: as, b :: bs => strictEq a b && strictEqItems as bs
  | _, _ => false
termination_by itemsSize as
decreasing_by
  all_goals
    simp only [itemsSize]
    omega

/-- Every member on the left has an equal one on the right. -/
def strictEqMembers (as bs : List (Text × Operand)) : Bool :=
  match as with
  | [] => true
  | (key, a) :: rest =>
    match bs.lookup key with
    | some b => strictEq a b && strictEqMembers rest bs
    | none => false
termination_by membersSize as
decreasing_by
  all_goals
    simp only [membersSize]
    omega

end

end Operand

end DocShape
