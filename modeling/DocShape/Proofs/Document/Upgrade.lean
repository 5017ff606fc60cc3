import DocShape.Proofs.Document.Filling
import DocShape.Proofs.Document.Twins

/-!
# Documents brought up to date

Documents of the legacy numbering have other kinds, comments, string literals, type parameters and
references than current ones. `upgrade` turns the one form into the other, place by place; a `Slot` says
what is expected at a place.

* `Slot.child` and `Slot.item` say what is expected inside;
* `upgrade` changes each member by itself, so that what it makes of a member can be looked up
  (`lookup_upgrade`);
* `everywhere` checks all objects of a document against what is expected of them.
-/

namespace DocShape

/-! ## Kinds -/

namespace Kind

/-- The number of a kind in the current numbering. -/
def currentNumber? (kind : Kind) : Option Nat := (currentTable.find? (·.2 = kind)).map (·.1)

theorem ofNumber?_of_currentNumber? {kind : Kind} {n : Nat} (h : kind.currentNumber? = some n) :
    ofNumber? .current n = some kind := by
  have numbers : kind.currentNumber?.all fun n => decide (ofNumber? .current n = some kind) := by
    cases kind <;> decide
  rw [h] at numbers
  simpa using numbers

/-- A legacy number as a current one. -/
def upgradeNumber (v : Json.Value) : Json.Value :=
  match read .legacy v .null with
  | .ok (some kind) => (kind.currentNumber?.map fun n => .int n).getD v
  | _ => v

/-- Whether a value is a legacy number that has a current one, or there is none. -/
def upgradable (v : Json.Value) : Bool :=
  match v with
  | .null => true
  | v =>
    match read .legacy v .null with
    | .ok (some kind) => kind.currentNumber?.isSome
    | _ => false

theorem read_upgradeNumber {v : Json.Value} (h : upgradable v) :
    read .current (upgradeNumber v) .null = read .legacy v .null := by
  unfold upgradable at h
  split at h
  · rfl
  · split at h
    · rename_i kind hr
      obtain ⟨n, hn⟩ := Option.isSome_iff_exists.1 h
      rw [upgradeNumber, hr]
      simp only [hn, Option.map_some, Option.getD_some]
      have number := ofNumber?_of_currentNumber? hn
      show Except.ok ((some (n : Int)).bind (ofNumber? .current)) = _
      rw [Option.bind_some, number]
    · cases h

end Kind

namespace Document

open Json

/-! ## What is expected where -/

inductive Slot
  | declaration
  | signature
  | parameter
  | comment
  | type
  /-- A list of what is expected in a slot. -/
  | each (slot : Slot)
  /-- What hangs off a type without being read; only inline declarations in it count. -/
  | aside
  /-- A value that is shown as text. -/
  | shown
  /-- What is the same in all documents. -/
  | other
  deriving DecidableEq

namespace Slot

/-- What the items of an array are. -/
def item : Slot → Slot
  | each slot => slot
  | type | aside => aside
  | shown => shown
  | _ => other

/-- What an object is taken for. -/
def node : Slot → Slot
  | each type => aside
  | each _ => other
  | slot => slot

/-- What the types inside a type node are. -/
def typeChild (node : Members) (key : Text) : Slot :=
  match categoryOf node with
  | .array => if key = "elementType" then type else aside
  | .group g => if key = g.key then each type else aside
  | .reference => if key = "typeArguments" then each type else aside
  | _ => aside

/-- Whether a member of a node is its inline declaration. -/
def isInline (node : Members) (key : Text) : Bool :=
  key == Text.ofString "declaration" && (inlineDeclaration? node).isSome

/-- What a member of an object is. -/
def child (slot : Slot) (node : Members) (key : Text) : Slot :=
  match slot with
  | declaration =>
    if key = "children" then each declaration
    else if key = "signatures" then each signature
    else if key = "type" then type
    else if key = "comment" then comment
    else other
  | signature =>
    if key = "parameters" then each parameter
    else if key = "type" then type
    else if key = "comment" then comment
    else other
  | parameter =>
    if key = "type" then type
    else if key = "comment" then comment
    else other
  | type =>
    if isInline node key then declaration
    else if key = "name" ∨ key = "qualifiedName" then shown
    else typeChild node key
  | aside => if isInline node key then declaration else aside
  | shown => if isInline node key then declaration else shown
  | _ => other

end Slot

/-! ## The newer form -/

/-- A text as the only part of a list. -/
def partsOf (text : Value) : Value :=
  .array [.object [("kind", .text "text"), ("text", text)]]

/-- A text as the content of the only tag, which is for the return value. -/
def returnsTagOf (text : Value) : Value :=
  .array [.object [("tag", .text "@returns"), ("content", partsOf text)]]

/-- Whether a node is a reference with an id. -/
def isNumbered (node : Members) : Bool :=
  (member node "type").displayOrEmpty == Text.ofString "reference" &&
    (Id.ofValue? (member node "id")).isSome

namespace Slot

/-- The newer key of a member. -/
def newKey (slot : Slot) (node : Members) (key : Text) : Text :=
  match slot with
  | declaration => if key = "typeParameter" then "typeParameters" else key
  | comment => if key = "shortText" then "summary" else if key = "returns" then "blockTags" else key
  | type | aside => if key = "id" ∧ isNumbered node then "target" else key
  | _ => key

/-- The newer value of a member. -/
def newValue (slot : Slot) (key : Text) (v : Value) : Value :=
  match slot with
  | declaration => if key = "kind" then Kind.upgradeNumber v else v
  | comment =>
    if key = "shortText" then partsOf v else if key = "returns" then returnsTagOf v else v
  | type | aside => if key = "type" ∧ v.isText "stringLiteral" then .text "literal" else v
  | _ => v

end Slot

mutual

/-- A value in the newer form. -/
def upgrade (slot : Slot) : Value → Value
  | .array items => .array (upgradeItems slot.item items)
  | .object m => .object (upgradeMembers slot.node m m)
  | v => v

def upgradeItems (slot : Slot) : List Value → List Value
  | [] => []
  | item :: rest => upgrade slot item :: upgradeItems slot rest

/-- The members of a node. -/
def upgradeMembers (slot : Slot) (node : Members) : List (Text × Value) → List (Text × Value)
  | [] => []
  | (key, v) :: rest =>
    (slot.newKey node key, slot.newValue key (upgrade (slot.child node key) v)) ::
      upgradeMembers slot node rest

end

/-- A declaration in the newer form; a document is the declaration of its root. -/
def upgradeDeclaration (raw : Members) : Members := upgradeMembers .declaration raw raw

theorem upgradeItems_eq_map (slot : Slot) (items : List Value) :
    upgradeItems slot items = items.map (upgrade slot) := by
  induction items with
  | nil => rfl
  | cons item rest ih => rw [upgradeItems, ih, List.map_cons]

theorem upgradeMembers_eq_map (slot : Slot) (node m : Members) :
    upgradeMembers slot node m = m.map fun e =>
      (slot.newKey node e.1, slot.newValue e.1 (upgrade (slot.child node e.1) e.2)) := by
  induction m with
  | nil => rfl
  | cons e rest ih => rw [upgradeMembers, ih, List.map_cons]

/-! ### Look-ups -/

private theorem lookup_map_keys {α : Type} {k : Text → Text} {g : Text → α → α} {old new : Text}
    {l : List (Text × α)} (h : ∀ e ∈ l, k e.1 = new ↔ e.1 = old) :
    (l.map fun e => (k e.1, g e.1 e.2)).lookup new = (l.lookup old).map (g old) := by
  induction l with
  | nil => rfl
  | cons e rest ih =>
    obtain ⟨key, v⟩ := e
    have head := h _ (List.mem_cons_self ..)
    have same : (new == k key) = (old == key) := Bool.eq_iff_iff.2 (by
      rw [beq_iff_eq, beq_iff_eq, eq_comm, eq_comm (a := old)]
      exact head)
    rw [List.map_cons, List.lookup_cons, List.lookup_cons, same,
      ih fun e he => h e (List.mem_cons_of_mem _ he)]
    cases ho : old == key with
    | true =>
      obtain rfl := eq_of_beq ho
      rfl
    | false => rfl

/-- The member that has a key in the newer form is the one that had the old key. -/
theorem lookup_upgrade {slot : Slot} {m : Members} {old new : Text}
    (h : ∀ e ∈ m, slot.newKey m e.1 = new ↔ e.1 = old) :
    member? (upgradeMembers slot m m) new =
      (member? m old).map fun v => slot.newValue old (upgrade (slot.child m old) v) := by
  rw [upgradeMembers_eq_map]
  exact lookup_map_keys (g := fun key v => slot.newValue key (upgrade (slot.child m key) v)) h

theorem lookup_upgrade_eq_none {slot : Slot} {m : Members} {key : Text}
    (h : ∀ e ∈ m, slot.newKey m e.1 ≠ key) : member? (upgradeMembers slot m m) key = none := by
  rw [upgradeMembers_eq_map]
  refine List.lookup_eq_none_iff.2 fun e he => ?_
  obtain ⟨e, hm, rfl⟩ := List.mem_map.1 he
  exact bne_iff_ne.2 (h e hm).symm

/-- The member under a key that stays, where its value does. -/
theorem member_upgrade {slot : Slot} {m : Members} {key : Text}
    (keys : ∀ e ∈ m, slot.newKey m e.1 = key ↔ e.1 = key)
    (value : ∀ v, slot.newValue key v = v) :
    member (upgradeMembers slot m m) key = upgrade (slot.child m key) (member m key) := by
  unfold member
  rw [lookup_upgrade keys]
  cases member? m key with
  | none => rfl
  | some v => exact value _

theorem ne_of_member?_eq_none {m : Members} {key : Text} (h : member? m key = none) :
    ∀ e ∈ m, e.1 ≠ key := by
  intro e he hk
  have found := List.lookup_eq_none_iff.1 h e he
  rw [hk] at found
  exact absurd found (by simp)

/-! ## What holds everywhere -/

mutual

/-- Whether all objects of a value are as is expected of what they are taken for. -/
def everywhere (check : Slot → Members → Bool) (slot : Slot) : Value → Bool
  | .array items => everywhereIn check slot.item items
  | .object m => check slot.node m && everywhereBelow check slot.node m m
  | _ => true

def everywhereIn (check : Slot → Members → Bool) (slot : Slot) : List Value → Bool
  | [] => true
  | item :: rest => everywhere check slot item && everywhereIn check slot rest

/-- The same for the members of a node. -/
def everywhereBelow (check : Slot → Members → Bool) (slot : Slot) (node : Members) :
    List (Text × Value) → Bool
  | [] => true
  | (key, v) :: rest =>
    everywhere check (slot.child node key) v && everywhereBelow check slot node rest

end

section

variable {check : Slot → Members → Bool} {slot : Slot}

theorem everywhere_item {items : List Value} (h : everywhere check slot (.array items))
    {item : Value} (hi : item ∈ items) : everywhere check slot.item item := by
  have each : everywhereIn check slot.item items := h
  clear h
  induction items with
  | nil => cases hi
  | cons first rest ih =>
    simp only [everywhereIn, Bool.and_eq_true] at each
    rcases List.mem_cons.1 hi with rfl | hi
    · exact each.1
    · exact ih hi each.2

theorem check_of_everywhere {m : Members} (h : everywhere check slot (.object m)) :
    check slot.node m := by
  rw [everywhere, Bool.and_eq_true] at h
  exact h.1

private theorem everywhere_of_mem {node m : Members} (h : everywhereBelow check slot node m)
    {e : Text × Value} (he : e ∈ m) : everywhere check (slot.child node e.1) e.2 := by
  induction m with
  | nil => cases he
  | cons first rest ih =>
    simp only [everywhereBelow, Bool.and_eq_true] at h
    rcases List.mem_cons.1 he with rfl | he
    · exact h.1
    · exact ih h.2 he

theorem everywhere_entry {m : Members} (h : everywhere check slot (.object m)) {e : Text × Value}
    (he : e ∈ m) : everywhere check (slot.node.child m e.1) e.2 := by
  rw [everywhere, Bool.and_eq_true] at h
  exact everywhere_of_mem h.2 he

end

end Document

end DocShape
