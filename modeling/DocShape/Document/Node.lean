import DocShape.Declaration.Graph
import DocShape.Json.Display

/-!
# Nodes of a document

What a document holds is read from its objects, which need not be well formed. A node is an object
with its position among its siblings.

* `Document.nodes` lists the objects that a value holds; what is no object is passed over
  (`Document.mem_nodes`);
* `Document.Header.read` reads the name, kind and flags of a declaration;
* `Document.readComment` reads a comment in its older form (texts) and its newer one (parts and tags).

The lemmas say that nodes are smaller than the object they are found in.
-/

namespace DocShape.Document

open Json

/-- Why a document cannot be read. -/
inductive Fault
  /-- A member is read from a value that is no object. -/
  | notAnObject
  /-- A value is listed that holds nothing. -/
  | notListable
  /-- The kind of a declaration cannot be read. -/
  | kind (e : Kind.ReadError)
  /-- A declaration is read that has not been created. -/
  | unregistered
  deriving DecidableEq, Repr

/-! ## Lists of nodes -/

/-- What a value lists; a missing value lists nothing. -/
def elements (v : Value) : Except Fault (List Value) :=
  match v.elementsOrNone? with
  | some items => .ok items
  | none => .error .notListable

/-- The objects among some values, numbered from `i`. -/
def objectsFrom : Nat → List Value → List (Nat × Members)
  | _, [] => []
  | i, .object members :: rest => (i, members) :: objectsFrom (i + 1) rest
  | i, _ :: rest => objectsFrom (i + 1) rest

/-- The objects that a value lists, each with its position. Text and the keys of an object list no
objects. -/
def nodes : Value → Except Fault (List (Nat × Members))
  | .array items => .ok (objectsFrom 0 items)
  | .text _ => .ok []
  | .object _ => .ok []
  | v => if v.isEmpty then .ok [] else .error .notListable

theorem mem_objectsFrom_iff {i k : Nat} {m : Members} {items : List Value} :
    (i, m) ∈ objectsFrom k items ↔ (.object m, i) ∈ items.zipIdx k := by
  induction items generalizing k with
  | nil => simp [objectsFrom]
  | cons item rest ih =>
    rw [List.zipIdx_cons, List.mem_cons, ← ih]
    cases item <;> simp [objectsFrom, and_comm]

/-- Only arrays list objects. -/
theorem nodes_ok {v : Value} {list : List (Nat × Members)} (h : nodes v = .ok list) :
    list = [] ∨ ∃ items, v = .array items ∧ list = objectsFrom 0 items := by
  unfold nodes at h
  split at h
  · cases h
    exact Or.inr ⟨_, rfl, rfl⟩
  · cases h
    exact Or.inl rfl
  · cases h
    exact Or.inl rfl
  · split at h <;> cases h
    exact Or.inl rfl

theorem mem_nodes {v : Value} {list : List (Nat × Members)} (h : nodes v = .ok list) {i : Nat}
    {m : Members} (hm : (i, m) ∈ list) :
    ∃ items, v = .array items ∧ items[i]? = some (.object m) := by
  rcases nodes_ok h with rfl | ⟨items, rfl, rfl⟩
  · cases hm
  · exact ⟨items, rfl, List.mk_mem_zipIdx_iff_getElem?.1 (mem_objectsFrom_iff.1 hm)⟩

/-- The member of an object that is an object itself. -/
def object? (raw : Members) (key : Text) : Option Members :=
  match member raw key with
  | .object members => some members
  | _ => none

/-! ## Sizes -/

theorem sizeOf_get?_lt {raw : Members} {key : Text} {v : Value} (h : member? raw key = some v) :
    sizeOf v < sizeOf raw := by
  unfold member? Table.get? at h
  induction raw with
  | nil => simp at h
  | cons entry rest ih =>
    obtain ⟨k, w⟩ := entry
    rw [List.lookup_cons] at h
    split at h
    · cases h
      simp only [List.cons.sizeOf_spec, Prod.mk.sizeOf_spec]
      omega
    · have := ih h
      simp only [List.cons.sizeOf_spec]
      omega

theorem sizeOf_object?_lt {raw members : Members} {key : Text} (h : object? raw key = some members) :
    sizeOf members < sizeOf raw := by
  unfold object? member at h
  cases hv : member? raw key with
  | none => simp [hv] at h
  | some v =>
    have := sizeOf_get?_lt hv
    cases v <;> simp_all
    omega

theorem sizeOf_lt_of_mem_nodes {raw : Members} {key : Text} {list : List (Nat × Members)}
    (h : nodes (member raw key) = .ok list) {i : Nat} {members : Members} (hm : (i, members) ∈ list) :
    sizeOf members < sizeOf raw := by
  obtain ⟨items, hv, hi⟩ := mem_nodes h hm
  unfold member at hv
  cases hraw : member? raw key with
  | none => simp [hraw] at hv
  | some v =>
    obtain rfl : v = .array items := by simpa [hraw] using hv
    have below := sizeOf_get?_lt hraw
    have inside := List.sizeOf_lt_of_mem (List.mem_of_getElem? hi)
    simp only [Value.array.sizeOf_spec, Value.object.sizeOf_spec] at below inside
    omega

/-! ## Headers -/

/-- What is known of a declaration before its types are read. -/
structure Header where
  id : Option Id
  segment : Segment
  isOptional : Bool
  deriving DecidableEq, Repr

/-- Whether the flags of an object mark it as optional. -/
def readOptional (raw : Members) : Except Fault Bool :=
  match member raw "flags" with
  | .object flags => .ok !(member flags "isOptional").isEmpty
  | v => if v.isEmpty then .ok false else .error .notAnObject

def Header.read (numbering : Numbering) (raw : Members) : Except Fault Header := do
  let kind ← (Kind.read numbering (member raw "kind") (member raw "kindString")).mapError Fault.kind
  let isOptional ← readOptional raw
  return ⟨Id.ofValue? (member raw "id"), ⟨(member raw "name").displayOrEmpty, kind⟩, isOptional⟩

/-! ## Comments -/

/-- The texts of some parts, joined. -/
def joinParts (parts : Value) : Except Fault Text := do
  let parts ← nodes parts
  return parts.flatMap fun (_, part) => (member part "text").displayOrEmpty

/-- The content of the first tag for the return value. -/
def returnsTag (tags : Value) : Except Fault Text := do
  let tags ← nodes tags
  match tags.find? fun (_, tag) => (member tag "tag").isText "@returns" with
  | some (_, tag) => joinParts (member tag "content")
  | none => return []

def readComment (v : Value) : Except Fault (Option Comment) :=
  match v with
  | .object raw => do
    let short := (member raw "shortText").displayOrEmpty
    let summary ← (if short.isEmpty then joinParts (member raw "summary") else .ok short)
    let plain := (member raw "returns").displayOrEmpty
    let returns ← (if plain.isEmpty then returnsTag (member raw "blockTags") else .ok plain)
    return some ⟨summary, (member raw "text").displayOrEmpty, returns⟩
  | _ => return none

end DocShape.Document
