import DocShape.Proofs.Document.Twins
import DocShape.Proofs.Json.Renumbering

/-!
Nodes in which ids have other numbers. Where a document does not display ids (`Clean`), its names, kinds,
comments and flags are read as before; the nodes inside are the same ones, renumbered.
-/

namespace DocShape.Document

open Json

/-! ## Documents that do not display ids -/

/-- The keys of what is displayed: names, literal values and the texts of comments. -/
def textKeys : List Text :=
  [Text.ofString "name", Text.ofString "qualifiedName", Text.ofString "value",
    Text.ofString "shortText", Text.ofString "text", Text.ofString "returns"]

/-- An id is no truth value, and what is displayed holds no other values. -/
def fitsKey (key : Text) (v : Value) : Bool :=
  if isIdKey key then
    match v with
    | .bool _ => false
    | _ => true
  else !(textKeys.contains key && v.isContainer)

mutual

/-- Whether everything inside a value fits the key that it stands under. -/
def hidesIds : Value → Bool
  | .array items => hidesIdsItems items
  | .object members => hidesIdsMembers members
  | _ => true

def hidesIdsItems : List Value → Bool
  | [] => true
  | item :: rest => hidesIds item && hidesIdsItems rest

def hidesIdsMembers : List (Text × Value) → Bool
  | [] => true
  | (key, v) :: rest => fitsKey key v && hidesIds v && hidesIdsMembers rest

end

/-- A value that hides its ids, and in which no object repeats a key. -/
def Clean (v : Value) : Prop := v.hasDistinctKeys ∧ hidesIds v

namespace Clean

variable {m : Members}

theorem item {items : List Value} (h : Clean (.array items)) {item : Value} (hi : item ∈ items) :
    Clean item := by
  refine ⟨distinctKeysInItems_iff.1 h.1 item hi, ?_⟩
  have hides : hidesIdsItems items := h.2
  clear h
  induction items with
  | nil => cases hi
  | cons first rest ih =>
    simp only [hidesIdsItems, Bool.and_eq_true] at hides
    rcases List.mem_cons.1 hi with rfl | hi
    · exact hides.1
    · exact ih hi hides.2

theorem entry (h : Clean (.object m)) {e : Text × Value} (he : e ∈ m) :
    Clean e.2 ∧ fitsKey e.1 e.2 := by
  have distinct := (distinctKeysInMembers_iff.1 h.1).2 e he
  have hides : hidesIdsMembers m := h.2
  clear h
  induction m with
  | nil => cases he
  | cons first rest ih =>
    simp only [hidesIdsMembers, Bool.and_eq_true] at hides
    rcases List.mem_cons.1 he with rfl | he
    · exact ⟨⟨distinct, hides.1.2⟩, hides.1.1⟩
    · exact ih he hides.2

theorem keys (h : Clean (.object m)) : (Table.keys m).Nodup := (distinctKeysInMembers_iff.1 h.1).1

theorem member? (h : Clean (.object m)) {key : Text} {v : Value} (hv : Json.member? m key = some v) :
    Clean v ∧ fitsKey key v := by
  obtain ⟨before, after, rfl, -⟩ := List.lookup_eq_some_iff.1 hv
  exact h.entry (List.mem_append_right before (List.mem_cons_self ..))

theorem member (h : Clean (.object m)) (key : Text) : Clean (Json.member m key) := by
  unfold Json.member
  cases hv : Json.member? m key with
  | none => exact ⟨rfl, rfl⟩
  | some v => exact (h.member? hv).1

/-- What is displayed of a node holds no other values. -/
theorem plain (h : Clean (.object m)) {key : Text} (hkey : key ∈ textKeys) :
    (Json.member m key).isContainer = false := by
  unfold Json.member
  cases hv : Json.member? m key with
  | none => rfl
  | some v =>
    have other : ∀ key ∈ textKeys, isIdKey key = false := by decide
    have fits := (h.member? hv).2
    unfold fitsKey at fits
    rw [other key hkey, if_neg Bool.false_ne_true] at fits
    simpa [hkey] using fits

theorem ne_bool (h : Clean (.object m)) {key : Text} (hkey : isIdKey key) (b : Bool) :
    Json.member? m key ≠ some (.bool b) := by
  intro hv
  have fits := (h.member? hv).2
  unfold fitsKey at fits
  rw [if_pos hkey] at fits
  cases fits

end Clean

/-! ## Members with new numbers -/

section

variable {f : Int → Int} {m : Members}

theorem renumberMembers_eq_map (f : Int → Int) (m : Members) :
    Value.renumberMembers f m = m.map fun e => (e.1, e.2.renumber f (isIdKey e.1)) := by
  induction m with
  | nil => rfl
  | cons e rest ih => rw [Value.renumberMembers, ih, List.map_cons]

theorem keys_renumberMembers (f : Int → Int) (m : Members) :
    (Value.renumberMembers f m).map (·.1) = m.map (·.1) := by
  rw [renumberMembers_eq_map, List.map_map]
  rfl

theorem member?_renumber (key : Text) : member? (Value.renumberMembers f m) key =
    (member? m key).map (Value.renumber f (isIdKey key)) := by
  unfold member? Table.get?
  induction m with
  | nil => rfl
  | cons e rest ih =>
    obtain ⟨k, v⟩ := e
    rw [Value.renumberMembers, List.lookup_cons, List.lookup_cons, ih]
    by_cases hk : key = k
    · simp [hk]
    · simp [beq_eq_false_iff_ne.2 hk]

theorem member_renumber (key : Text) (hkey : isIdKey key = false) :
    member (Value.renumberMembers f m) key = (member m key).renumber f false := by
  unfold member
  rw [member?_renumber, hkey]
  cases member? m key <;> rfl

/-- What is displayed stays. -/
theorem Clean.member_renumber (h : Clean (.object m)) (key : Text) (hkey : key ∈ textKeys) :
    Json.member (Value.renumberMembers f m) key = Json.member m key := by
  have other : ∀ key ∈ textKeys, isIdKey key = false := by decide
  rw [Document.member_renumber key (other key hkey), Value.renumber_of_not_isContainer (h.plain hkey)]

theorem object?_renumber (key : Text) (hkey : isIdKey key = false) :
    object? (Value.renumberMembers f m) key = (object? m key).map (Value.renumberMembers f) := by
  unfold object?
  rw [member_renumber key hkey]
  cases member m key <;> rfl

@[simp] theorem isText_renumber (t : Text) (v : Value) :
    (v.renumber f false).isText t = v.isText t := by
  cases v <;> rfl

/-- An id that is no truth value has its new number. -/
theorem ofValue?_renumber {v : Value} (h : ∀ b, v ≠ .bool b) :
    Id.ofValue? (v.renumber f true) = (Id.ofValue? v).map fun i => .integer (f i.number) := by
  cases v with
  | bool b => exact absurd rfl (h b)
  | _ => rfl

end

/-! ## Nodes with new numbers -/

/-- A node, and the same node with new numbers. -/
def Renumbered (f : Int → Int) (m m' : Members) : Prop :=
  Clean (.object m) ∧ m' = Value.renumberMembers f m

section

variable {f : Int → Int}

theorem bothObjects_renumber {v : Value} (h : Clean v) :
    BothObjects (Renumbered f) v (v.renumber f false) := by
  cases v with
  | object m => exact .some ⟨h, rfl⟩
  | _ => exact .none

theorem listed_renumber {v : Value} (h : Clean v) :
    Listed (Renumbered f) v (v.renumber f false) := by
  cases v with
  | array items =>
    rw [Value.renumber, Value.renumberItems_eq_map]
    refine listed_array (List.forall₂_map_right_iff.2 (List.forall₂_same.2 fun item hi => ?_))
    exact bothObjects_renumber (h.item hi)
  | object m =>
    have keys := congrArg List.length (keys_renumberMembers f m)
    exact listed_object (by simpa using keys)
  | _ => exact listed_other (by rintro _ ⟨⟩)

theorem listed_member_renumber {m m' : Members} (h : Renumbered f m m') {key : Text}
    (hkey : isIdKey key = false) : Listed (Renumbered f) (member m key) (member m' key) := by
  rw [h.2, member_renumber _ hkey]
  exact listed_renumber (h.1.member key)

/-! ## What is read of them -/

theorem joinParts_renumber {v : Value} (h : Clean v) :
    joinParts (v.renumber f false) = joinParts v :=
  joinParts_listedBy (listed_renumber h).by fun _ m m' ⟨hm, hm'⟩ => by
    rw [hm', hm.member_renumber _ (by decide)]

theorem returnsTag_renumber {v : Value} (h : Clean v) :
    returnsTag (v.renumber f false) = returnsTag v := by
  refine returnsTag_listedBy (listed_renumber h).by (fun _ m m' ⟨hm, hm'⟩ => ?_)
    fun _ m m' ⟨hm, hm'⟩ => ?_
  · rw [hm', member_renumber _ (by decide), isText_renumber]
  · rw [hm', member_renumber _ (by decide), joinParts_renumber (hm.member _)]

theorem readComment_renumber {v : Value} (h : Clean v) :
    readComment (v.renumber f false) = readComment v := by
  cases v with
  | object raw =>
    have plain : ∀ key ∈ textKeys,
        (member (Value.renumberMembers f raw) key).displayOrEmpty =
          (member raw key).displayOrEmpty := fun key hkey => by rw [h.member_renumber key hkey]
    rw [Value.renumber]
    refine readComment_congr (plain _ (by decide)) (plain _ (by decide)) (plain _ (by decide)) ?_ ?_
    · rw [member_renumber _ (by decide), joinParts_renumber (h.member _)]
    · rw [member_renumber _ (by decide), returnsTag_renumber (h.member _)]
  | _ => rfl

theorem readTypeParameters_renumber {m : Members} (h : Clean (.object m)) :
    readTypeParameters (Value.renumberMembers f m) = readTypeParameters m := by
  have listed : ∀ key, isIdKey key = false →
      ListedBy (fun i => i) (fun _ => Renumbered f) (member m key)
        (member (Value.renumberMembers f m) key) := fun key hkey => by
    rw [member_renumber _ hkey]
    exact (listed_renumber (h.member key)).by
  have name : ∀ (_ : Nat) n n', Renumbered f n n' →
      (member n' "name").display = (member n "name").display := fun _ n n' ⟨hn, hn'⟩ => by
    rw [hn', hn.member_renumber _ (by decide)]
  refine readTypeParameters_listedBy ?_ (listed _ (by decide)) (listed _ (by decide)) name name
  rw [member_renumber _ (by decide), Value.isEmpty_renumber]

theorem readOptional_renumber (m : Members) :
    readOptional (Value.renumberMembers f m) = readOptional m := by
  unfold readOptional
  rw [member_renumber _ (by decide)]
  cases member m "flags" with
  | object flags =>
    simp only [Value.renumber]
    rw [member_renumber _ (by decide), Value.isEmpty_renumber]
  | array items => cases items <;> rfl
  | _ => rfl

theorem kind_read_renumber (numbering : Numbering) (number name : Value) :
    Kind.read numbering (number.renumber f false) (name.renumber f false) =
      Kind.read numbering number name := by
  have named : Kind.namedBy (name.renumber f false) = Kind.namedBy name := by
    cases name with
    | array items => cases items <;> rfl
    | object members => cases members <;> rfl
    | _ => rfl
  have numbered : Kind.integerOf (number.renumber f false) = Kind.integerOf number := by
    cases number <;> rfl
  rw [Kind.read, Kind.read, named, numbered]

/-! ## Inline declarations -/

/-- Two nodes at one address, the second one with new numbers. -/
def RenumberedAt (f : Int → Int) (c c' : Pointer × Members) : Prop :=
  c'.1 = c.1 ∧ Renumbered f c.2 c'.2

theorem inlineDeclaration?_renumber (m : Members) :
    inlineDeclaration? (Value.renumberMembers f m) =
      (inlineDeclaration? m).map (Value.renumberMembers f) := by
  unfold inlineDeclaration?
  rw [member_renumber _ (by decide), isText_renumber, object?_renumber _ (by decide)]
  split <;> rfl

theorem Clean.inlineDeclaration? {m d : Members} (h : Clean (.object m))
    (hd : Document.inlineDeclaration? m = some d) : Clean (.object d) :=
  member_of_inlineDeclaration? hd ▸ h.member "declaration"

/-- What a value holds it also holds with new numbers. -/
private theorem descends_renumber :
    Descends (fun p p' v v' => p' = p ∧ Clean v ∧ ∃ named, v' = v.renumber f named)
      (RenumberedAt f) where
  array := by
    rintro p _ items _ ⟨rfl, clean, named, rfl⟩
    refine ⟨_, rfl, ?_⟩
    rw [Value.renumberItems_eq_map]
    exact .of_forall₂ (List.forall₂_map_right_iff.2 (List.forall₂_same.2 fun item hi _ =>
      ⟨rfl, clean.item hi, false, rfl⟩)) 0
  object := by
    rintro p _ m _ ⟨rfl, clean, named, rfl⟩
    refine ⟨_, rfl, ?_, fun _ => ?_⟩
    · rw [inlineDeclaration?_renumber]
      cases hd : inlineDeclaration? m with
      | none => exact .none
      | some d => exact .some ⟨rfl, clean.inlineDeclaration? hd, rfl⟩
    · rw [renumberMembers_eq_map]
      exact List.forall₂_map_right_iff.2 (List.forall₂_same.2 fun e he =>
        ⟨rfl, (clean.entry he).1, _, rfl⟩)
  plain := by
    rintro p _ v _ hv ⟨-, -, named, rfl⟩
    rwa [Value.isContainer_renumber]

theorem inlineIn_renumber {v : Value} (h : Clean v) (p : Pointer) :
    List.Forall₂ (RenumberedAt f) (inlineIn p v) (inlineIn p (v.renumber f false)) :=
  inlineIn_descends descends_renumber v ⟨rfl, h, false, rfl⟩

end

end DocShape.Document
