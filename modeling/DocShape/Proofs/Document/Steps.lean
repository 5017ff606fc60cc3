import DocShape.Document.Reading
import DocShape.Proofs.Alike
import DocShape.Proofs.Document.Node
import DocShape.Proofs.Json.Keys
import Mathlib.Logic.Function.Defs

/-!
The two passes, one step at a time. Outline and reading descend to smaller nodes; the equations here say
the same without the sizes, and `form` says what a type node is before anything inside it is read.
-/

namespace DocShape.Document

open Json

/-! ## Descending without sizes -/

/-- The objects that a value lists are those among its elements. -/
theorem nodes_eq_elements (v : Value) : nodes v = (elements v).map (objectsFrom 0) := by
  have texts : ∀ (l : List CodePoint) i, objectsFrom i (l.map fun c => .text [c]) = [] := by
    intro l
    induction l with
    | nil => exact fun i => rfl
    | cons c rest ih => exact fun i => ih (i + 1)
  have keys : ∀ (l : Members) i, objectsFrom i (l.map fun m => .text m.1) = [] := by
    intro l
    induction l with
    | nil => exact fun i => rfl
    | cons m rest ih => exact fun i => ih (i + 1)
  unfold elements Value.elementsOrNone?
  cases v with
  | array items => cases items <;> rfl
  | text t => cases t <;> simp [nodes, Value.isEmpty, Value.elements?, Except.map, texts, objectsFrom]
  | object members =>
    cases members <;> simp [nodes, Value.isEmpty, Value.elements?, Except.map, keys, objectsFrom]
  | _ =>
    simp only [nodes, Value.elements?]
    split <;> rfl

section

variable {ν α β : Type} {raw : Members} {key : Text}

private theorem childNodes_bind (f : List (Nat × Members) → Journal ν Fault β) :
    (liftM (childNodes raw key) >>= fun l => f (l.map fun c => (c.1, c.2.1))) =
      liftM (nodes (member raw key)) >>= f := by
  cases h : childNodes raw key with
  | error e =>
    have hn : nodes (member raw key) = .error e := by
      unfold childNodes at h
      split at h
      · rename_i e' he
        cases h
        exact he
      · cases h
    rw [hn]
    rfl
  | ok l =>
    rw [childNodes_ok h]
    rfl

/-- Goes through the objects that a member lists. -/
def eachNode (raw : Members) (key : Text) (f : Nat → Members → Journal ν Fault α) :
    Journal ν Fault (List α) := do
  (← nodes (member raw key)).mapM fun c => f c.1 c.2

private theorem childNodes_mapM (f : Nat → Members → Journal ν Fault α) (g : List α → Journal ν Fault β) :
    (liftM (childNodes raw key) >>= fun l => (l.mapM fun c => f c.1 c.2.1) >>= g) =
      eachNode raw key f >>= g := by
  rw [eachNode, bind_assoc, ← childNodes_bind]
  simp only [List.mapM_map]
  rfl

/-- The outermost inline declarations below the types of a declaration. -/
def inlineAt (origin : Pointer) (raw : Members) : Except Fault (List (Pointer × Members)) :=
  (typeRoots origin raw).map inlineInRoots

/-- Goes through them. -/
def eachInline (origin : Pointer) (raw : Members) (f : Pointer → Members → Journal ν Fault α) :
    Journal ν Fault (List α) := do
  (← inlineAt origin raw).mapM fun c => f c.1 c.2

private theorem inlineNodes_mapM {origin : Pointer} (f : Pointer → Members → Journal ν Fault α)
    (g : List α → Journal ν Fault β) :
    (liftM (inlineNodes origin raw) >>= fun l => (l.mapM fun c => f c.1 c.2.1) >>= g) =
      eachInline origin raw f >>= g := by
  rw [eachInline, bind_assoc]
  unfold inlineAt
  cases h : inlineNodes origin raw with
  | error e =>
    have hr : typeRoots origin raw = .error e := by
      unfold inlineNodes at h
      split at h
      · rename_i e' he
        cases h
        exact he
      · cases h
    rw [hr]
    rfl
  | ok l =>
    obtain ⟨roots, hr, hl⟩ := inlineNodes_ok h
    rw [hr, Except.map, hl]
    show ((l.mapM fun c => f c.1 c.2.1) >>= g) =
      ((l.map fun c => (c.1, c.2.1)).mapM fun c => f c.1 c.2) >>= g
    rw [List.mapM_map]
    rfl

private theorem object?_eq (raw : Members) (key : Text) :
    object? raw key = (childNode? raw key).map Subtype.val := by
  unfold childNode?
  split
  · rename_i h
    exact h
  · rename_i m h
    exact h

private theorem childNode?_mapM (f : Members → Journal ν Fault α) :
    ((childNode? raw key).mapM fun c => f c.1) = (object? raw key).mapM f := by
  rw [object?_eq]
  cases childNode? raw key <;> rfl

/-- The object that a value is. -/
def asObject? : Value → Option Members
  | .object m => some m
  | _ => none

theorem asObject?_of_mem_elements {v item : Value} {items : List Value}
    (other : ∀ items, v ≠ .array items) (h : elements v = .ok items) (hi : item ∈ items) :
    asObject? item = none := by
  unfold elements Value.elementsOrNone? at h
  split at h
  · rename_i found hf
    cases h
    split at hf
    · cases hf
      cases hi
    · cases v with
      | array items => exact absurd rfl (other items)
      | text t =>
        cases hf
        obtain ⟨c, -, rfl⟩ := List.mem_map.1 hi
        rfl
      | object m =>
        cases hf
        obtain ⟨c, -, rfl⟩ := List.mem_map.1 hi
        rfl
      | _ => cases hf
  · cases h

private theorem childElements_eq (raw : Members) (key : Text) :
    (childElements raw key).map (List.map (Option.map Subtype.val)) =
      (elements (member raw key)).map (List.map asObject?) := by
  unfold childElements
  split
  · rename_i items h
    have whole : elements (member raw key) = .ok items := by
      rw [h]
      cases items <;> rfl
    rw [whole, Except.map, Except.map, List.map_map]
    have each := List.attach_map_val (l := items) (f := asObject?)
    rw [← each]
    refine congrArg Except.ok (List.map_congr_left fun item _ => ?_)
    obtain ⟨item, hitem⟩ := item
    cases item <;> rfl
  · rename_i other
    cases h : elements (member raw key) with
    | error e => rfl
    | ok items =>
      rw [Except.map, Except.map, Except.map, List.map_map]
      refine congrArg Except.ok (List.map_congr_left fun item hitem => ?_)
      exact (asObject?_of_mem_elements (fun items' => other items') h hitem).symm

/-- Goes through everything that a member lists, objects and others. -/
def eachElement (raw : Members) (key : Text) (f : Nat → Option Members → Journal ν Fault α) :
    Journal ν Fault (List α) := do
  (← elements (member raw key)).zipIdx.mapM fun c => f c.2 (asObject? c.1)

private theorem childElements_mapM (f : Nat → Option Members → Journal ν Fault α)
    (g : List α → Journal ν Fault β) :
    (liftM (childElements raw key) >>= fun l =>
        (l.zipIdx.mapM fun c => f c.2 (c.1.map (·.1))) >>= g) = eachElement raw key f >>= g := by
  rw [eachElement, bind_assoc]
  have same := childElements_eq raw key
  cases h : childElements raw key with
  | error e =>
    rw [h] at same
    cases he : elements (member raw key) with
    | error e' =>
      rw [he] at same
      cases same
      rfl
    | ok items =>
      rw [he] at same
      cases same
  | ok l =>
    rw [h] at same
    cases he : elements (member raw key) with
    | error e' =>
      rw [he] at same
      cases same
    | ok items =>
      rw [he] at same
      have lists : l.map (Option.map Subtype.val) = items.map asObject? := Except.ok.inj same
      have indexed := congrArg (fun l => (l.zipIdx.mapM fun c => f c.2 c.1) >>= g) lists
      simp only [List.zipIdx_map, List.mapM_map] at indexed
      exact indexed

end

/-! ## Outlines -/

section

variable (numbering : Numbering) (parent : Option Site) (origin : Pointer) (raw : Members)

theorem outline_eq : outline numbering parent origin raw = do
    let header ← Header.read numbering raw
    let site : Site := ⟨origin, header.segment :: Creation.placeIn parent⟩
    Journal.note ⟨site, parent⟩
    let children ← eachNode raw "children" fun i m =>
      outline numbering (some site) (.index i :: .key "children" :: origin) m
    let inlined ← eachInline origin raw fun p m => outline numbering (some site) p m
    return { creation := ⟨site, parent⟩, header, children, inlined } := by
  rw [outline]
  refine bind_congr fun header => bind_congr fun _ => ?_
  refine (childNodes_mapM (fun i m => outline numbering _ (.index i :: .key "children" :: origin) m)
    _).trans (bind_congr fun children => ?_)
  exact inlineNodes_mapM (fun p m => outline numbering _ p m) _

end

/-! ## Declarations, signatures and parameters -/

section

variable (setting : Setting)

/-- Reads the type that a member is. -/
def readTypeOf (address : Pointer) (raw : Members) : Filling (Option TypeNode) :=
  (object? raw "type").mapM (readType setting (.key "type" :: address))

theorem readDeclaration_eq (origin : Pointer) (raw : Members) :
    readDeclaration setting origin raw = do
      let d ← enter setting origin
      let comment ← readComment (member raw "comment")
      let type ← readTypeOf setting origin raw
      let typeParameters ← readTypeParameters raw
      let signatures ← eachNode raw "signatures" fun i m =>
        readSignature setting (.index i :: .key "signatures" :: origin) m
      let children ← eachNode raw "children" fun i m =>
        readDeclaration setting (.index i :: .key "children" :: origin) m
      return { d with comment, typeParameters, type, signatures, children } := by
  rw [readDeclaration]
  refine bind_congr fun d => bind_congr fun comment => ?_
  refine (congrArg (· >>= _) (childNode?_mapM (readType setting (.key "type" :: origin)))).trans ?_
  refine bind_congr fun type => bind_congr fun typeParameters => ?_
  refine (childNodes_mapM
    (fun i m => readSignature setting (.index i :: .key "signatures" :: origin) m) _).trans ?_
  refine bind_congr fun signatures => ?_
  exact childNodes_mapM
    (fun i m => readDeclaration setting (.index i :: .key "children" :: origin) m) _

/-- Reads a parameter, where there is an object that could be one. -/
def readParameterAt (address : Pointer) (i : Nat) (o : Option Members) : Filling Parameter :=
  match o with
  | some m => readParameter setting (.index i :: .key "parameters" :: address) m
  | none => Journal.fail .notAnObject

theorem readSignature_eq (address : Pointer) (raw : Members) :
    readSignature setting address raw = do
      let parameters ← eachElement raw "parameters" (readParameterAt setting address)
      let type ← readTypeOf setting address raw
      let comment ← readComment (member raw "comment")
      return { name := (member raw "name").displayOrEmpty, parameters, type, comment } := by
  rw [readSignature, ← childElements_mapM (readParameterAt setting address)]
  refine bind_congr fun l => ?_
  refine (congrArg (fun f => l.zipIdx.mapM f >>= _) (funext fun c => ?_)).trans
    (bind_congr fun parameters => ?_)
  · obtain ⟨o, i⟩ := c
    cases o <;> rfl
  · exact congrArg (· >>= _) (childNode?_mapM (readType setting (.key "type" :: address)))

theorem readParameter_eq (address : Pointer) (raw : Members) :
    readParameter setting address raw = do
      let type ← readTypeOf setting address raw
      let comment ← readComment (member raw "comment")
      let isOptional ← readOptional raw
      return { name := (member raw "name").displayOrEmpty, type, comment, isOptional } := by
  rw [readParameter]
  exact congrArg (· >>= _) (childNode?_mapM (readType setting (.key "type" :: address)))

end

/-! ## Types -/

/-- The categories that only list other types. -/
inductive Group
  | tuple
  | union
  | intersection

namespace Group

/-- The member that lists the types. -/
def key : Group → Text
  | tuple => "elements"
  | union | intersection => "types"

def node : Group → List TypeNode → TypeNode
  | tuple => .tuple
  | union => .union
  | intersection => .intersection

end Group

/-- What kind of type node a node is. -/
inductive Category
  | intrinsic
  | literal (value : Text)
  | array
  | group (g : Group)
  | typeParameter
  | reference
  | inline
  /-- What is not modelled. -/
  | other

/-- Whether types of a category show their names. -/
def Category.showsName : Category → Bool
  | intrinsic | typeParameter | reference => true
  | _ => false

def categoryOf (node : Members) : Category :=
  let category := (member node "type").displayOrEmpty
  if category = "intrinsic" then .intrinsic
  else if let some value := stringLiteral? category node then .literal value
  else if category = "array" then .array
  else if category = "tuple" then .group .tuple
  else if category = "union" then .group .union
  else if category = "intersection" then .group .intersection
  else if category = "typeParameter" then .typeParameter
  else if category = "reference" then .reference
  else if category = "reflection" then .inline
  else .other

/-- What is spelled out of a list or an object starts with a bracket, and so it is no word. -/
theorem display_ne {v : Value} (h : v.isContainer) {w : Text}
    (hw : w.head?.any CodePoint.isAsciiLetter) : v.display ≠ w := by
  rintro rfl
  cases v with
  | array items => cases hw
  | object members => cases hw
  | _ => cases h

/-- Only literals are string literals. -/
theorem stringLiteral?_eq_none {category : Text} {node : Members} (h : category ≠ "stringLiteral")
    (h' : category ≠ "literal") : stringLiteral? category node = none := by
  unfold stringLiteral?
  rw [if_neg h]
  split
  · exact if_neg h'
  · rfl

/-- A list or an object names no category that is modelled. -/
theorem categoryOf_of_isContainer {m : Members} (h : (member m "type").isContainer) :
    categoryOf m = .other := by
  have other : ∀ {w : Text}, w.head?.any CodePoint.isAsciiLetter →
      (member m "type").displayOrEmpty ≠ w := by
    intro w hw
    unfold Value.displayOrEmpty
    split
    · rintro rfl
      cases hw
    · exact display_ne h hw
  unfold categoryOf
  dsimp only
  rw [stringLiteral?_eq_none (other (by decide)) (other (by decide))]
  iterate 8 rw [if_neg (other (by decide))]

/-- What names the category of a node that is an inline declaration or a reference. -/
theorem type_of_categoryOf {m : Members} :
    (categoryOf m = .inline → (member m "type").displayOrEmpty = "reflection") ∧
      (categoryOf m = .reference → (member m "type").displayOrEmpty = "reference") := by
  unfold categoryOf
  dsimp only
  split
  · exact ⟨by rintro ⟨⟩, by rintro ⟨⟩⟩
  split
  · exact ⟨by rintro ⟨⟩, by rintro ⟨⟩⟩
  iterate 5
    split
    · exact ⟨by rintro ⟨⟩, by rintro ⟨⟩⟩
  split
  · rename_i h
    exact ⟨by rintro ⟨⟩, fun _ => h⟩
  split
  · rename_i h
    exact ⟨fun _ => h, by rintro ⟨⟩⟩
  · exact ⟨by rintro ⟨⟩, by rintro ⟨⟩⟩

theorem categoryOf_of_stringLiteral {m : Members}
    (h : (member m "type").displayOrEmpty = Text.ofString "stringLiteral") :
    categoryOf m = .literal (member m "value").display := by
  unfold categoryOf
  dsimp only
  rw [h]
  rfl

theorem categoryOf_congr {m m' : Members} (type : member m' "type" = member m "type")
    (value : member m' "value" = member m "value") : categoryOf m' = categoryOf m := by
  unfold categoryOf stringLiteral?
  rw [type, value]

/-- A node as one that is not modelled. -/
def sourceNode (node : Members) : TypeNode := unmodelled (member node "type").displayOrEmpty node

/-- A type node before anything inside it is read. -/
inductive Form
  /-- Nothing is read inside. -/
  | leaf (t : TypeNode)
  | array (element : Members)
  | group (g : Group)
  | reference
  | inline (declaration : Members)

def form (node : Members) : Form :=
  match categoryOf node with
  | .intrinsic => .leaf (.intrinsic (member node "name").display)
  | .literal value => .leaf (.stringLiteral value)
  | .array => (object? node "elementType").elim (.leaf (sourceNode node)) .array
  | .group g => .group g
  | .typeParameter => .leaf (.typeParameter (member node "name").display)
  | .reference => .reference
  | .inline => (object? node "declaration").elim (.leaf (sourceNode node)) .inline
  | .other => .leaf (sourceNode node)

section

variable {node m : Members}

theorem object?_of_form_array (h : form node = .array m) :
    object? node "elementType" = some m := by
  unfold form at h
  cases hc : categoryOf node with
  | array =>
    rw [hc] at h
    cases ho : object? node "elementType" with
    | none =>
      rw [ho] at h
      cases h
    | some n =>
      rw [ho] at h
      exact congrArg some (Form.array.inj h)
  | inline =>
    rw [hc] at h
    cases ho : object? node "declaration" <;> rw [ho] at h <;> cases h
  | _ =>
    rw [hc] at h
    cases h

theorem form_eq_inline_iff :
    form node = .inline m ↔ categoryOf node = .inline ∧ object? node "declaration" = some m := by
  constructor
  · intro h
    unfold form at h
    cases hc : categoryOf node with
    | inline =>
      rw [hc] at h
      cases ho : object? node "declaration" with
      | none =>
        rw [ho] at h
        cases h
      | some n =>
        rw [ho] at h
        exact ⟨rfl, congrArg some (Form.inline.inj h)⟩
    | array =>
      rw [hc] at h
      cases ho : object? node "elementType" <;> rw [ho] at h <;> cases h
    | _ =>
      rw [hc] at h
      cases h
  · rintro ⟨hc, ho⟩
    rw [form, hc, ho]
    rfl

theorem object?_of_form_inline (h : form node = .inline m) :
    object? node "declaration" = some m :=
  (form_eq_inline_iff.1 h).2

end

/-- Reads the types that a member of a node lists. -/
def readListed (setting : Setting) (address : Pointer) (node : Members) (key : Text) :
    Filling (List TypeNode) :=
  eachNode node key fun i m => readType setting (.index i :: .key key :: address) m

theorem readType_eq (setting : Setting) (address : Pointer) (node : Members) :
    readType setting address node =
      match form node with
      | .leaf t => pure t
      | .array element => .array <$> readType setting (.key "elementType" :: address) element
      | .group g => g.node <$> readListed setting address node g.key
      | .reference => do
        let arguments ← readListed setting address node "typeArguments"
        return .reference (member node "name").display arguments (member node "qualifiedName")
          (setting.target? node)
      | .inline d => .inline <$> readDeclaration setting (.key "declaration" :: address) d := by
  have listed : ∀ key, (liftM (childNodes node key) >>= fun l =>
      l.mapM fun c => readType setting (.index c.1 :: .key key :: address) c.2.1) =
      readListed setting address node key := by
    intro key
    have h : (liftM (childNodes node key) >>= fun l => (l.mapM fun c =>
        readType setting (.index c.1 :: .key key :: address) c.2.1) >>= pure) =
        readListed setting address node key >>= pure :=
      childNodes_mapM (fun i m => readType setting (.index i :: .key key :: address) m) pure
    simpa only [bind_pure] using h
  rw [readType, form, categoryOf]
  cases literal : stringLiteral? (member node "type").displayOrEmpty node with
  | some value =>
    dsimp only
    split <;> rfl
  | none =>
  dsimp only
  split
  · rfl
  split
  · rw [object?_eq node "elementType"]
    cases childNode? node "elementType" <;> rfl
  split
  · exact congrArg _ (listed _)
  split
  · exact congrArg _ (listed _)
  split
  · exact congrArg _ (listed _)
  split
  · rfl
  split
  · exact congrArg (· >>= _) (listed _)
  split
  · rw [object?_eq node "declaration"]
    cases childNode? node "declaration" <;> rfl
  · rfl

end DocShape.Document
