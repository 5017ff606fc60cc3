import DocShape.Proofs.Alike
import DocShape.Proofs.Conversion.Calls
import DocShape.Proofs.Shape.FixedArray
import DocShape.Proofs.Shape.Parts

/-!
Declarations of objects, in place and by themselves. An object gets its comment and its flag before it is looked
at as an array, and a declaration by itself gets them once more at the end. So both ways give one shape, but for
arrays: in place these have neither a comment nor a flag (`convert_inPlace`, `array_loses_comment`).
-/

namespace DocShape

open Link (Resolver)

variable {resolver : Resolver} {d : Declaration} {form : ObjectForm}

/-! ## Equations -/

/-- A declaration is converted as its type, or as one in place. -/
theorem convert_eq (resolver : Resolver) (d : Declaration) :
    convert resolver d =
      attach resolver d <$> convertType resolver .elsewhere d (d.type.getD (.inline d)) := by
  have declaration : convert resolver d =
      (once resolver (.ofConversion resolver)).declaration d := by
    rw [once_ofConversion]
    rfl
  rw [declaration, map_eq_pure_bind]
  rfl

/-- An object is made from its properties. -/
theorem convertBody_object (hk : ObjectForm.ofKind? d.kind = some form) (ht : d.type = none)
    (hs : d.signatures = []) :
    convertBody resolver d = (fun properties => some (objectShape resolver d form properties)) <$>
      d.children.mapM (Answers.ofConversion resolver).property := by
  have body : convertBody resolver d = (once resolver (.ofConversion resolver)).body d := by
    rw [once_ofConversion]
    rfl
  rw [body, map_eq_pure_bind]
  dsimp only [once]
  rw [ht, hs, List.map_nil, hk]

theorem convertType_inline_object (hk : ObjectForm.ofKind? d.kind = some form) (ht : d.type = none)
    (hs : d.signatures = []) (position : Position) (owner : Declaration) :
    convertType resolver position owner (.inline d) = objectShape resolver d form <$>
      d.children.mapM (Answers.ofConversion resolver).property := by
  rw [convertType, convertBody_object hk ht hs, bind_map_left, map_eq_pure_bind]
  rfl

/-! ## Labels -/

/-- The comment of a declaration and its flag. -/
def ownLabel (resolver : Resolver) (d : Declaration) : Label :=
  { comment := Link.commentText resolver (some d.place) d.comment, optional := d.isOptional }

/-- The object with the given properties, under its own label. -/
def ownObject (resolver : Resolver) (d : Declaration) (form : ObjectForm) (properties : List Shape) :
    Shape :=
  .object (ownLabel resolver d) form (some properties) (presentList d.typeParameters)

theorem attach_eq_withLabel {s : Shape} (h : s.label = {}) :
    attach resolver d s = s.withLabel (ownLabel resolver d) := by
  simp [attach, h, ownLabel]

theorem attach_attach (s : Shape) : attach resolver d (attach resolver d s) = attach resolver d s := by
  simp [attach, ← Option.or_assoc]

theorem objectShape_eq_getD (properties : List Shape) : objectShape resolver d form properties =
    (ownObject resolver d form properties).fixedArray?.getD (ownObject resolver d form properties) := by
  rw [objectShape, attach_eq_withLabel rfl]
  rfl

/-- What an object is shown as in place, and by itself. -/
inductive ShownTwice (resolver : Resolver) (d : Declaration) (form : ObjectForm)
    (properties : List Shape) : Shape → Shape → Prop
  /-- An object that stands for no array has its label both times. -/
  | object : (ownObject resolver d form properties).fixedArray? = none →
    ShownTwice resolver d form properties (ownObject resolver d form properties)
      (ownObject resolver d form properties)
  /-- The array that it stands for has no label in place, and by itself that of the object. -/
  | array {element : Shape} {length : Nat} : form = .literal →
    (ownObject resolver d form properties).fixedArray? =
      some (.array {} (some element) (some length) (some length)) →
    ShownTwice resolver d form properties (.array {} (some element) (some length) (some length))
      (.array (ownLabel resolver d) (some element) (some length) (some length))

theorem shownTwice_objectShape (properties : List Shape) :
    ShownTwice resolver d form properties (objectShape resolver d form properties)
      (attach resolver d (objectShape resolver d form properties)) := by
  rw [objectShape_eq_getD]
  cases hf : (ownObject resolver d form properties).fixedArray? with
  | none =>
    have object : ownObject resolver d form properties =
        attach resolver d (.object {} form (some properties) (presentList d.typeParameters)) := by
      rw [attach_eq_withLabel rfl]
      rfl
    rw [Option.getD_none, object, attach_attach, ← object]
    exact .object hf
  | some t =>
    obtain ⟨_, first, rest, _, ho, -, -, rfl⟩ := Shape.fixedArray?_eq_some hf
    cases ho
    rw [Option.getD_some, attach_eq_withLabel rfl]
    exact .array rfl hf

/-- They are the same but for an array that has lost its label. -/
theorem ShownTwice.eq_iff {properties : List Shape} {shown own : Shape}
    (h : ShownTwice resolver d form properties shown own) :
    own = shown ↔ (ownObject resolver d form properties).fixedArray? = none ∨ ownLabel resolver d = {} := by
  cases h with
  | object hf => exact ⟨fun _ => Or.inl hf, fun _ => rfl⟩
  | array _ hf =>
    rw [hf]
    simp

theorem ShownTwice.label_eq {properties : List Shape} {shown own : Shape}
    (h : ShownTwice resolver d form properties shown own) : own.label = ownLabel resolver d := by
  cases h <;> rfl

/-- An object is converted in place just where it is by itself. By itself it has its comment and its flag; in
place it has them unless it becomes an array, and so both are the same shape unless an array has some to lose. -/
theorem convert_inPlace (resolver : Resolver) {d : Declaration} {form : ObjectForm}
    (hk : ObjectForm.ofKind? d.kind = some form) (ht : d.type = none) (hs : d.signatures = [])
    (position : Position) (owner : Declaration) :
    Alike (fun shown own => own.label = ownLabel resolver d ∧ ∃ properties,
        (convertProperties resolver d.children).outcome = .ok properties ∧
        ShownTwice resolver d form properties shown own ∧
        (own = shown ↔ (ownObject resolver d form properties).fixedArray? = none ∨
          ownLabel resolver d = {}))
      (convertType resolver position owner (.inline d)).outcome (convert resolver d).outcome := by
  rw [convert_eq, ht, Option.getD_none, convertType_inline_object hk ht hs,
    convertType_inline_object hk ht hs, convertProperties_eq_mapM]
  simp only [Journal.outcome_map]
  cases (d.children.mapM (Answers.ofConversion resolver).property).outcome with
  | error v => exact .error v
  | ok properties =>
    have shown : ShownTwice resolver d form properties _ _ := shownTwice_objectShape properties
    exact .ok ⟨shown.label_eq, properties, rfl, shown, shown.eq_iff⟩

/-- A literal with a comment, a flag and one property. -/
def oneItem (name : Text) : Declaration :=
  let bare : Declaration :=
    { origin := [], segment := ⟨name, some .property⟩, enclosing := [], id := none, isOptional := false
      comment := none, typeParameters := [], type := some (.intrinsic "string"), signatures := []
      children := [] }
  { bare with
    segment := ⟨"__type", some .typeLiteral⟩
    isOptional := true
    comment := some ⟨"An item.", [], []⟩
    type := none
    children := [bare] }

private def itemLabel : Label := { comment := some "An item.", optional := true }

theorem convert_inPlace_oneItem :
    let d := oneItem "first"
    (d.kind = some .typeLiteral ∧ d.type = none ∧ d.signatures = []) ∧
      ∃ shown, (convertType .none .elsewhere d (.inline d)).outcome = .ok shown ∧
        shown.label = { comment := some "An item.", optional := true } ∧
        (convert .none d).outcome = .ok shown := by
  intro d
  have labelled : (convertType .none .elsewhere d (.inline d)).outcome.toOption.any
      fun s => s.label == itemLabel := by decide +kernel
  obtain ⟨shown, inPlace, label⟩ := Journal.exists_ok_of_any labelled
  have object : ObjectForm.ofKind? d.kind = some .literal := rfl
  have both := convert_inPlace .none object rfl rfl .elsewhere d
  obtain ⟨own, alone, -, _, -, twice, -⟩ := both.exists_ok inPlace
  refine ⟨⟨rfl, rfl, rfl⟩, shown, inPlace, eq_of_beq label, ?_⟩
  cases twice with
  | object => exact alone
  | array => cases label

/-- The only item of a list loses its comment and its flag. -/
theorem array_loses_comment :
    let d := oneItem "0"
    d.kind = some .typeLiteral ∧ d.type = none ∧ d.signatures = [] ∧
      ∃ shown own, (convertType .none .elsewhere d (.inline d)).outcome = .ok shown ∧
        (convert .none d).outcome = .ok own ∧ shown.label = {} ∧
        own.label = { comment := some "An item.", optional := true } ∧ shown ≠ own := by
  intro d
  have bare : (convertType .none .elsewhere d (.inline d)).outcome.toOption.any
      fun s => s.label == {} := by decide +kernel
  have labelled : (convert .none d).outcome.toOption.any fun s => s.label == itemLabel := by
    decide +kernel
  obtain ⟨shown, inPlace, bare⟩ := Journal.exists_ok_of_any bare
  obtain ⟨own, alone, labelled⟩ := Journal.exists_ok_of_any labelled
  refine ⟨rfl, rfl, rfl, shown, own, inPlace, alone, eq_of_beq bare, eq_of_beq labelled, ?_⟩
  rintro rfl
  rw [eq_of_beq bare] at labelled
  cases labelled

end DocShape
