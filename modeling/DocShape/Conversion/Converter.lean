import DocShape.Conversion.Function
import DocShape.Json.Writer
import DocShape.Shape.FixedArray

/-!
# From declarations to shapes

* `convertType` gives the shape of a type node that belongs to a declaration;
* `convertBody` gives the shape of a declaration without its own comment, or none where its kind has
  no shape;
* `convert` gives the shape of a declaration with its comment and its optional flag.

A type without a shape becomes the unknown shape and gives a warning. Targets of references are never
entered, so that every conversion is a recursion on the declaration.
-/

namespace DocShape

open Link (Resolver)

/-- Where a type node stands: as an option of a union, or anywhere else. -/
inductive Position
  | unionOption
  | elsewhere
  deriving DecidableEq, Repr

/-- The kinds that are objects: literals in place, and declared interfaces. -/
def ObjectForm.ofKind? : Option Kind → Option ObjectForm
  | some .typeLiteral => some .literal
  | some .interface => some .declared
  | _ => none

/-- Attaches the comment of a declaration, if it has text, and its optional flag, if it is set. -/
def attach (resolver : Resolver) (d : Declaration) (shape : Shape) : Shape :=
  shape.withLabel
    { shape.label with
      comment := (Link.commentText resolver (some d.place) d.comment).or shape.label.comment
      optional := d.isOptional || shape.label.optional }

/-- The unknown shape, with a warning. -/
def unknownShape (category : Text) (owner : Declaration) (source : Option Text := none) :
    Conversion Shape := do
  Conversion.warn ⟨category, owner.name, source⟩
  return .unknown {}

/-- The shape of a declaration, which is unknown where its kind has none. -/
def shapeOrUnknown (owner : Declaration) : Option Shape → Conversion Shape
  | some shape => return shape
  | none => unknownShape "reflection" owner

/-- A list that is empty counts as absent. -/
def presentList {α : Type} (l : List α) : Option (List α) := if l.isEmpty then none else some l

/-- A string literal; outside a union it is presented as a union with one option. -/
def literalShape (position : Position) (value : Text) : Shape :=
  let literal := Shape.primitive {} none (some (Json.Value.outputText none (.text value)))
  match position with
  | .unionOption => literal
  | .elsewhere => .union {} (some [literal]) (some true)

/-- The shape of a reference whose arguments have the given shapes. An event has exactly one argument,
its listener, whose return type does not count. -/
def referenceShape (resolver : Resolver) (owner : Declaration) (name : Json.Value)
    (target : Option Site) (arguments : List Shape) : Conversion Shape := do
  let found := resolver.linkTo owner.place target
  let type := (found.map fun t => Json.Value.text t.title).getD name
  let link := found.map (·.link)
  if name.isText eventTypeName then
    match arguments with
    | [listener] =>
      return .reference {} (some type) link
        (some [(listener.withName (some "listener")).withoutReturn])
    | _ => Conversion.violate (.noSingleListener owner.name)
  else return .reference {} (some type) link (presentList arguments)

/-- The shape of an object with the given properties; one that stands for an array of fixed length
becomes that array. -/
def objectShape (resolver : Resolver) (d : Declaration) (form : ObjectForm)
    (properties : List Shape) : Shape :=
  let shape := attach resolver d (.object {} form (some properties) (presentList d.typeParameters))
  shape.fixedArray?.getD shape

/-- The shape of a function from the shapes of all its signatures, of which the first longest one
counts. -/
def overloadShape (resolver : Resolver) (owner : Declaration)
    (first : Signature × Conversion SignatureShapes)
    (rest : List (Signature × Conversion SignatureShapes)) : Conversion Shape := do
  let found := extremes (·.1.arity) first rest
  let shapes ← found.longest.2
  return functionShape resolver owner.place (found.shortest.1.parameters.map (·.name))
    found.longest.1 shapes

mutual

/-- The shape of a type node that belongs to `owner`. -/
def convertType (resolver : Resolver) (position : Position) (owner : Declaration) :
    TypeNode → Conversion Shape
  | .intrinsic name => return .primitive {} (some name) none
  | .stringLiteral value => return literalShape position value
  | .array element => do
    let shape ← convertType resolver .elsewhere owner element
    return .array {} (some shape) none none
  | .tuple [] => unknownShape "tuple" owner
  | .tuple (first :: rest) =>
    if rest.all fun t => t.sameAs first then do
      let shape ← convertType resolver .elsewhere owner first
      let length : Int := rest.length + 1
      return .array {} (some shape) (some length) (some length)
    else unknownShape "tuple" owner
  | .union options => do
    let shapes ← convertTypes resolver .unionOption owner options
    return .union {} (some shapes) (some (shapes.all (·.isPrimitive)))
  | .intersection [a, b] => do
    let a ← convertType resolver .elsewhere owner a
    let b ← convertType resolver .elsewhere owner b
    match a.intersect? b with
    | some shape => return shape
    | none => unknownShape "intersection" owner
  | .intersection _ => unknownShape "intersection" owner
  | .typeParameter name => return .reference {} (some (.text name)) none none
  | .reference name arguments qualifiedName target => do
    let shapes ← convertTypes resolver .elsewhere owner arguments
    referenceShape resolver owner (TypeNode.referencedName name qualifiedName target) target shapes
  | .inline declaration => do
    let body ← convertBody resolver declaration
    shapeOrUnknown owner body
  | .unmodelled category source => unknownShape category owner (some source)
termination_by structural node => node

def convertTypes (resolver : Resolver) (position : Position) (owner : Declaration) :
    List TypeNode → Conversion (List Shape)
  | [] => return []
  | t :: rest => do
    let shape ← convertType resolver position owner t
    let shapes ← convertTypes resolver position owner rest
    return shape :: shapes
termination_by structural node => node

/-- The shape of a declaration without its own label: that of its type, of its signatures, or of its
children as properties. -/
def convertBody (resolver : Resolver) : Declaration → Conversion (Option Shape)
  | ⟨origin, segment, enclosing, id, isOptional, comment, typeParameters, type, signatures,
      children⟩ =>
    let d : Declaration := ⟨origin, segment, enclosing, id, isOptional, comment, typeParameters,
      type, signatures, children⟩
    match type with
    | some t => do
      let shape ← convertType resolver .elsewhere d t
      return some shape
    | none =>
      match signatures.zip (convertSignatures resolver d signatures) with
      | first :: rest => do
        let shape ← overloadShape resolver d first rest
        return some shape
      | [] =>
        match ObjectForm.ofKind? segment.kind with
        | none => return none
        | some form => do
          let properties ← convertProperties resolver children
          return some (objectShape resolver d form properties)
termination_by structural node => node

/-- Each child as a property under its own name. -/
def convertProperties (resolver : Resolver) : List Declaration → Conversion (List Shape)
  | [] => return []
  | d :: rest => do
    let body ← convertBody resolver d
    let shape ← shapeOrUnknown d body
    let shapes ← convertProperties resolver rest
    return (attach resolver d shape).withName (some d.name) :: shapes
termination_by structural node => node

/-- The shapes of the types in each signature. -/
def convertSignatures (resolver : Resolver) (owner : Declaration) :
    List Signature → List (Conversion SignatureShapes)
  | [] => []
  | ⟨_, parameters, type, _⟩ :: rest =>
    (do
      let parameters ← convertParameters resolver owner parameters
      match type with
      | none => return ⟨parameters, none⟩
      | some t =>
        let shape ← convertType resolver .elsewhere owner t
        return ⟨parameters, some shape⟩) ::
      convertSignatures resolver owner rest
termination_by structural node => node

def convertParameters (resolver : Resolver) (owner : Declaration) :
    List Parameter → Conversion (List Shape)
  | [] => return []
  | ⟨name, type, _, _⟩ :: rest =>
    match type with
    | none => Conversion.violate (.untypedParameter name owner.name)
    | some t => do
      let shape ← convertType resolver .elsewhere owner t
      let shapes ← convertParameters resolver owner rest
      return shape :: shapes
termination_by structural node => node

end

/-- The shape of a declaration. -/
def convert (resolver : Resolver) (d : Declaration) : Conversion Shape := do
  let body ← convertBody resolver d
  let shape ← shapeOrUnknown d body
  return attach resolver d shape

end DocShape
