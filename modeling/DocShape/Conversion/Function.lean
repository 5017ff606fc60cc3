import DocShape.Conversion.Basic
import DocShape.Link.Tag
import DocShape.Shape.Basic

/-!
# Function shapes

The signatures of a function are merged into one: the first longest signature gives the parameters,
the return type and the comment, and the first shortest one says which parameters are required.

* `extremes` chooses the signatures;
* `functionShape` makes the shape from the shapes of the types in the longest signature.
-/

namespace DocShape

open Link (Resolver)

/-- The shapes of the types in a signature. -/
structure SignatureShapes where
  parameters : List Shape
  returnType : Option Shape

/-- The first of the elements with the greatest size, and the first of those with the least. -/
structure Extremes (α : Type) where
  longest : α
  shortest : α

section

variable {α : Type}

/-- The extremes with one more element. One that becomes the longest is never the shortest, too. -/
def Extremes.step (size : α → Nat) (found : Extremes α) (x : α) : Extremes α :=
  if size found.longest < size x then { found with longest := x }
  else if size x < size found.shortest then { found with shortest := x }
  else found

/-- The extremes of a list, found in one pass. -/
def extremes (size : α → Nat) (first : α) (rest : List α) : Extremes α :=
  rest.foldl (Extremes.step size) ⟨first, first⟩

end

namespace Signature

def arity (s : Signature) : Nat := s.parameters.length

end Signature

/-- A parameter: under its own name, with its own comment before that of its type, and optional if
its type or its flag says so or the shortest signature does not have it. -/
def parameterShape (resolver : Resolver) (required : List Text) (p : Parameter) (shape : Shape) :
    Shape :=
  shape.withLabel
    { name := some p.name
      comment := (Link.commentText resolver none p.comment).or shape.label.comment
      optional := shape.label.optional || p.isOptional || !required.contains p.name }

def isVoid : Shape → Bool
  | .primitive _ (some type) _ => type == "void"
  | _ => false

/-- A return value: nothing where the type is void. -/
def returnShape (resolver : Resolver) (owner : Place) (comment : Option Comment) (shape : Shape) :
    Option Shape :=
  if isVoid shape then none
  else
    let text := comment.bind fun c => Link.plainText resolver (some owner) c.returns
    some (shape.withLabel
      { shape.label with name := some "returns", comment := text.or shape.label.comment })

/-- The shape of a function whose longest signature is `s`. -/
def functionShape (resolver : Resolver) (owner : Place) (required : List Text) (s : Signature)
    (shapes : SignatureShapes) : Shape :=
  .function { comment := Link.commentText resolver (some owner) s.comment }
    (some (s.parameters.zipWith (parameterShape resolver required) shapes.parameters))
    (shapes.returnType.bind (returnShape resolver owner s.comment))

end DocShape
