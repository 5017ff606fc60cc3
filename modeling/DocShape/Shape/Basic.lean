import DocShape.Json.Value

/-!
# Shapes

A shape is a type as it is shown to readers. Its tag decides which fields it may have; every shape may
have a label.

* `Shape.tag` is the tag of a shape, `Shape.label` its label;
* `Shape.toJson` is a shape as a JSON object: absent fields and a false optional flag are left out.
-/

namespace DocShape

open Json (Value)

/-- What a shape is called, what is said about it, and whether it may be missing. -/
structure Label where
  name : Option Text := none
  comment : Option Text := none
  optional : Bool := false
  deriving DecidableEq, Repr

/-- Whether an object is written in place or is a declared type. -/
inductive ObjectForm
  | literal
  | declared
  deriving DecidableEq, Repr

inductive Shape
  | primitive (label : Label) (primitiveType literalValue : Option Text)
  | array (label : Label) (element : Option Shape) (minLength maxLength : Option Int)
  | object (label : Label) (form : ObjectForm) (properties : Option (List Shape))
      (templates : Option (List Text))
  | reference (label : Label) (referenceType : Option Value) (link : Option Text)
      (templates : Option (List Shape))
  | function (label : Label) (parameters : Option (List Shape)) (returnType : Option Shape)
  | union (label : Label) (options : Option (List Shape)) (isEnum : Option Bool)
  | unknown (label : Label)
  deriving Repr

namespace Shape

def label : Shape → Label
  | primitive label .. | array label .. | object label .. | reference label .. | function label ..
  | union label .. | unknown label => label

def withLabel (label : Label) : Shape → Shape
  | primitive _ type value => primitive label type value
  | array _ element low high => array label element low high
  | object _ form properties templates => object label form properties templates
  | reference _ type link templates => reference label type link templates
  | function _ parameters returnType => function label parameters returnType
  | union _ options isEnum => union label options isEnum
  | unknown _ => unknown label

def name (s : Shape) : Option Text := s.label.name

def withName (name : Option Text) (s : Shape) : Shape := s.withLabel { s.label with name }

def tag : Shape → Text
  | primitive .. => "primitive"
  | array .. => "array"
  | object _ .literal .. => "object"
  | object _ .declared .. => "type"
  | reference .. => "reference"
  | function .. => "function"
  | union .. => "union"
  | unknown _ => "?"

def isPrimitive : Shape → Bool
  | primitive .. => true
  | _ => false

/-- A shape without its return type; only functions have one. -/
def withoutReturn : Shape → Shape
  | function label parameters _ => function label parameters none
  | s => s

/-! ## JSON -/

private def member (key : Text) : Option Value → List (Text × Value)
  | none => []
  | some v => [(key, v)]

private def head (tag : Text) (label : Label) : List (Text × Value) :=
  member "type" (some (.text tag)) ++ member "name" (label.name.map .text) ++
    member "comment" (label.comment.map .text) ++
    member "optional" (if label.optional then some (.bool true) else none)

private def texts (ts : List Text) : Value := .array (ts.map .text)

mutual

def toJson : Shape → Value
  | primitive label type value =>
    .object (head "primitive" label ++ member "primitiveType" (type.map .text) ++
      member "literalValue" (value.map .text))
  | array label element low high =>
    .object (head "array" label ++ member "elementType" (toJsonOption element) ++
      member "minLength" (low.map .int) ++ member "maxLength" (high.map .int))
  | object label form properties templates =>
    .object (head (match form with | .literal => "object" | .declared => "type") label ++
      member "properties" (toJsonList? properties) ++ member "templates" (templates.map texts))
  | reference label type link templates =>
    .object (head "reference" label ++ member "referenceType" type ++
      member "referenceLink" (link.map .text) ++
      member "referenceTemplates" (toJsonList? templates))
  | function label parameters returnType =>
    .object (head "function" label ++ member "parameters" (toJsonList? parameters) ++
      member "returnType" (toJsonOption returnType))
  | union label options isEnum =>
    .object (head "union" label ++ member "options" (toJsonList? options) ++
      member "isEnum" (isEnum.map .bool))
  | unknown label => .object (head "?" label)

def toJsonOption : Option Shape → Option Value
  | none => none
  | some s => some (toJson s)

def toJsonList? : Option (List Shape) → Option Value
  | none => none
  | some ss => some (.array (toJsonList ss))

def toJsonList : List Shape → List Value
  | [] => []
  | s :: rest => toJson s :: toJsonList rest

end

end Shape

end DocShape
