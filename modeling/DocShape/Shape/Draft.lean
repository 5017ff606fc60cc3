import DocShape.Shape.Basic

/-!
# Drafts of shapes

A draft has a tag and any of the fields that shapes can have.

* `Shape.Draft.check` makes a shape of it, unless the tag is unknown or a field does not belong to the
  tag;
* `Shape.draft` is a shape as a draft, whose fields can be replaced.
-/

namespace DocShape.Shape

open Json (Value)

structure Draft where
  tag : Text
  label : Label := {}
  primitiveType : Option Text := none
  literalValue : Option Text := none
  elementType : Option Shape := none
  minLength : Option Int := none
  maxLength : Option Int := none
  properties : Option (List Shape) := none
  templates : Option (List Text) := none
  referenceType : Option Value := none
  referenceLink : Option Text := none
  referenceTemplates : Option (List Shape) := none
  parameters : Option (List Shape) := none
  returnType : Option Shape := none
  options : Option (List Shape) := none
  isEnum : Option Bool := none

/-- The fields that belong to some tags only. -/
inductive Field
  | primitiveType
  | literalValue
  | elementType
  | minLength
  | maxLength
  | properties
  | templates
  | referenceType
  | referenceLink
  | referenceTemplates
  | parameters
  | returnType
  | options
  | isEnum
  deriving DecidableEq, Repr

/-- The name of a field in messages. -/
def Field.text : Field → Text
  | primitiveType => "primitive_type"
  | literalValue => "literal_value"
  | elementType => "element_type"
  | minLength => "min_length"
  | maxLength => "max_length"
  | properties => "properties"
  | templates => "templates"
  | referenceType => "reference_type"
  | referenceLink => "reference_link"
  | referenceTemplates => "reference_templates"
  | parameters => "parameters"
  | returnType => "return_type"
  | options => "options"
  | isEnum => "is_enum"

/-- The fields that a tag allows, by tag. -/
def fieldTable : List (Text × List Field) :=
  [("primitive", [.primitiveType, .literalValue]),
    ("array", [.elementType, .minLength, .maxLength]),
    ("object", [.properties, .templates]),
    ("type", [.properties, .templates]),
    ("reference", [.referenceType, .referenceLink, .referenceTemplates]),
    ("function", [.parameters, .returnType]),
    ("union", [.options, .isEnum]),
    ("?", [])]

namespace Draft

inductive Fault
  | unknownTag (tag : Text)
  | misplacedField (field : Field) (tag : Text)
  deriving DecidableEq, Repr

/-- The fields that are present, in order. -/
def present (d : Draft) : List Field :=
  [(Field.primitiveType, d.primitiveType.isSome), (.literalValue, d.literalValue.isSome),
    (.elementType, d.elementType.isSome), (.minLength, d.minLength.isSome),
    (.maxLength, d.maxLength.isSome), (.properties, d.properties.isSome),
    (.templates, d.templates.isSome), (.referenceType, d.referenceType.isSome),
    (.referenceLink, d.referenceLink.isSome), (.referenceTemplates, d.referenceTemplates.isSome),
    (.parameters, d.parameters.isSome), (.returnType, d.returnType.isSome),
    (.options, d.options.isSome), (.isEnum, d.isEnum.isSome)].filterMap fun (field, isPresent) =>
      if isPresent then some field else none

/-- The shape of a known tag with the fields of that tag. -/
private def shape (d : Draft) : Shape :=
  if d.tag = "primitive" then .primitive d.label d.primitiveType d.literalValue
  else if d.tag = "array" then .array d.label d.elementType d.minLength d.maxLength
  else if d.tag = "object" then .object d.label .literal d.properties d.templates
  else if d.tag = "type" then .object d.label .declared d.properties d.templates
  else if d.tag = "reference" then
    .reference d.label d.referenceType d.referenceLink d.referenceTemplates
  else if d.tag = "function" then .function d.label d.parameters d.returnType
  else if d.tag = "union" then .union d.label d.options d.isEnum
  else .unknown d.label

/-- The shape of a draft; of several misplaced fields the first one is named. -/
def check (d : Draft) : Except Fault Shape :=
  match fieldTable.lookup d.tag with
  | none => .error (.unknownTag d.tag)
  | some allowed =>
    match d.present.find? fun field => !allowed.contains field with
    | some field => .error (.misplacedField field d.tag)
    | none => .ok d.shape

end Draft

/-- A shape as a draft. -/
def draft (s : Shape) : Draft :=
  match s with
  | primitive label primitiveType literalValue => { tag := s.tag, label, primitiveType, literalValue }
  | array label elementType minLength maxLength =>
    { tag := s.tag, label, elementType, minLength, maxLength }
  | object label _ properties templates => { tag := s.tag, label, properties, templates }
  | reference label referenceType referenceLink referenceTemplates =>
    { tag := s.tag, label, referenceType, referenceLink, referenceTemplates }
  | function label parameters returnType => { tag := s.tag, label, parameters, returnType }
  | union label options isEnum => { tag := s.tag, label, options, isEnum }
  | unknown label => { tag := s.tag, label }

end DocShape.Shape
