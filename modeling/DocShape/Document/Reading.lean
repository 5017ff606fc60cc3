import DocShape.Document.Outline
import DocShape.Json.Writer

/-!
# Reading declarations and their types

Reading follows the categories of type nodes that are modelled; everything else becomes an unmodelled
node that keeps its source.

* `Document.readDeclaration`, `Document.readSignature`, `Document.readParameter` and
  `Document.readType` read the four kinds of nodes.
-/

namespace DocShape.Document

open Json

/-- What reading knows of the whole document. -/
structure Setting where
  /-- The declarations that have been created, by address. -/
  created : List (Pointer × Declaration)
  /-- The declarations by id; the first entry of an id counts. -/
  sites : List (Int × Site)

namespace Setting

def ofOutline (o : Outline) : Setting := ⟨o.all.map fun o => (o.origin, o.bare), o.sites⟩

/-- The declaration that has been created at an address. -/
def created? (setting : Setting) (origin : Pointer) : Option Declaration :=
  setting.created.lookup origin

/-- The declaration that a reference node points at, by its id or, where it has none, its target. -/
def target? (setting : Setting) (node : Members) : Option Site :=
  (Id.ofValue? ((member? node "id").getD (member node "target"))).bind fun id =>
    setting.sites.lookup id.number

end Setting

/-- The names of the type parameters, from the older or the newer member. -/
def readTypeParameters (raw : Members) : Except Fault (List Text) := do
  let older := member raw "typeParameter"
  let parameters ← nodes (if older.isEmpty then member raw "typeParameters" else older)
  return parameters.map fun (_, p) => (member p "name").display

/-- The value of a string literal, which newer documents write as a literal that is text. -/
def stringLiteral? (category : Text) (node : Members) : Option Text :=
  if category = "stringLiteral" then some (member node "value").display
  else
    match member node "value" with
    | .text t => if category = "literal" then some t else none
    | _ => none

/-- The text of a node of a category that is not modelled. -/
def unmodelled (category : Text) (node : Members) : TypeNode :=
  .unmodelled (if category.isEmpty then "unknown" else category) (Value.object node).asciiText

/-- Reading notes the addresses of the declarations that it fills. -/
abbrev Filling (α : Type) := Journal Pointer Fault α

/-- Begins to fill the declaration that has been created at an address. -/
def enter (setting : Setting) (origin : Pointer) : Filling Declaration := do
  Journal.note origin
  match setting.created? origin with
  | some d => return d
  | none => Journal.fail .unregistered

mutual

/-- Reads the declaration at an address. -/
def readDeclaration (setting : Setting) (origin : Pointer) (raw : Members) :
    Filling Declaration := do
  let d ← enter setting origin
  let comment ← readComment (member raw "comment")
  let type ← (childNode? raw "type").mapM fun ⟨node, _⟩ =>
    readType setting (.key "type" :: origin) node
  let typeParameters ← readTypeParameters raw
  let signatures ← (← childNodes raw "signatures").mapM fun (i, ⟨m, _⟩) =>
    readSignature setting (.index i :: .key "signatures" :: origin) m
  let children ← (← childNodes raw "children").mapM fun (i, ⟨m, _⟩) =>
    readDeclaration setting (.index i :: .key "children" :: origin) m
  return { d with comment, typeParameters, type, signatures, children }
termination_by sizeOf raw

def readSignature (setting : Setting) (address : Pointer) (raw : Members) : Filling Signature := do
  let parameters ← (← childElements raw "parameters").zipIdx.mapM fun
    | (some ⟨m, _⟩, i) => readParameter setting (.index i :: .key "parameters" :: address) m
    | (none, _) => Journal.fail .notAnObject
  let type ← (childNode? raw "type").mapM fun ⟨node, _⟩ =>
    readType setting (.key "type" :: address) node
  let comment ← readComment (member raw "comment")
  return { name := (member raw "name").displayOrEmpty, parameters, type, comment }
termination_by sizeOf raw

def readParameter (setting : Setting) (address : Pointer) (raw : Members) : Filling Parameter := do
  let type ← (childNode? raw "type").mapM fun ⟨node, _⟩ =>
    readType setting (.key "type" :: address) node
  let comment ← readComment (member raw "comment")
  let isOptional ← readOptional raw
  return { name := (member raw "name").displayOrEmpty, type, comment, isOptional }
termination_by sizeOf raw

def readType (setting : Setting) (address : Pointer) (node : Members) : Filling TypeNode := do
  let category := (member node "type").displayOrEmpty
  let list (key : Text) : Filling (List TypeNode) := do
    (← childNodes node key).mapM fun (i, ⟨m, _⟩) =>
      readType setting (.index i :: .key key :: address) m
  if category = "intrinsic" then return .intrinsic (member node "name").display
  else if let some value := stringLiteral? category node then return .stringLiteral value
  else if category = "array" then
    match childNode? node "elementType" with
    | some ⟨element, _⟩ => .array <$> readType setting (.key "elementType" :: address) element
    | none => return unmodelled category node
  else if category = "tuple" then .tuple <$> list "elements"
  else if category = "union" then .union <$> list "types"
  else if category = "intersection" then .intersection <$> list "types"
  else if category = "typeParameter" then return .typeParameter (member node "name").display
  else if category = "reference" then do
    let arguments ← list "typeArguments"
    return .reference (member node "name").display arguments (member node "qualifiedName")
      (setting.target? node)
  else if category = "reflection" then
    match childNode? node "declaration" with
    | some ⟨m, _⟩ => .inline <$> readDeclaration setting (.key "declaration" :: address) m
    | none => return unmodelled category node
  else return unmodelled category node
termination_by sizeOf node

end

end DocShape.Document
