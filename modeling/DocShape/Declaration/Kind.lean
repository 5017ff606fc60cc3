import DocShape.Text.Blank
import DocShape.Text.Numeral
import DocShape.Json.Value

/-!
# Kinds of declarations

* `Kind.ofName?` reads the name of a kind, `Kind.ofNumber?` its number in one of two numberings;
* `Kind.read` reads both from a document, the name first;
* `Kind.isNamespace` says which kinds group other declarations.
-/

namespace DocShape

inductive Kind
  | global
  | externalModule
  | module
  | enumeration
  | enumerationMember
  | variable
  | function
  | classType
  | interface
  | constructor
  | property
  | method
  | callSignature
  | indexSignature
  | constructorSignature
  | parameter
  | typeLiteral
  | typeParameter
  | accessor
  | getSignature
  | setSignature
  | objectLiteral
  | typeAlias
  | event
  | reference
  deriving DecidableEq, Repr

/-- Which table the numbers of a document follow. -/
inductive Numbering
  | legacy
  | current
  deriving DecidableEq, Repr

namespace Kind

/-! ## Names -/

/-- The names that documents give to kinds, in lower case. -/
def nameTable : List (Text × Kind) :=
  [("project", .global), ("global", .global), ("external module", .externalModule),
    ("module", .module), ("namespace", .module), ("enumeration", .enumeration),
    ("enumeration member", .enumerationMember), ("variable", .variable), ("function", .function),
    ("class", .classType), ("interface", .interface), ("constructor", .constructor),
    ("property", .property), ("method", .method), ("call signature", .callSignature),
    ("index signature", .indexSignature), ("constructor signature", .constructorSignature),
    ("parameter", .parameter), ("type literal", .typeLiteral), ("type parameter", .typeParameter),
    ("accessor", .accessor), ("get signature", .getSignature), ("set signature", .setSignature),
    ("object literal", .objectLiteral), ("type alias", .typeAlias), ("event", .event),
    ("reference", .reference)]

/-- The kind of a name; case and blanks around the name do not count. -/
def ofName? (name : Text) : Option Kind := nameTable.lookup name.trim.lowerAscii

/-! ## Numbers -/

def legacyTable : List (Nat × Kind) :=
  [(0, .global), (1, .externalModule), (2, .module), (4, .enumeration), (16, .enumerationMember),
    (32, .variable), (64, .function), (128, .classType), (256, .interface), (512, .constructor),
    (1024, .property), (2048, .method), (4096, .callSignature), (8192, .indexSignature),
    (16384, .constructorSignature), (32768, .parameter), (65536, .typeLiteral),
    (131072, .typeParameter), (262144, .accessor), (524288, .getSignature),
    (1048576, .setSignature), (2097152, .objectLiteral), (4194304, .typeAlias), (8388608, .event),
    (16777216, .reference)]

def currentTable : List (Nat × Kind) :=
  [(1, .global), (2, .externalModule), (4, .module), (8, .enumeration), (16, .enumerationMember),
    (32, .variable), (64, .function), (128, .classType), (256, .interface), (512, .constructor),
    (1024, .property), (2048, .method), (4096, .callSignature), (8192, .indexSignature),
    (16384, .constructorSignature), (32768, .parameter), (65536, .typeLiteral),
    (131072, .typeParameter), (262144, .accessor), (524288, .getSignature),
    (1048576, .setSignature), (2097152, .typeAlias), (4194304, .reference)]

def table : Numbering → List (Nat × Kind)
  | .legacy => legacyTable
  | .current => currentTable

/-- The kind of a number; negative numbers have none. -/
def ofNumber? (numbering : Numbering) (n : Int) : Option Kind :=
  if n < 0 then none else (table numbering).lookup n.toNat

/-- The number of a kind in the legacy numbering, which has one for every kind. -/
def number (kind : Kind) : Nat :=
  match legacyTable.find? (·.2 = kind) with
  | some (n, _) => n
  | none => 0

/-! ## Reading -/

inductive ReadError
  /-- The name of a kind is given by a value that is no text. -/
  | nameNotText
  /-- The number of a kind is infinite. -/
  | infiniteNumber
  deriving DecidableEq, Repr

/-- The integer that a value stands for: fractions are cut off and text is read as a numeral. -/
def integerOf : Json.Value → Except ReadError (Option Int)
  | .float (.infinite _) => .error .infiniteNumber
  | .float x => .ok x.truncate?
  | .text t => .ok t.toInt?
  | v => .ok v.toInt?

/-- The kind named by a value, where there is a name that is known. -/
def namedBy : Json.Value → Except ReadError (Option Kind)
  | .text t => .ok (ofName? t)
  | v => if v.isEmpty then .ok none else .error .nameNotText

/-- The kind that a name and a number give; the name counts first, since numbers have changed their
meaning and names have not. -/
def read (numbering : Numbering) (number name : Json.Value) : Except ReadError (Option Kind) := do
  match ← namedBy name with
  | some kind => return some kind
  | none => return (← integerOf number).bind (ofNumber? numbering)

/-! ## Namespaces -/

/-- Whether a kind groups other declarations. -/
def isNamespace : Kind → Bool
  | .global | .externalModule | .module => true
  | _ => false

/-- What has no known kind groups nothing. -/
def groups (kind : Option Kind) : Bool := kind.any isNamespace

end Kind

end DocShape
