import DocShape.Declaration.Place
import DocShape.Json.Equality

/-!
# Declarations and their type nodes

* `Declaration`, `Signature`, `Parameter` and `TypeNode` are the documented program; a reference
  knows the site of the declaration it points at, everything else is a tree;
* `Declaration.all` lists a declaration with every declaration below it, those inside types included;
* `TypeNode.sameAs` compares type nodes; inline declarations are the same only at one address.
-/

namespace DocShape

/-- The texts attached to a declaration or signature. -/
structure Comment where
  summary : Text
  details : Text
  returns : Text
  deriving DecidableEq, Repr

mutual

inductive TypeNode
  /-- A built-in type such as `string` or `void`. -/
  | intrinsic (name : Text)
  | stringLiteral (value : Text)
  | array (element : TypeNode)
  | tuple (elements : List TypeNode)
  | union (options : List TypeNode)
  | intersection (operands : List TypeNode)
  /-- A type parameter inside its generic declaration. -/
  | typeParameter (name : Text)
  /-- A named type. The qualified name is kept as the document has it. -/
  | reference (name : Text) (arguments : List TypeNode) (qualifiedName : Json.Value)
      (target : Option Site)
  /-- A declaration used as a type: an object literal or a function type. -/
  | inline (declaration : Declaration)
  /-- A category that is not modelled, with the text of its node. -/
  | unmodelled (category : Text) (source : Text)

structure Declaration where
  /-- The address in the document. -/
  origin : Json.Pointer
  segment : Segment
  /-- The places of the declarations around this one. -/
  enclosing : Place
  id : Option Id
  isOptional : Bool
  comment : Option Comment
  typeParameters : List Text
  type : Option TypeNode
  signatures : List Signature
  children : List Declaration

/-- One overload of a function; its type is the return type. -/
structure Signature where
  name : Text
  parameters : List Parameter
  type : Option TypeNode
  comment : Option Comment

structure Parameter where
  name : Text
  type : Option TypeNode
  comment : Option Comment
  isOptional : Bool

end

namespace Declaration

def name (d : Declaration) : Text := d.segment.name

def kind (d : Declaration) : Option Kind := d.segment.kind

def place (d : Declaration) : Place := d.segment :: d.enclosing

def site (d : Declaration) : Site := ⟨d.origin, d.place⟩

def fullName (d : Declaration) : Text := d.place.fullName

end Declaration

/-! ## All declarations -/

mutual

/-- The declarations inside a type node. -/
def TypeNode.declarations : TypeNode → List Declaration
  | .array element => element.declarations
  | .tuple elements => TypeNode.declarationsIn elements
  | .union options => TypeNode.declarationsIn options
  | .intersection operands => TypeNode.declarationsIn operands
  | .reference _ arguments _ _ => TypeNode.declarationsIn arguments
  | .inline declaration => declaration.all
  | .intrinsic _ | .stringLiteral _ | .typeParameter _ | .unmodelled _ _ => []

def TypeNode.declarationsIn : List TypeNode → List Declaration
  | [] => []
  | t :: rest => t.declarations ++ TypeNode.declarationsIn rest

def TypeNode.declarationsInside : Option TypeNode → List Declaration
  | none => []
  | some t => t.declarations

/-- A declaration and all declarations below it. -/
def Declaration.all : Declaration → List Declaration
  | ⟨origin, segment, enclosing, id, isOptional, comment, typeParameters, type, signatures,
      children⟩ =>
    ⟨origin, segment, enclosing, id, isOptional, comment, typeParameters, type, signatures,
        children⟩ ::
      (TypeNode.declarationsInside type ++ Signature.declarationsIn signatures ++
        Declaration.allIn children)

def Declaration.allIn : List Declaration → List Declaration
  | [] => []
  | d :: rest => d.all ++ Declaration.allIn rest

def Signature.declarations : Signature → List Declaration
  | ⟨_, parameters, type, _⟩ =>
    Parameter.declarationsIn parameters ++ TypeNode.declarationsInside type

def Signature.declarationsIn : List Signature → List Declaration
  | [] => []
  | s :: rest => s.declarations ++ Signature.declarationsIn rest

def Parameter.declarationsIn : List Parameter → List Declaration
  | [] => []
  | ⟨_, type, _, _⟩ :: rest => TypeNode.declarationsInside type ++ Parameter.declarationsIn rest

end

/-! ## Type nodes -/

namespace TypeNode

/-- The category that messages name a type node by. -/
def category : TypeNode → Text
  | .intrinsic _ => "intrinsic"
  | .stringLiteral _ => "stringLiteral"
  | .array _ => "array"
  | .tuple _ => "tuple"
  | .union _ => "union"
  | .intersection _ => "intersection"
  | .typeParameter _ => "typeParameter"
  | .reference .. => "reference"
  | .inline _ => "reflection"
  | .unmodelled category _ => category

mutual

/-- Whether two type nodes are written alike. What a reference points at does not count, and an inline
declaration is only like itself. -/
def sameAs : TypeNode → TypeNode → Bool
  | .intrinsic a, .intrinsic b => a == b
  | .stringLiteral a, .stringLiteral b => a == b
  | .array a, .array b => sameAs a b
  | .tuple as, .tuple bs => sameList as bs
  | .union as, .union bs => sameList as bs
  | .intersection as, .intersection bs => sameList as bs
  | .typeParameter a, .typeParameter b => a == b
  | .reference a as qa _, .reference b bs qb _ => a == b && sameList as bs && qa.looseEq qb
  | .inline a, .inline b => a.origin == b.origin
  | .unmodelled a ta, .unmodelled b tb => a == b && ta == tb
  | _, _ => false

def sameList : List TypeNode → List TypeNode → Bool
  | [], [] => true
  | a :: as, b :: bs => sameAs a b && sameList as bs
  | _, _ => false

end

/-- The name that a reference points at: the full name of its target, else its qualified name, else
the name it is written with. -/
def referencedName (name : Text) (qualifiedName : Json.Value) (target : Option Site) : Json.Value :=
  match target with
  | some site => .text site.fullName
  | none => if qualifiedName.isEmpty then .text name else qualifiedName

end TypeNode

/-! ## Documented declarations -/

mutual

/-- The members of the namespaces among some declarations, together with the declarations that are no
namespaces. -/
def Declaration.documentedIn : List Declaration → List Declaration
  | [] => []
  | d :: rest =>
    (if Kind.groups d.kind then d.documented else [d]) ++ Declaration.documentedIn rest

/-- The documented declarations below a declaration: members of namespaces at any depth, but not of
interfaces and functions. -/
def Declaration.documented : Declaration → List Declaration
  | ⟨_, _, _, _, _, _, _, _, _, children⟩ => Declaration.documentedIn children

end

end DocShape
