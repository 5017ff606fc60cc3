import DocShape.Declaration.Kind
import DocShape.Json.Value

/-!
# Where declarations stand

A document numbers its declarations by an `Id`. A declaration stands at a `Site`: its address in the
document, which no other declaration shares, and its `Place`, the names and kinds on the way to the
root. `Place.fullName` joins the names of a place.
-/

namespace DocShape

/-- The id that a document gives to a declaration. A truth value is an id, too. -/
inductive Id
  | integer (n : Int)
  | truth (b : Bool)
  deriving DecidableEq, Repr

namespace Id

/-- The number of an id; ids with one number are one id. -/
def number : Id → Int
  | integer n => n
  | truth b => if b then 1 else 0

/-- The id that a value is. -/
def ofValue? : Json.Value → Option Id
  | .int n => some (.integer n)
  | .bool b => some (.truth b)
  | _ => none

end Id

/-- One level of nesting. -/
structure Segment where
  name : Text
  kind : Option Kind
  deriving DecidableEq, Repr

/-- A declaration and the declarations around it, the innermost first. -/
abbrev Place := List Segment

namespace Place

/-- The segments that count in names: those inside the project root, without file-level modules. -/
def named (place : Place) : List Segment :=
  (place.takeWhile (·.kind != some .global)).filter (·.kind != some .externalModule)

/-- The names of a place, the outermost first, joined by points. -/
def fullName (place : Place) : Text :=
  Text.joinWith "." (place.named.map (·.name)).reverse

/-- The places of a declaration and of all around it, the innermost first. -/
def enclosing : Place → List Place
  | [] => []
  | segment :: rest => (segment :: rest) :: enclosing rest

end Place

/-- The address of a declaration in its document, and its place. -/
structure Site where
  origin : Json.Pointer
  place : Place
  deriving DecidableEq, Repr

namespace Site

def fullName (site : Site) : Text := site.place.fullName

end Site

end DocShape
