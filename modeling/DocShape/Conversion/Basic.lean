import DocShape.Journal
import DocShape.Text.Quoted

/-!
# Conversions

A conversion ends in a result or in a violation, and has given warnings on the way. Warnings given
before a violation are kept.

* `Conversion.warn` gives a warning, `Conversion.violate` ends in a violation;
* `Warning.message` and `Violation.message` are their texts.
-/

namespace DocShape

/-- A type that has no shape, and the declaration it belongs to. -/
structure Warning where
  category : Text
  owner : Text
  /-- The text of the type, where its category is not modelled. -/
  source : Option Text
  deriving DecidableEq, Repr

namespace Warning

def message (w : Warning) : Text :=
  let head : Text := "got unknown type " ++ w.category.quoted ++ " in " ++ w.owner
  match w.source with
  | none => head
  | some source => head ++ ": " ++ source

end Warning

/-- The name of the type of events, which always has one listener. -/
def eventTypeName : Text := "chrome.events.Event"

/-- Why a declaration cannot be converted. -/
inductive Violation
  /-- A parameter of a signature has no type. -/
  | untypedParameter (parameter declaration : Text)
  /-- An event does not have exactly one listener. -/
  | noSingleListener (declaration : Text)
  deriving DecidableEq, Repr

namespace Violation

/-- The name of the declaration that is malformed. -/
def declaration : Violation → Text
  | untypedParameter _ declaration => declaration
  | noSingleListener declaration => declaration

def message : Violation → Text
  | untypedParameter parameter declaration =>
    "signature parameter " ++ parameter.quoted ++ " of " ++ declaration.quoted ++ " has no type"
  | noSingleListener declaration =>
    "got " ++ eventTypeName ++ " without a single listener in " ++ declaration.quoted

end Violation

/-- A conversion notes its warnings. -/
abbrev Conversion (α : Type) := Journal Warning Violation α

namespace Conversion

variable {α : Type}

def warnings (x : Conversion α) : List Warning := x.notes

def warn (w : Warning) : Conversion Unit := Journal.note w

def violate (v : Violation) : Conversion α := Journal.fail v

end Conversion

end DocShape
