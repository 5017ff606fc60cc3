import DocShape.Document.Reading
import DocShape.Json.Reader

/-!
# Projects

* `Project.ofValue` loads a document in two passes, outline and reading;
* `Project.find?` finds a declaration by its id, of several the last one that was declared;
* `Project.documented` lists the documented declarations.
-/

namespace DocShape

open Json Document

/-- A loaded document: its outline, and its root with all types read. -/
structure Project where
  outline : Outline
  root : Declaration

namespace Project

/-- Documents that name a schema version, or whose root has the number one, follow the current
numbering. -/
def numberingOf (raw : Members) : Numbering :=
  if (member? raw "schemaVersion").isSome || (member raw "kind").isOne then .current else .legacy

def ofMembers (raw : Members) : Except Fault Project := do
  let outline ← (Document.outline (numberingOf raw) none [] raw).outcome
  let root ← (readDeclaration (Setting.ofOutline outline) [] raw).outcome
  return { outline, root }

/-- A document loads just where both passes over it end, the first one in its outline. -/
theorem ofMembers_eq_ok {raw : Members} {p : Project} :
    ofMembers raw = .ok p ↔
      (Document.outline (numberingOf raw) none [] raw).outcome = .ok p.outline ∧
        (readDeclaration (Setting.ofOutline p.outline) [] raw).outcome = .ok p.root := by
  simp only [ofMembers, bind_eq_ok]
  constructor
  · rintro ⟨o, ho, root, hroot, h⟩
    cases h
    exact ⟨ho, hroot⟩
  · rintro ⟨ho, hroot⟩
    exact ⟨_, ho, _, hroot, rfl⟩

/-- Loads a document. Its root is searched for a schema version before it is read as an object. -/
def ofValue : Value → Except Fault Project
  | .object raw => ofMembers raw
  | .array _ | .text _ => .error .notAnObject
  | _ => .error .notListable

/-- The number of declarations, those included that stand at places which are not read. -/
def count (project : Project) : Nat := project.outline.all.length

/-- A declaration of the outline, as it was read if it was. -/
def declarationOf (project : Project) (o : Outline) : Declaration :=
  (project.root.all.find? (·.origin == o.origin)).getD o.bare

def find? (project : Project) (id : Int) : Option Declaration :=
  (project.outline.all.reverse.find? (·.header.id.map Id.number == some id)).map project.declarationOf

def documented (project : Project) : List Declaration := project.root.documented

end Project

end DocShape
