import DocShape.Document.Inline
import DocShape.Journal

/-!
# Outlines

Before any type is read, the outline of a document creates all its declarations, so that a reference
may point at a declaration that comes later.

* `Document.outline` makes the outline of a declaration: its header, its children, and the inline
  declarations below its types; it notes every declaration that it creates;
* `Document.Outline.all` lists the declarations of an outline, each before those inside it;
* `Document.Outline.bare` is a declaration as far as its outline tells.
-/

namespace DocShape.Document

open Json

/-- A declaration that is created: its site, and that of the declaration it is created in. -/
structure Creation where
  site : Site
  parent : Option Site
  deriving DecidableEq, Repr

namespace Creation

def origin (c : Creation) : Pointer := c.site.origin

/-- The place around a declaration that is created in `parent`. -/
def placeIn (parent : Option Site) : Place := (parent.map (·.place)).getD []

end Creation

structure Outline where
  creation : Creation
  header : Header
  children : List Outline
  inlined : List Outline

namespace Outline

def site (o : Outline) : Site := o.creation.site

def origin (o : Outline) : Pointer := o.site.origin

mutual

/-- An outline and all outlines inside it, children before inline declarations. -/
def all : Outline → List Outline
  | ⟨creation, header, children, inlined⟩ =>
    ⟨creation, header, children, inlined⟩ :: (allIn children ++ allIn inlined)

def allIn : List Outline → List Outline
  | [] => []
  | o :: rest => o.all ++ allIn rest

end

mutual

/-- A declaration without comment, types and signatures. -/
def bare : Outline → Declaration
  | ⟨creation, header, children, _⟩ =>
    { origin := creation.origin
      segment := header.segment
      enclosing := Creation.placeIn creation.parent
      id := header.id
      isOptional := header.isOptional
      comment := none
      typeParameters := []
      type := none
      signatures := []
      children := bareIn children }

def bareIn : List Outline → List Declaration
  | [] => []
  | o :: rest => o.bare :: bareIn rest

end

/-- The sites of the declarations that have an id, by its number; of one number the last declaration comes first. -/
def sites (o : Outline) : List (Int × Site) :=
  o.all.reverse.filterMap fun o => o.header.id.map fun id => (id.number, o.site)

end Outline

/-- The outline of the declaration at an address, which is created in `parent`. -/
def outline (numbering : Numbering) (parent : Option Site) (origin : Pointer) (raw : Members) :
    Journal Creation Fault Outline := do
  let header ← Header.read numbering raw
  let site : Site := ⟨origin, header.segment :: Creation.placeIn parent⟩
  Journal.note ⟨site, parent⟩
  let children ← (← childNodes raw "children").mapM fun (i, ⟨m, _⟩) =>
    outline numbering (some site) (.index i :: .key "children" :: origin) m
  let inlined ← (← inlineNodes origin raw).mapM fun (address, ⟨m, _⟩) =>
    outline numbering (some site) address m
  return { creation := ⟨site, parent⟩, header, children, inlined }
termination_by sizeOf raw

end DocShape.Document
