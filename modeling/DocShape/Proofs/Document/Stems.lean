import DocShape.Document.Project
import DocShape.Proofs.Declaration.Renaming
import DocShape.Proofs.Document.Creation
import Mathlib.Data.List.Basic

/-!
What the first pass hands to the second. The stem of a declaration is what its outline tells; a setting
is a look-up among the stems of an outline, by address (`created?_stem`) and by id (`sites_eq`).
-/

namespace DocShape

open Json (Pointer)

/-- What is known of a declaration that has only been created. -/
structure Stem where
  origin : Pointer
  segment : Segment
  enclosing : Place
  id : Option Id
  isOptional : Bool
  deriving DecidableEq

namespace Stem

def site (s : Stem) : Site := ⟨s.origin, s.segment :: s.enclosing⟩

def rename (r : Renaming) (s : Stem) : Stem :=
  ⟨r.address s.origin, s.segment, r.around s.origin s.enclosing, s.id.map r.id, s.isOptional⟩

end Stem

def Declaration.stem (d : Declaration) : Stem :=
  ⟨d.origin, d.segment, d.enclosing, d.id, d.isOptional⟩

namespace Document

namespace Outline

def stem (o : Outline) : Stem :=
  ⟨o.origin, o.header.segment, Creation.placeIn o.creation.parent, o.header.id,
    o.header.isOptional⟩

/-- The stems of all declarations of an outline. -/
def stems (o : Outline) : List Stem := o.all.map stem

@[simp] theorem stem_bare (o : Outline) : o.bare.stem = o.stem := by
  cases o
  rfl

theorem stems_eq (o : Outline) :
    o.stems = o.stem :: (o.children.flatMap stems ++ o.inlined.flatMap stems) := by
  rw [stems, all_eq, List.map_cons, List.map_append, List.map_flatMap, List.map_flatMap]
  rfl

end Outline

/-- The numbers of the ids that stems have. -/
def numbersOf (stems : List Stem) : List Int := stems.filterMap fun s => s.id.map Id.number

/-- The sites of the stems that have an id, by its number, the last one first. -/
def sitesOf (stems : List Stem) : List (Int × Site) :=
  stems.reverse.filterMap fun s => s.id.map fun id => (id.number, s.site)

theorem keys_sitesOf (stems : List Stem) :
    (sitesOf stems).map (·.1) = (numbersOf stems).reverse := by
  unfold sitesOf numbersOf
  rw [List.map_filterMap, ← List.filterMap_reverse]
  refine List.filterMap_congr fun s _ => ?_
  rw [Option.map_map]
  rfl

theorem mem_sitesOf {stems : List Stem} {s : Stem} (h : s ∈ stems) {id : Id} (hid : s.id = some id) :
    (id.number, s.site) ∈ sitesOf stems := by
  refine List.mem_filterMap.2 ⟨s, List.mem_reverse.2 h, ?_⟩
  rw [hid, Option.map_some]

section

variable {numbering : Numbering} {parent : Option Site} {origin : Pointer} {raw : Json.Members}
  {o : Outline} (h : (outline numbering parent origin raw).outcome = .ok o)

include h

theorem site_eq_stem : o.site = o.stem.site := by
  rw [← bare_site h, ← o.stem_bare]
  rfl

theorem sites_eq : o.sites = sitesOf o.stems := by
  rw [Outline.sites, sitesOf, Outline.stems, ← List.map_reverse, List.filterMap_map]
  refine List.filterMap_congr fun o' ho' => ?_
  obtain ⟨_, _, _, h'⟩ := outline_of_mem_all h (List.mem_reverse.1 ho')
  rw [site_eq_stem h']
  rfl

end

/-- A stem is found by its address as in a table. -/
theorem find?_origin_eq (l : List Stem) (p : Pointer) :
    (l.find? fun s => s.origin == p) = (l.map fun s => (s.origin, s)).lookup p := by
  induction l with
  | nil => rfl
  | cons s rest ih =>
    have sides : (s.origin == p) = (p == s.origin) := Bool.beq_comm
    rw [List.find?_cons, List.map_cons, List.lookup_cons, ← ih, sides]

/-- No two declarations of a document whose objects repeat no key are at one address. -/
theorem nodup_origins {numbering : Numbering} {parent : Option Site} {origin : Pointer}
    {raw : Json.Members} {o : Outline} (distinct : Json.Value.distinctKeysInMembers raw)
    (h : (outline numbering parent origin raw).outcome = .ok o) :
    (o.stems.map Stem.origin).Nodup := by
  have once := (outline_nested numbering parent origin raw distinct).covers.1
  rw [outline_creations h, List.map_map] at once
  rw [Outline.stems, List.map_map]
  exact once

/-- Among renamed stems, the one at a new address is the one at the old address, renamed. -/
theorem find?_rename (r : Renaming) (l : List Stem) (p : Pointer) :
    ((l.map (·.rename r)).find? fun s => s.origin == r.address p) =
      (l.find? fun s => s.origin == p).map (·.rename r) := by
  rw [List.find?_map]
  congr 2
  funext s
  exact Bool.eq_iff_iff.2 (by simp [Stem.rename, r.address_injective.eq_iff])

/-- Among renamed stems, the one with a new number is the one with the old number, renamed. -/
theorem lookup_sitesOf_renumber {r : Renaming} {f : Int → Int} (hf : Function.Injective f)
    (ids : ∀ i, (r.id i).number = f i.number) (l : List Stem) (n : Int) :
    (sitesOf (l.map (·.rename r))).lookup (f n) = ((sitesOf l).lookup n).map r.site := by
  unfold sitesOf
  rw [← List.map_reverse]
  induction l.reverse with
  | nil => rfl
  | cons s rest ih =>
    have renamed : (s.rename r).id = s.id.map r.id := rfl
    rw [List.map_cons, List.filterMap_cons, List.filterMap_cons, renamed]
    cases s.id with
    | none => exact ih
    | some i =>
      have same : (f n == f i.number) = (n == i.number) :=
        Bool.eq_iff_iff.2 (by simp [hf.eq_iff])
      simp only [Option.map_some, List.lookup_cons, ids, same]
      split
      · rfl
      · exact ih

theorem lookup_sitesOf_rename {r : Renaming} (ids : r.id = id) (l : List Stem) (n : Int) :
    (sitesOf (l.map (·.rename r))).lookup n = ((sitesOf l).lookup n).map r.site :=
  lookup_sitesOf_renumber Function.injective_id (fun i => by rw [ids]; rfl) l n

/-- What has been created at an address is found by its stem. -/
theorem created?_stem (o : Outline) (p : Pointer) :
    ((Setting.ofOutline o).created? p).map Declaration.stem =
      o.stems.find? fun s => s.origin == p := by
  unfold Setting.created? Setting.ofOutline Outline.stems
  induction o.all with
  | nil => rfl
  | cons o' rest ih =>
    rw [List.map_cons, List.map_cons, List.lookup_cons, List.find?_cons]
    have origin : (p == o'.origin) = (o'.stem.origin == p) := Bool.beq_comm
    rw [origin]
    split
    · exact congrArg some o'.stem_bare
    · exact ih

end Document

end DocShape
