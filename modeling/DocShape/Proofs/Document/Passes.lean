import DocShape.Document.Project
import DocShape.Proofs.Document.Filled
import DocShape.Proofs.Document.Filling
import DocShape.Proofs.Json.Keys
import Mathlib.Logic.Relation

/-!
The two passes over a document agree (`passes_agree`): what the outline creates is nested without gaps,
and reading fills only what has been created, each declaration once, so that no look-up ever fails.
-/

namespace DocShape.Document

open Json

/-! ## The first pass -/

/-- `c` has been created in `p`. -/
def IsParent (created : List Creation) (c p : Creation) : Prop :=
  p ∈ created ∧ c.parent = some p.site

/-- Every declaration is created once, the root in nothing and any other in the innermost one around
it, and every chain of parents ends at the root. -/
structure Created (created : List Creation) : Prop where
  once : (created.map Creation.origin).Nodup
  root : ∀ c ∈ created, c.origin = [] → c.parent = none
  inner : ∀ c ∈ created, c.origin ≠ [] → ∃ p, IsInnermost created c p ∧ IsParent created c p
  place : ∀ c ∈ created, c.site.place.tail = Creation.placeIn c.parent
  chain : ∀ c ∈ created, ∃ r, Relation.ReflTransGen (IsParent created) c r ∧ r.origin = []

private theorem chain_to_root {created : List Creation}
    (inner : ∀ c ∈ created, c.origin ≠ [] → ∃ p, IsInnermost created c p ∧ IsParent created c p)
    {c : Creation} (hc : c ∈ created) :
    ∃ r, Relation.ReflTransGen (IsParent created) c r ∧ r.origin = [] := by
  by_cases ho : c.origin = []
  · exact ⟨c, .refl, ho⟩
  obtain ⟨p, ⟨hp, ⟨hs, hne⟩, -⟩, hparent⟩ := inner c hc ho
  -- The address of the parent is shorter.
  have hlt : p.origin.length < c.origin.length := by
    refine Nat.lt_of_le_of_ne hs.length_le fun hl => hne (hs.eq_of_length hl)
  obtain ⟨r, hr, hroot⟩ := chain_to_root inner hp
  exact ⟨r, .head hparent hr, hroot⟩
termination_by c.origin.length

private theorem Nested.created {created : List Creation} (h : Nested none [] created) :
    Created created := by
  have inner : ∀ c ∈ created, c.origin ≠ [] →
      ∃ p, IsInnermost created c p ∧ IsParent created c p := by
    intro c hc ho
    rcases h.parents c hc with ⟨hroot, -⟩ | ⟨p, hp, hparent⟩
    · exact absurd hroot ho
    · exact ⟨p, hp, hp.1, hparent⟩
  refine ⟨h.covers.1, fun c hc ho => ?_, inner, h.place, fun c hc => chain_to_root inner hc⟩
  rcases h.parents c hc with ⟨-, hparent⟩ | ⟨p, ⟨-, ⟨hs, hne⟩, -⟩, -⟩
  · exact hparent
  · rw [ho] at hs hne
    exact absurd (List.suffix_nil.1 hs) hne

/-! ## The second pass -/

/-- Only created declarations are filled, each at most once; and when all goes well, exactly those that
the root holds, children and inline declarations alike, each where it has been created. -/
structure Filled (created : List Creation) (second : Filling Declaration) : Prop where
  registered : ∀ p ∈ second.notes, p ∈ created.map Creation.origin
  once : second.notes.Nodup
  known : second.outcome ≠ .error .unregistered
  all : ∀ root, second.outcome = .ok root →
    root.all.map (·.origin) = second.notes ∧ ∀ d ∈ root.all, d.site ∈ created.map (·.site)

private theorem exists_of_created? {o : Outline} {p : Pointer} {d : Declaration}
    (h : (Setting.ofOutline o).created? p = some d) :
    ∃ o' ∈ o.all, o'.origin = p ∧ o'.bare = d := by
  obtain ⟨before, after, hl, -⟩ := List.lookup_eq_some_iff.1 h
  have hm : (p, d) ∈ o.all.map fun o => (o.origin, o.bare) := by
    show (p, d) ∈ (Setting.ofOutline o).created
    rw [hl]
    exact List.mem_append_right _ (List.mem_cons_self ..)
  obtain ⟨o', ho', heq⟩ := List.mem_map.1 hm
  exact ⟨o', ho', Prod.mk.inj heq⟩

private theorem created?_isSome {o o' : Outline} (h : o' ∈ o.all) :
    ((Setting.ofOutline o).created? o'.origin).isSome :=
  List.lookup_isSome_iff.2 ⟨_, List.mem_map.2 ⟨o', h, rfl⟩, by simp⟩

/-- What is looked up at an address has been created there, at the site of its outline. -/
private theorem site_of_created? {numbering : Numbering} {raw : Members} {o : Outline}
    (h : (outline numbering none [] raw).outcome = .ok o) {p : Pointer} {d : Declaration}
    (hd : (Setting.ofOutline o).created? p = some d) :
    ∃ o' ∈ o.all, o'.origin = p ∧ d.site = o'.site := by
  obtain ⟨o', ho', hp, rfl⟩ := exists_of_created? hd
  obtain ⟨_, _, _, hf⟩ := outline_of_mem_all h ho'
  exact ⟨o', ho', hp, bare_site hf⟩

theorem keyed_ofOutline {numbering : Numbering} {raw : Members} {o : Outline}
    (h : (outline numbering none [] raw).outcome = .ok o) : (Setting.ofOutline o).Keyed := by
  intro p d hd
  obtain ⟨o', -, hp, hs⟩ := site_of_created? h hd
  rw [← hp]
  exact congrArg Site.origin hs

theorem reading_filled {numbering : Numbering} {raw : Members} {o : Outline}
    (h : (outline numbering none [] raw).outcome = .ok o) :
    Filled (outline numbering none [] raw).notes
      (readDeclaration (Setting.ofOutline o) [] raw) := by
  have sound : Sound (Setting.ofOutline o) [[]] (readDeclaration (Setting.ofOutline o) [] raw) :=
    readDeclaration_sound ⟨numbering, none, o, h, fun o' ho' => created?_isSome ho'⟩
  have keyed := keyed_ofOutline h
  rw [outline_creations h]
  refine ⟨fun p hp => ?_, sound.covers.1, sound.known, fun root hroot => ?_⟩
  · obtain ⟨d, hd⟩ := Option.isSome_iff_exists.1 (sound.registered p hp)
    obtain ⟨o', ho', hp, -⟩ := site_of_created? h hd
    rw [List.map_map]
    exact List.mem_map.2 ⟨o', ho', hp⟩
  · obtain ⟨hn, hs⟩ := readDeclaration_filled keyed [] raw (by simp) root hroot
    rw [List.map_map] at hn
    refine ⟨hn.symm, fun d hd => ?_⟩
    obtain ⟨d', hd', hsite⟩ := Option.map_eq_some_iff.1 (hs d.site (List.mem_map.2 ⟨d, hd, rfl⟩))
    obtain ⟨o', ho', -, hs'⟩ := site_of_created? h hd'
    rw [List.map_map]
    exact List.mem_map.2 ⟨o', ho', hs'.symm.trans hsite⟩

private theorem ofMembers_known (raw : Members) :
    Project.ofMembers raw ≠ .error .unregistered := by
  unfold Project.ofMembers
  cases ho : (outline (Project.numberingOf raw) none [] raw).outcome with
  | error e =>
    rintro ⟨⟩
    exact outline_known _ _ _ _ ho
  | ok o =>
    have known := (reading_filled ho).known
    cases hr : (readDeclaration (Setting.ofOutline o) [] raw).outcome with
    | error e =>
      simp only [hr, bind, Except.bind]
      rintro ⟨⟩
      exact known hr
    | ok root => simp [hr, bind, Except.bind, pure, Except.pure]

/-! ## Both passes -/

/-- The two passes over a document agree. Its objects repeat no key, as those that are read from text
(`read_hasDistinctKeys`). -/
theorem passes_agree (raw : Members) (distinct : (Value.object raw).hasDistinctKeys) :
    let first := outline (Project.numberingOf raw) none [] raw
    Created first.notes ∧
      (∀ o, first.outcome = .ok o →
        Filled first.notes (readDeclaration (Setting.ofOutline o) [] raw)) ∧
      Project.ofMembers raw ≠ .error .unregistered :=
  ⟨(outline_nested _ none [] raw distinct).created, fun _ ho => reading_filled ho,
    ofMembers_known raw⟩

/-- A child, and an inline declaration below its type. -/
def inlineInChild : Members :=
  [("name", .text "m"), ("kind", .int 1), ("children", .array [.object
    [("name", .text "f"), ("kind", .int 64), ("type", .object
      [("type", .text "reflection"), ("declaration", .object [("kind", .int 65536)])])]])]

theorem passes_agree_inlineInChild :
    let first := outline (Project.numberingOf inlineInChild) none [] inlineInChild
    first.notes.length = 3 ∧ Created first.notes ∧
      (∀ o, first.outcome = .ok o →
        Filled first.notes (readDeclaration (Setting.ofOutline o) [] inlineInChild)) ∧
      Project.ofMembers inlineInChild ≠ .error .unregistered :=
  ⟨by decide +kernel, passes_agree inlineInChild (by decide)⟩

end DocShape.Document
