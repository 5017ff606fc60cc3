import DocShape.Proofs.Document.Documented
import DocShape.Proofs.Link.Anchors

/-!
Members of a namespace are linked on its page. The page of a target is found by cutting its full name at the
last point; for a declaration whose own name has no point, what is left is the full name of the namespace
around it (`beforeLast_fullName`). So all members of a namespace share its page, and so do the declarations
inside them (`pageOf_of_within`): a link from there to another member is cut down, and just the anchor is left
where the root of all pages has no mark of one (`members_on_page`, `anchor_from_nested_owner`).
-/

namespace DocShape

open Json Document

/-! ## Namespaces and their members -/

/-- Before the last point of a full name stands the full name of what is around the declaration. -/
theorem beforeLast_fullName {d : Declaration} (member : Kind.groups d.kind = false)
    (undotted : (0x2e : CodePoint) ∉ d.name) :
    Text.beforeLast 0x2e d.fullName = Place.fullName d.enclosing := by
  rw [fullName_eq_of_groups member]
  split
  · rename_i unnamed
    rw [Text.beforeLast_of_not_mem undotted, Place.fullName, unnamed]
    rfl
  · exact Text.beforeLast_append_cons undotted _

namespace Project

/-- The root of a project, or a namespace that is reached from it. -/
def HasSpace (project : Project) (space : Declaration) : Prop :=
  space = project.root ∨ Kind.groups space.kind ∧ ∃ spaces, project.root.Reaches spaces space

/-- The last documented declaration with its full name, if its own name has no point. -/
structure Stands (project : Project) (d : Declaration) : Prop where
  last : ∃ before after, project.documented = before ++ d :: after ∧
    d.fullName ∉ after.map (·.fullName)
  undotted : (0x2e : CodePoint) ∉ d.name

variable {project : Project} {space d : Declaration}

theorem Stands.mem_documented (h : project.Stands d) : d ∈ project.documented := by
  obtain ⟨before, after, split, -⟩ := h.last
  rw [split]
  exact List.mem_append_right _ (List.mem_cons_self ..)

theorem exists_space_of_mem_documented (h : d ∈ project.documented) :
    ∃ space, project.HasSpace space ∧ d ∈ space.children := by
  obtain ⟨-, spaces, way⟩ := Declaration.mem_documented_iff.1 h
  rcases way.last_step with hc | ⟨outer, space, way, groups, hc⟩
  · exact ⟨project.root, .inl rfl, hc⟩
  · exact ⟨space, .inr ⟨groups, outer, way⟩, hc⟩

/-- The members of a namespace are created in it. -/
theorem HasSpace.enclosing (h : project.HasSpace space) (arranged : project.root.Arranged)
    (hd : d ∈ space.children) : d.enclosing = space.place := by
  have inner : space.Arranged := by
    rcases h with rfl | ⟨-, spaces, way⟩
    · exact arranged
    · exact way.arranged arranged
  exact inner.holds.enclosing d hd

end Project

namespace Link

/-! ## Pages as seen from inside -/

namespace Resolver

variable {resolver : Resolver}

/-- A declaration is created in another one at any depth, and neither it nor any between the two is documented
under its full name. -/
inductive Within (resolver : Resolver) (created : List Creation) (d : Declaration) : Creation → Prop
  | itself {c : Creation} : c ∈ created → c.site = d.site → Within resolver created d c
  | inside {c p : Creation} : c ∈ created → IsParent created c p →
    resolver.lookup c.site.fullName = .none → Within resolver created d p → Within resolver created d c

theorem pageOf_of_lookup {segment : Segment} {outer : Place} {found : Target}
    (h : resolver.lookup (Place.fullName (segment :: outer)) = some found) :
    resolver.pageOf (segment :: outer) = some found.page := by
  rw [pageOf, Place.enclosing, List.findSome?_cons, h]
  rfl

theorem pageOf_of_unknown {segment : Segment} {outer : Place}
    (h : resolver.lookup (Place.fullName (segment :: outer)) = .none) :
    resolver.pageOf (segment :: outer) = resolver.pageOf outer := by
  rw [pageOf, Place.enclosing, List.findSome?_cons, h]
  rfl

/-- Where nothing further in is documented, the page is that of the declaration around. -/
theorem pageOf_of_within {created : List Creation} {d : Declaration} {c : Creation}
    (nested : Created created) (h : Within resolver created d c) :
    c.site.place ≠ [] ∧ resolver.pageOf c.site.place = resolver.pageOf d.place := by
  induction h with
  | itself _ site =>
    rw [site]
    exact ⟨List.cons_ne_nil _ _, rfl⟩
  | @inside c p hc parent unknown _ ih =>
    have outer : c.site.place.tail = p.site.place := by
      rw [nested.place c hc, parent.2]
      rfl
    obtain ⟨segment, rest, place⟩ := List.exists_cons_of_ne_nil (l := c.site.place) fun empty => by
      rw [empty] at outer
      exact ih.1 outer.symm
    rw [Site.fullName, place] at unknown
    rw [place, List.tail_cons] at outer
    rw [place, pageOf_of_unknown unknown, outer]
    exact ⟨List.cons_ne_nil _ _, ih.2⟩

/-- On the page of its target, a link is cut at its first mark. -/
theorem linkTo_of_page {owner : Place} {site : Site} {found : Target}
    (h : resolver.lookup site.fullName = some found) (page : resolver.pageOf owner = some found.page) :
    resolver.linkTo owner (some site) =
      some { found with link := "#" ++ Text.afterFirst 0x23 found.link } := by
  simp only [Resolver.linkTo, h, Option.bind_eq_bind, Option.bind_some, page, ↓reduceIte]
  rfl

end Resolver

namespace Style

variable {style : Style} {project : Project} {d : Declaration}

theorem lookup_of_stands (h : project.Stands d) :
    (style.resolver project).lookup d.fullName = some (style.target d) := by
  obtain ⟨before, after, split, last⟩ := h.last
  unfold resolver targets Resolver.lookup
  rw [split, List.map_append, List.map_cons]
  refine Table.get?_ofList_of_last ?_
  rw [List.map_map]
  exact last

/-- What is left of a link is the anchor just where the first mark in it is that of the anchor. -/
theorem cut_eq_anchor_iff (d : Declaration) :
    "#" ++ Text.afterFirst 0x23 (style.target d).link = "#" ++ style.anchorPrefix ++ d.name ↔
      (0x23 : CodePoint) ∉ style.apiRoot := by
  have behind : ∀ t, style.page d.fullName ++ t = (style.target d).link ↔
      t = "#" ++ style.anchorPrefix ++ d.name := by
    intro t
    rw [link_target]
    exact List.append_right_inj _
  rw [← behind, ← List.append_assoc]
  exact afterFirst_link d

/-- The target of a member is an anchor on the page of its namespace. -/
structure LinkedOn (style : Style) (project : Project) (space d : Declaration) (found : Target) : Prop where
  known : (style.resolver project).lookup d.fullName = some found
  page : found.page = pagePath style.apiRoot style.stripPrefix space.fullName
  link : found.link = found.page ++ "#" ++ style.anchorPrefix ++ d.name

theorem linkedOn_of_stands (style : Style) {space : Declaration} (enclosing : d.enclosing = space.place)
    (h : project.Stands d) : style.LinkedOn project space d (style.target d) := by
  refine ⟨lookup_of_stands h, ?_, rfl⟩
  have member := Declaration.groups_of_mem_documented h.mem_documented
  show style.page d.fullName = _
  rw [Style.page, beforeLast_fullName member h.undotted, enclosing]
  rfl

/-- Every documented declaration is a child of the root or of a namespace reached from it. If it is the last
one with its full name, and has no point in its own name, its target is an anchor on the page of this
namespace, which all such members of the namespace share. A link to one of them from another one, or from a
declaration inside of it, is cut down; and then just the anchor is left where the root of all pages has no
mark of an anchor itself, whatever the prefixes are. -/
theorem members_on_page (style : Style) {raw : Members} (distinct : (Value.object raw).hasDistinctKeys)
    (h : Project.ofMembers raw = .ok project) :
    (∀ d ∈ project.documented, ∃ space, project.HasSpace space ∧ d ∈ space.children) ∧
      ∀ space, project.HasSpace space → ∀ d ∈ space.children, project.Stands d →
        d.enclosing = space.place ∧ (∃ found, style.LinkedOn project space d found) ∧
        ∀ e ∈ space.children, project.Stands e → ∀ owner,
          Resolver.Within (style.resolver project) (project.outline.all.map (·.creation)) d owner →
          ∃ found shown, style.LinkedOn project space e found ∧
            (style.resolver project).linkTo owner.site.place (some e.site) = some shown ∧
            shown.title = found.title ∧ shown.page = found.page ∧
            (shown.link = "#" ++ style.anchorPrefix ++ e.name ↔
              (0x23 : CodePoint) ∉ style.apiRoot) := by
  obtain ⟨arranged, -, -⟩ := Project.arranged_of_ofMembers distinct h
  obtain ⟨houtline, -⟩ := Project.ofMembers_eq_ok.1 h
  have nested : Created (project.outline.all.map (·.creation)) :=
    outline_creations houtline ▸ (passes_agree raw distinct).1
  refine ⟨fun d hd => Project.exists_space_of_mem_documented hd, fun space hspace d hd stands => ?_⟩
  have here := linkedOn_of_stands style (hspace.enclosing arranged hd) stands
  refine ⟨hspace.enclosing arranged hd, ⟨_, here⟩, fun e he also owner within => ?_⟩
  have there := linkedOn_of_stands style (hspace.enclosing arranged he) also
  -- The climb from the owner ends at the member around it, which is on the page of the namespace.
  have page : (style.resolver project).pageOf owner.site.place = some (style.target e).page := by
    rw [(Resolver.pageOf_of_within nested within).2, there.page, ← here.page]
    exact Resolver.pageOf_of_lookup here.known
  exact ⟨_, _, there, Resolver.linkTo_of_page there.known page, rfl, rfl, cut_eq_anchor_iff e⟩

/-- A namespace with an interface, and a variable of an inline type. -/
def interfaceAndInline : Members :=
  let node (name : Text) (kind : Int) (rest : Members) : Value :=
    .object (("name", .text name) :: ("kind", .int kind) :: rest)
  let inlineType : Value :=
    .object [("type", .text "reflection"), ("declaration", node "__type" 65536 [])]
  [("name", .text "p"), ("kind", .int 0), ("children", .array
    [node "n" 2 [("children", .array [node "X" 256 [], node "Y" 32 [("type", inlineType)]])]])]

private def placeOfN : Place := [⟨"n", some .module⟩, ⟨"p", some .global⟩]

private def siteInN (i : Nat) (segment : Segment) : Site :=
  ⟨[.index i, .key "children", .index 0, .key "children"], segment :: placeOfN⟩

private def createdY : Creation :=
  ⟨siteInN 1 ⟨"Y", some .variable⟩, some ⟨[.index 0, .key "children"], placeOfN⟩⟩

private def createdInY : Creation :=
  ⟨⟨.key "declaration" :: .key "type" :: createdY.origin,
    ⟨"__type", some .typeLiteral⟩ :: createdY.site.place⟩, some createdY.site⟩

private theorem segment_of_site {d : Declaration} {i : Nat} {segment : Segment}
    (h : d.site = siteInN i segment) : d.segment = segment :=
  (List.cons.inj (congrArg Site.place h)).1

private theorem name_of_site {d : Declaration} {i : Nat} {segment : Segment}
    (h : d.site = siteInN i segment) : d.name = segment.name :=
  congrArg Segment.name (segment_of_site h)

private theorem exists_members : ∃ p n x y, Project.ofMembers interfaceAndInline = .ok p ∧
    p.HasSpace n ∧ n.children = [x, y] ∧ p.documented = [x, y] ∧
    x.site = siteInN 0 ⟨"X", some .interface⟩ ∧ y.site = createdY.site ∧
    createdY ∈ p.outline.all.map (·.creation) ∧ createdInY ∈ p.outline.all.map (·.creation) := by
  have loaded : (Project.ofMembers interfaceAndInline).toOption.any fun p =>
      p.root.children.map (fun n => (n.kind, n.children.map (·.site))) ==
          [(some .module, [siteInN 0 ⟨"X", some .interface⟩, createdY.site])] &&
        decide (createdY ∈ p.outline.all.map (·.creation)) &&
        decide (createdInY ∈ p.outline.all.map (·.creation)) := by decide +kernel
  obtain ⟨p, hp, h⟩ := Journal.exists_ok_of_any loaded
  simp only [Bool.and_eq_true, beq_iff_eq, decide_eq_true_eq] at h
  obtain ⟨⟨children, outer⟩, inner⟩ := h
  obtain ⟨n, root, hn⟩ := List.map_eq_singleton_iff.1 children
  obtain ⟨kind, members⟩ := Prod.mk.inj hn
  obtain ⟨x, _, hx, siteX, rest⟩ := List.map_eq_cons_iff.1 members
  obtain ⟨y, rfl, siteY⟩ := List.map_eq_singleton_iff.1 rest
  have kindX : x.kind = some .interface := congrArg Segment.kind (segment_of_site siteX)
  have kindY : y.kind = some .variable := congrArg Segment.kind (segment_of_site siteY)
  have documented : p.documented = [x, y] := by
    rw [Project.documented, Declaration.documented_eq, root, List.flatMap_singleton, kind,
      Declaration.documented_eq, hx]
    simp [kindX, kindY, Kind.groups, Kind.isNamespace]
  have space : p.HasSpace n := by
    refine .inr ⟨by rw [kind]; rfl, [], .child ?_⟩
    rw [root]
    exact List.mem_singleton_self n
  exact ⟨p, n, x, y, hp, space, hx, documented, siteX, siteY, outer, inner⟩

/-- From inside the type of the variable, the interface is an anchor. -/
theorem members_on_page_inline :
    ∃ p, Project.ofMembers interfaceAndInline = .ok p ∧ ∃ x ∈ p.documented, ∃ y ∈ p.documented,
      ∃ owner, owner.parent = some y.site ∧
        Resolver.Within ((below "/docs").resolver p) (p.outline.all.map (·.creation)) y owner ∧
        ∃ shown, ((below "/docs").resolver p).linkTo owner.site.place (some x.site) = some shown ∧
          shown.link = "#type-X" := by
  obtain ⟨p, n, x, y, hp, space, members, documented, siteX, siteY, outer, inner⟩ := exists_members
  have nameX : x.name = "X" := name_of_site siteX
  have nameY : y.name = "Y" := name_of_site siteY
  have fullNameX : x.fullName = "n.X" := congrArg Site.fullName siteX
  have fullNameY : y.fullName = "n.Y" := congrArg Site.fullName siteY
  have standsX : p.Stands x := by
    refine ⟨⟨[], [y], documented, ?_⟩, by rw [nameX]; decide⟩
    rw [List.map_singleton, fullNameX, fullNameY]
    decide
  have standsY : p.Stands y := ⟨⟨[x], [], documented, List.not_mem_nil⟩, by rw [nameY]; decide⟩
  have unknown : ((below "/docs").resolver p).lookup createdInY.site.fullName = .none := by
    rw [← Option.not_isSome_iff_eq_none, isSome_lookup_iff, documented]
    rintro ⟨d, hd, name⟩
    rcases List.mem_pair.1 hd with rfl | rfl
    · rw [fullNameX] at name
      exact absurd name (by decide)
    · rw [fullNameY] at name
      exact absurd name (by decide)
  have within : Resolver.Within ((below "/docs").resolver p) (p.outline.all.map (·.creation)) y
      createdInY := .inside inner ⟨outer, rfl⟩ unknown (.itself outer siteY.symm)
  obtain ⟨-, pages⟩ := members_on_page (below "/docs") (by decide) hp
  obtain ⟨-, -, links⟩ := pages n space y (by simp [members]) standsY
  obtain ⟨found, shown, -, linkTo, -, -, anchor⟩ :=
    links x (by simp [members]) standsX createdInY within
  refine ⟨p, hp, x, by simp [documented], y, by simp [documented], createdInY,
    congrArg some siteY.symm, within, shown, linkTo, ?_⟩
  rw [anchor.2 (by decide), nameX]
  rfl

/-- Below a marked root the link keeps the path behind the mark. -/
theorem anchor_from_nested_owner :
    ∃ p, Project.ofMembers interfaceAndInline = .ok p ∧ ∃ x ∈ p.documented, ∃ y ∈ p.documented,
      ∃ owner, owner.parent = some y.site ∧
        Resolver.Within ((below "/#/docs").resolver p) (p.outline.all.map (·.creation)) y owner ∧
        ∃ shown, ((below "/#/docs").resolver p).linkTo owner.site.place (some x.site) = some shown ∧
          shown.page = "/#/docs/n/" ∧ shown.link = "#/docs/n/#type-X" ∧ shown.link ≠ "#type-X" := by
  obtain ⟨p, n, x, y, hp, -, -, documented, siteX, siteY, outer, inner⟩ := exists_members
  have fullNameX : x.fullName = "n.X" := congrArg Site.fullName siteX
  have fullNameY : y.fullName = "n.Y" := congrArg Site.fullName siteY
  have known : (below "/#/docs").resolver p =
      ⟨[("n.X", ⟨"n.X", "/#/docs/n/#type-X", "/#/docs/n/"⟩),
        ("n.Y", ⟨"n.Y", "/#/docs/n/#type-Y", "/#/docs/n/"⟩)]⟩ := by
    rw [resolver, targets, documented, List.map_cons, List.map_singleton, target, target, fullNameX,
      fullNameY, name_of_site siteX, name_of_site siteY]
    rfl
  refine ⟨p, hp, x, by simp [documented], y, by simp [documented], createdInY,
    congrArg some siteY.symm, ?_⟩
  rw [known, siteX]
  exact ⟨.inside inner ⟨outer, rfl⟩ rfl (.itself outer siteY.symm), _, rfl, rfl, rfl, by decide⟩

end Style

end Link

end DocShape
