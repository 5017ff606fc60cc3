import DocShape.Document.Project
import DocShape.Link.Resolver
import DocShape.Proofs.Declaration.Reaches
import DocShape.Proofs.Declaration.Renaming
import DocShape.Proofs.Table

/-!
Where links lead. A link is a page and an anchor on it. Two documented names share a link just where
their pages have one slug and their declarations one name of their own (`link_eq_iff`); two namespaces
may have one slug (`spaces_share_link`). On the page of its target a link is cut down to the anchor, and
page and anchor make up the link again just where the root of all pages has no mark of an anchor itself
(`linkTo_on_page`, `anchor_below_marked_root`).
-/

namespace DocShape

open Json (Members)

/-! ## Last segments -/

/-- The code points behind the last point of a name. -/
def LastSegment (segment name : Text) : Prop :=
  (0x2e : CodePoint) ∉ segment ∧ (name = segment ∨ ∃ space, name = space ++ 0x2e :: segment)

theorem exists_lastSegment (name : Text) : ∃ segment, LastSegment segment name := by
  by_cases h : (0x2e : CodePoint) ∈ name
  · obtain ⟨segment, space, hname, hs⟩ := List.eq_append_cons_of_mem (List.mem_reverse.2 h)
    refine ⟨segment.reverse, by simpa using hs, Or.inr ⟨space.reverse, ?_⟩⟩
    simpa using congrArg List.reverse hname
  · exact ⟨name, h, Or.inl rfl⟩

theorem LastSegment.behind {segment name : Text} (h : LastSegment segment name) (outer : Text) :
    LastSegment segment (outer ++ 0x2e :: name) := by
  refine ⟨h.1, Or.inr ?_⟩
  rcases h.2 with rfl | ⟨space, rfl⟩
  · exact ⟨outer, rfl⟩
  · exact ⟨outer ++ 0x2e :: space, by simp⟩

/-- Names with one last segment differ before their last points, or only one of them has a point. -/
theorem LastSegment.unique {segment name name' : Text} (h : LastSegment segment name)
    (h' : LastSegment segment name')
    (space : Text.beforeLast 0x2e name = Text.beforeLast 0x2e name')
    (points : (0x2e : CodePoint) ∈ name ↔ (0x2e : CodePoint) ∈ name') : name = name' := by
  obtain ⟨hs, rfl | ⟨outer, rfl⟩⟩ := h
  · obtain ⟨-, rfl | ⟨outer', rfl⟩⟩ := h'
    · rfl
    · exact absurd (points.2 (by simp)) hs
  · obtain ⟨-, rfl | ⟨outer', rfl⟩⟩ := h'
    · exact absurd (points.1 (by simp)) hs
    · rw [Text.beforeLast_append_cons hs, Text.beforeLast_append_cons hs] at space
      rw [space]

/-! ## Full names of documented declarations -/

theorem joinWith_append_singleton (outer : List Text) (name : Text) :
    Text.joinWith "." (outer ++ [name]) =
      if outer = [] then name else Text.joinWith "." outer ++ 0x2e :: name := by
  unfold Text.joinWith
  induction outer with
  | nil => simp
  | cons part rest ih =>
    cases rest with
    | nil => simp [List.intercalate_cons_cons, Text.ofString, CodePoint.ofChar]
    | cons next rest =>
      simp only [List.cons_append, List.intercalate_cons_cons, reduceCtorEq, ↓reduceIte] at ih ⊢
      rw [ih]
      simp

/-- The full name of a declaration that groups nothing is that of what is around it, where that has one, and
its own name. -/
theorem fullName_eq_of_groups {d : Declaration} (h : Kind.groups d.kind = false) :
    d.fullName = if Place.named d.enclosing = [] then d.name
      else Place.fullName d.enclosing ++ 0x2e :: d.name := by
  have global : d.segment.kind ≠ some .global := by
    intro hk
    simp [Declaration.kind, hk, Kind.groups, Kind.isNamespace] at h
  have fileModule : d.segment.kind ≠ some .externalModule := by
    intro hk
    simp [Declaration.kind, hk, Kind.groups, Kind.isNamespace] at h
  rw [Declaration.fullName, Declaration.place, Place.fullName, Place.named_cons, if_neg global,
    if_neg fileModule, List.map_cons, List.reverse_cons, joinWith_append_singleton]
  simp only [List.reverse_eq_nil_iff, List.map_eq_nil_iff]
  rfl

/-- The full name of a declaration that groups nothing ends in its own name. -/
theorem fullName_of_groups {d : Declaration} (h : Kind.groups d.kind = false) :
    d.fullName = d.name ∨ ∃ outer, d.fullName = outer ++ 0x2e :: d.name := by
  rw [fullName_eq_of_groups h]
  split
  · exact Or.inl rfl
  · exact Or.inr ⟨_, rfl⟩

theorem lastSegment_fullName {d : Declaration} {root : Declaration} (h : d ∈ root.documented)
    {segment : Text} (hs : LastSegment segment d.name) : LastSegment segment d.fullName := by
  rcases fullName_of_groups (Declaration.groups_of_mem_documented h) with he | ⟨outer, he⟩
  · rwa [he]
  · rw [he]
    exact hs.behind outer

namespace Link

/-! ## Pages -/

/-- The part of a path behind the root of the documentation. -/
def behindRoot (slug : Text) : Text := if slug.isEmpty then "/" else "/" ++ slug ++ "/"

theorem pagePath_eq (apiRoot stripPrefix space : Text) : pagePath apiRoot stripPrefix space =
    Text.dropTrailing 0x2f apiRoot ++ behindRoot (slug (Text.dropPrefix stripPrefix space)) := by
  unfold pagePath behindRoot
  dsimp only
  split
  · rfl
  · simp only [List.append_assoc]

/-- Slugs of one path are one slug. -/
theorem behindRoot_injective {s t : Text} (h : behindRoot s = behindRoot t) : s = t := by
  have length : ∀ s : Text, (behindRoot s).length = if s = [] then 1 else s.length + 2 := by
    intro s
    cases s with
    | nil => rfl
    | cons c s => simp [behindRoot, Text.ofString]
  have same := congrArg List.length h
  rw [length, length] at same
  cases s with
  | nil =>
    cases t with
    | nil => rfl
    | cons d t => simp at same
  | cons c s =>
    cases t with
    | nil => simp at same
    | cons d t => simpa [behindRoot] using h

/-- What a slug consists of does not begin an anchor. -/
theorem hash_not_mem_behindRoot (name : Text) : (0x23 : CodePoint) ∉ behindRoot (slug name) := by
  intro h
  unfold behindRoot at h
  split at h
  · exact absurd h (by decide)
  · rcases List.mem_append.1 h with h | h
    · rcases List.mem_append.1 h with h | h
      · exact absurd h (by decide)
      · exact absurd (isSlugPoint_of_mem_slug h) (by decide)
    · exact absurd h (by decide)

namespace Style

variable (style : Style)

/-- The root of all pages as it stands in front of slugs. -/
def root : Text := Text.dropTrailing 0x2f style.apiRoot

/-- The slug of the namespace of a full name. -/
def slugOf (fullName : Text) : Text :=
  slug (Text.dropPrefix style.stripPrefix (Text.beforeLast 0x2e fullName))

theorem page_eq (fullName : Text) :
    style.page fullName = style.root ++ behindRoot (style.slugOf fullName) :=
  pagePath_eq _ _ _

/-- Names of one page have one slug. -/
theorem page_eq_iff {n n' : Text} : style.page n = style.page n' ↔ style.slugOf n = style.slugOf n' := by
  rw [page_eq, page_eq, List.append_cancel_left_eq]
  constructor
  · exact behindRoot_injective
  · exact congrArg behindRoot

theorem link_target (d : Declaration) : (style.target d).link =
    style.page d.fullName ++ 0x23 :: (style.anchorPrefix ++ d.name) := by
  simp [target, Text.ofString, CodePoint.ofChar]

/-- A link determines the page, and what is behind it. -/
theorem link_target_eq_iff (d d' : Declaration) : (style.target d).link = (style.target d').link ↔
    style.page d.fullName = style.page d'.fullName ∧ d.name = d'.name := by
  rw [link_target, link_target]
  constructor
  · intro h
    rw [page_eq, page_eq, List.append_assoc, List.append_assoc, List.append_cancel_left_eq] at h
    have hash := hash_not_mem_behindRoot (Text.dropPrefix style.stripPrefix
      (Text.beforeLast 0x2e d.fullName))
    have hash' := hash_not_mem_behindRoot (Text.dropPrefix style.stripPrefix
      (Text.beforeLast 0x2e d'.fullName))
    have anchors := congrArg (Text.afterFirst 0x23) h
    rw [slugOf, slugOf, Text.afterFirst_append_cons hash, Text.afterFirst_append_cons hash'] at anchors
    rw [anchors] at h
    refine ⟨?_, List.append_cancel_left anchors⟩
    rw [page_eq, page_eq, List.append_cancel_right h]
  · rintro ⟨hp, hn⟩
    rw [hp, hn]

/-- The resolver of a project. -/
def resolver (project : Project) : Resolver := ⟨targets style project.documented⟩

variable {style} {project : Project}

theorem exists_of_lookup {n : Text} {t : Target} (h : (style.resolver project).lookup n = some t) :
    ∃ d ∈ project.documented, d.fullName = n ∧ t = style.target d := by
  obtain ⟨d, hd, he⟩ := List.mem_map.1 (Table.mem_of_get?_ofList h)
  cases he
  exact ⟨d, hd, rfl, rfl⟩

/-- The names that are known are those of the documented declarations. -/
theorem isSome_lookup_iff {n : Text} :
    ((style.resolver project).lookup n).isSome ↔ ∃ d ∈ project.documented, d.fullName = n := by
  have names : (project.documented.map fun d => (d.fullName, style.target d)).map (·.1) =
      project.documented.map (·.fullName) := by
    rw [List.map_map]
    rfl
  rw [← Option.ne_none_iff_isSome, Resolver.lookup, Ne, Table.get?_eq_none_iff, not_not, resolver, targets,
    Table.keys_ofList, List.mem_eraseDups, names, List.mem_map]

/-! ## Two links -/

/-- Two documented names have one link just where their pages are one and the declarations that they
stand for have one name of their own; and pages are one just where the slugs of the namespaces are.
Two names of one namespace never have one link. -/
theorem link_eq_iff {n n' : Text} {t t' : Target}
    (h : (style.resolver project).lookup n = some t)
    (h' : (style.resolver project).lookup n' = some t') :
    ∃ d ∈ project.documented, ∃ d' ∈ project.documented,
      (d.fullName = n ∧ t = style.target d) ∧ (d'.fullName = n' ∧ t' = style.target d') ∧
      (t.link = t'.link ↔ t.page = t'.page ∧ d.name = d'.name) ∧
      (t.page = t'.page ↔ style.slugOf n = style.slugOf n') ∧
      (n ≠ n' → Text.beforeLast 0x2e n = Text.beforeLast 0x2e n' →
        ((0x2e : CodePoint) ∈ n ↔ (0x2e : CodePoint) ∈ n') → t.link ≠ t'.link) := by
  obtain ⟨d, hd, rfl, rfl⟩ := exists_of_lookup h
  obtain ⟨d', hd', rfl, rfl⟩ := exists_of_lookup h'
  refine ⟨d, hd, d', hd', ⟨rfl, rfl⟩, ⟨rfl, rfl⟩, style.link_target_eq_iff d d',
    style.page_eq_iff, fun hne space points he => hne ?_⟩
  -- One link means one name of their own, and so one last segment.
  have name : d.name = d'.name := ((style.link_target_eq_iff d d').1 he).2
  obtain ⟨segment, hs⟩ := exists_lastSegment d.name
  have hs' : LastSegment segment d'.name := name ▸ hs
  exact (lastSegment_fullName hd hs).unique (lastSegment_fullName hd' hs') space points

/-- A module `a_b` with `X` and `Y`, and a module `b` in a module `a` with another `X`. -/
def twoSpaces : Members :=
  let module (name : Text) (members : List Json.Value) : Json.Value := .object
    [("name", .text name), ("kind", .int 2), ("children", .array members)]
  let interface (name : Text) : Json.Value := .object [("name", .text name), ("kind", .int 256)]
  [("name", .text "p"), ("kind", .int 0), ("children", .array
    [module "a_b" [interface "X", interface "Y"], module "a" [module "b" [interface "X"]]])]

/-- A style whose root of all pages is given. -/
def below (apiRoot : Text) : Style := ⟨apiRoot, [], "type-"⟩

private def memberAt (origin : Json.Pointer) (names : List Text) (name : Text) : Site :=
  ⟨origin, ⟨name, some .interface⟩ :: names.map (⟨·, some .module⟩) ++ [⟨"p", some .global⟩]⟩

private def siteOfX : Site :=
  memberAt [.index 0, .key "children", .index 0, .key "children"] ["a_b"] "X"

private def siteOfY : Site :=
  memberAt [.index 1, .key "children", .index 0, .key "children"] ["a_b"] "Y"

private def siteOfInnerX : Site :=
  memberAt [.index 0, .key "children", .index 0, .key "children", .index 1, .key "children"]
    ["b", "a"] "X"

/-- The target of a member, on the one page that all three have. -/
private def sharedTarget (apiRoot title name : Text) : Target :=
  ⟨title, apiRoot ++ "/a_b/#type-" ++ name, apiRoot ++ "/a_b/"⟩

private def sharedTargets (apiRoot : Text) : Table Target :=
  [("a_b.X", sharedTarget apiRoot "a_b.X" "X"), ("a_b.Y", sharedTarget apiRoot "a_b.Y" "Y"),
    ("a.b.X", sharedTarget apiRoot "a.b.X" "X")]

private theorem twoSpaces_documented (root : Text)
    (hroot : root ∈ [Text.ofString "/docs", Text.ofString "/#/docs"]) :
    ∃ p, Project.ofMembers twoSpaces = .ok p ∧
      p.documented.map (·.site) = [siteOfX, siteOfY, siteOfInnerX] ∧
      (below root).resolver p = ⟨sharedTargets root⟩ := by
  have loaded : (Project.ofMembers twoSpaces).toOption.any fun p =>
      p.documented.map (·.site) == [siteOfX, siteOfY, siteOfInnerX] &&
        [Text.ofString "/docs", Text.ofString "/#/docs"].all fun root =>
          targets (below root) p.documented == sharedTargets root := by decide +kernel
  obtain ⟨p, hp, h⟩ := Journal.exists_ok_of_any loaded
  obtain ⟨sites, all⟩ := Bool.and_eq_true_iff.1 h
  exact ⟨p, hp, eq_of_beq sites,
    congrArg Resolver.mk (eq_of_beq (List.all_eq_true.1 all root hroot))⟩

/-- The two members of one module. -/
theorem link_eq_iff_oneSpace :
    ∃ p, Project.ofMembers twoSpaces = .ok p ∧ ∃ t t',
      ((below "/docs").resolver p).lookup "a_b.X" = some t ∧
      ((below "/docs").resolver p).lookup "a_b.Y" = some t' ∧ t.page = t'.page ∧ t.link ≠ t'.link := by
  obtain ⟨p, hp, -, hr⟩ := twoSpaces_documented "/docs" (by simp)
  have first : ((below "/docs").resolver p).lookup "a_b.X" =
      some (sharedTarget "/docs" "a_b.X" "X") := by
    rw [hr]
    rfl
  have second : ((below "/docs").resolver p).lookup "a_b.Y" =
      some (sharedTarget "/docs" "a_b.Y" "Y") := by
    rw [hr]
    rfl
  obtain ⟨_, -, _, -, -, -, -, -, apart⟩ := link_eq_iff first second
  exact ⟨p, hp, _, _, first, second, rfl, apart (by decide) (by decide) (by decide)⟩

/-- Two namespaces with one slug. -/
theorem spaces_share_link :
    Text.ofString "a_b.X" ≠ Text.ofString "a.b.X" ∧
      ∃ p, Project.ofMembers twoSpaces = .ok p ∧ ∃ t t',
        ((below "/docs").resolver p).lookup "a_b.X" = some t ∧
        ((below "/docs").resolver p).lookup "a.b.X" = some t' ∧ t.link = t'.link := by
  obtain ⟨p, hp, -, hr⟩ := twoSpaces_documented "/docs" (by simp)
  refine ⟨by decide, p, hp, ?_⟩
  rw [hr]
  exact ⟨_, _, rfl, rfl, rfl⟩

/-! ## Links as seen from a page -/

theorem root_marked_iff : (0x23 : CodePoint) ∈ style.root ↔ (0x23 : CodePoint) ∈ style.apiRoot :=
  Text.mem_dropTrailing (by decide)

/-- What is left of a link when everything before its first mark is cut off. -/
theorem afterFirst_link (d : Declaration) :
    style.page d.fullName ++ "#" ++ Text.afterFirst 0x23 (style.target d).link =
      (style.target d).link ↔ (0x23 : CodePoint) ∉ style.apiRoot := by
  rw [link_target, ← root_marked_iff]
  constructor
  · intro h marked
    have hash : (0x23 : CodePoint) ∈ style.page d.fullName := by
      rw [page_eq]
      exact List.mem_append_left _ marked
    obtain ⟨before, after, hpage, hb⟩ := List.eq_append_cons_of_mem hash
    -- The mark in the page comes first, so that more than the anchor is left.
    have cut : Text.afterFirst 0x23
        (style.page d.fullName ++ 0x23 :: (style.anchorPrefix ++ d.name)) =
          after ++ 0x23 :: (style.anchorPrefix ++ d.name) := by
      rw [hpage, List.append_assoc, List.cons_append, Text.afterFirst_append_cons hb]
    rw [cut] at h
    have length := congrArg List.length h
    have one : (Text.ofString "#").length = 1 := rfl
    simp only [List.length_append, List.length_cons] at length
    omega
  · intro clear
    have hash : (0x23 : CodePoint) ∉ style.page d.fullName := by
      rw [page_eq]
      intro hm
      rcases List.mem_append.1 hm with hm | hm
      · exact clear hm
      · exact hash_not_mem_behindRoot _ hm
    rw [Text.afterFirst_append_cons hash, List.append_assoc]
    rfl

/-- A link to a documented declaration is the stored one, or else only what stands behind the first mark
in it, and that where the owner is on the page of the target. Page and shown link then make up the stored
link just where there is no mark in the root of all pages. -/
theorem linkTo_on_page (owner : Place) (site : Site) {found : Target}
    (h : (style.resolver project).lookup site.fullName = some found) :
    ∃ shown, (style.resolver project).linkTo owner (some site) = some shown ∧
      ((style.resolver project).pageOf owner ≠ some found.page → shown = found) ∧
      ((style.resolver project).pageOf owner = some found.page →
        shown.title = found.title ∧ shown.page = found.page ∧
        (found.page ++ shown.link = found.link ↔ (0x23 : CodePoint) ∉ style.apiRoot)) := by
  have linkTo : (style.resolver project).linkTo owner (some site) =
      if (style.resolver project).pageOf owner = some found.page then
        some { found with link := "#" ++ Text.afterFirst 0x23 found.link }
      else some found := by
    simp only [Resolver.linkTo, h, Option.bind_eq_bind, Option.bind_some]
    rfl
  by_cases same : (style.resolver project).pageOf owner = some found.page
  · rw [if_pos same] at linkTo
    refine ⟨_, linkTo, fun other => absurd same other, fun _ => ⟨rfl, rfl, ?_⟩⟩
    obtain ⟨d, -, -, rfl⟩ := exists_of_lookup h
    rw [← afterFirst_link d, List.append_assoc]
    rfl
  · rw [if_neg same] at linkTo
    exact ⟨found, linkTo, fun _ => rfl, fun other => absurd other same⟩

/-- Neighbours in a project, as `Y` and `X` of one module. -/
private theorem exists_neighbours {p : Project}
    (h : p.documented.map (·.site) = [siteOfX, siteOfY, siteOfInnerX]) :
    ∃ owner ∈ p.documented, ∃ target ∈ p.documented, owner.place = siteOfY.place ∧
      target.site = siteOfX := by
  obtain ⟨target, ht, site⟩ := List.mem_map.1 (h ▸ List.mem_cons_self .. :
    siteOfX ∈ p.documented.map (·.site))
  obtain ⟨owner, ho, place⟩ := List.mem_map.1 (h ▸ List.mem_cons_of_mem _ (List.mem_cons_self ..) :
    siteOfY ∈ p.documented.map (·.site))
  exact ⟨owner, ho, target, ht, congrArg Site.place place, site⟩

/-- A link between neighbours is cut down to its anchor, and nothing is lost. -/
theorem linkTo_on_page_neighbour :
    ∃ p, Project.ofMembers twoSpaces = .ok p ∧ ∃ owner ∈ p.documented, ∃ target ∈ p.documented,
      ∃ found shown, ((below "/docs").resolver p).lookup target.site.fullName = some found ∧
        ((below "/docs").resolver p).linkTo owner.place (some target.site) = some shown ∧
        shown.link = "#type-X" ∧ found.page ++ shown.link = found.link := by
  obtain ⟨p, hp, hs, hr⟩ := twoSpaces_documented "/docs" (by simp)
  obtain ⟨owner, ho, target, ht, place, site⟩ := exists_neighbours hs
  have found : ((below "/docs").resolver p).lookup target.site.fullName =
      some (sharedTarget "/docs" "a_b.X" "X") := by
    rw [hr, site]
    rfl
  have page : ((below "/docs").resolver p).pageOf owner.place = some (Text.ofString "/docs/a_b/") := by
    rw [hr, place]
    rfl
  obtain ⟨shown, linkTo, -, cut⟩ := linkTo_on_page owner.place target.site found
  obtain ⟨-, -, whole⟩ := cut page
  have link := whole.2 (by decide)
  exact ⟨p, hp, owner, ho, target, ht, _, shown, found, linkTo, List.append_cancel_left link, link⟩

/-- Where the root of all pages has a mark, more than the anchor is left. -/
theorem anchor_below_marked_root :
    ∃ p, Project.ofMembers twoSpaces = .ok p ∧ ∃ owner ∈ p.documented, ∃ target ∈ p.documented,
      ∃ found shown, ((below "/#/docs").resolver p).lookup target.site.fullName = some found ∧
        ((below "/#/docs").resolver p).linkTo owner.place (some target.site) = some shown ∧
        shown.link ≠ found.link ∧ shown.link = "#/docs/a_b/#type-X" ∧
        found.page ++ shown.link ≠ found.link := by
  obtain ⟨p, hp, hs, hr⟩ := twoSpaces_documented "/#/docs" (by simp)
  obtain ⟨owner, ho, target, ht, place, site⟩ := exists_neighbours hs
  refine ⟨p, hp, owner, ho, target, ht, ?_⟩
  rw [hr, place, site]
  exact ⟨_, _, rfl, rfl, by decide, rfl, by decide⟩

end Style

end Link

end DocShape
