import DocShape.Proofs.Declaration.Reaches
import DocShape.Proofs.Document.Origins

/-!
The documented declarations of a loaded document. The children of every declaration are in it and in the order
of the document (`arranged_of_ofMembers`). So what is documented comes in this order, and the way on which a
documented declaration is reached is what its full name is made of (`documented_are_members`).
-/

namespace DocShape

open Json Document

/-! ## Document order -/

namespace Document

/-- One address stands before another one in a document: where the two part, it has the smaller index. -/
def Precedes (p q : Pointer) : Prop :=
  ∃ base i j, i < j ∧ .index i :: base <:+ p ∧ .index j :: base <:+ q

theorem Precedes.below {p p' q q' : Pointer} (h : Precedes p q) (hp : p <:+ p') (hq : q <:+ q') :
    Precedes p' q' := by
  obtain ⟨base, i, j, hij, hi, hj⟩ := h
  exact ⟨base, i, j, hij, hi.trans hp, hj.trans hq⟩

theorem Precedes.ne {p q : Pointer} (h : Precedes p q) : p ≠ q := by
  obtain ⟨base, i, j, hij, hi, hj⟩ := h
  exact (apart_of_steps (fun he => Nat.ne_of_lt hij (Step.index.inj he)) hi hj).ne

end Document

namespace Declaration

/-- The children of a declaration are created in it, and come in the order of the document. -/
structure HoldsChildren (d : Declaration) : Prop where
  ordered : d.children.Pairwise fun a b => Precedes a.origin b.origin
  address : ∀ c ∈ d.children, ∃ i, c.origin = .index i :: .key "children" :: d.origin
  enclosing : ∀ c ∈ d.children, c.enclosing = d.place

/-- A declaration holds its children, and so do they, and on. -/
inductive Arranged : Declaration → Prop
  | mk {d : Declaration} : d.HoldsChildren → (∀ c ∈ d.children, c.Arranged) → Arranged d

section

variable {d e : Declaration} {spaces : List Declaration}

theorem Arranged.holds (h : d.Arranged) : d.HoldsChildren := by
  cases h with
  | mk holds _ => exact holds

theorem Arranged.child (h : d.Arranged) (he : e ∈ d.children) : e.Arranged := by
  cases h with
  | mk _ inner => exact inner e he

theorem Reaches.arranged (h : d.Reaches spaces e) (arranged : d.Arranged) : e.Arranged := by
  induction h with
  | child hc => exact arranged.child hc
  | through hs _ _ ih => exact ih (arranged.child hs)

/-- The names and kinds on the way are those of the declarations that are passed. -/
theorem Reaches.place (h : d.Reaches spaces e) (arranged : d.Arranged) :
    e.place = ((spaces ++ [e]).map (·.segment)).reverse ++ d.place := by
  induction h with
  | child hc =>
    rw [Declaration.place, arranged.holds.enclosing _ hc]
    rfl
  | @through d space e spaces hs _ _ ih =>
    have outer : space.place = space.segment :: d.place := by
      rw [Declaration.place, arranged.holds.enclosing _ hs]
    rw [ih (arranged.child hs), outer]
    simp

/-- Only children are passed on the way. -/
theorem Reaches.origin (h : d.Reaches spaces e) (arranged : d.Arranged) :
    ∃ positions : List Nat, positions ≠ [] ∧
      e.origin = (positions.flatMap fun i => [.index i, .key "children"]) ++ d.origin := by
  induction h with
  | child hc =>
    obtain ⟨i, hi⟩ := arranged.holds.address _ hc
    exact ⟨[i], by simp, hi⟩
  | through hs _ _ ih =>
    obtain ⟨i, hi⟩ := arranged.holds.address _ hs
    obtain ⟨positions, -, he⟩ := ih (arranged.child hs)
    exact ⟨positions ++ [i], by simp, by simp [he, hi]⟩

theorem Reaches.encloses (h : d.Reaches spaces e) (arranged : d.Arranged) :
    Encloses d.origin e.origin := by
  obtain ⟨positions, some, origin⟩ := h.origin arranged
  refine ⟨⟨_, origin.symm⟩, fun same => ?_⟩
  have length := congrArg List.length origin
  cases positions with
  | nil => exact some rfl
  | cons i rest =>
    rw [← same] at length
    simp only [List.flatMap_cons, List.length_append, List.length_cons] at length
    omega

theorem Arranged.suffix_of_mem_documented (arranged : d.Arranged) (h : e ∈ d.documented) :
    d.origin <:+ e.origin := by
  obtain ⟨-, spaces, way⟩ := mem_documented_iff.1 h
  exact (way.encloses arranged).1

theorem Arranged.documented_pairwise (arranged : d.Arranged) :
    d.documented.Pairwise fun a b => Precedes a.origin b.origin := by
  induction arranged with
  | @mk d holds inner ih =>
    rw [documented_eq, List.pairwise_flatMap]
    -- What a child contributes stands at the child, or inside it.
    have below : ∀ c ∈ d.children, ∀ e ∈ (if Kind.groups c.kind then c.documented else [c]),
        c.origin <:+ e.origin := by
      intro c hc e he
      split at he
      · exact (inner c hc).suffix_of_mem_documented he
      · obtain rfl := List.mem_singleton.1 he
        exact List.suffix_rfl
    refine ⟨fun c hc => ?_, holds.ordered.imp_of_mem fun ha hb hab x hx y hy =>
      hab.below (below _ ha x hx) (below _ hb y hy)⟩
    split
    · exact ih c hc
    · exact List.pairwise_singleton ..

end

end Declaration

/-! ## Loaded documents -/

namespace Document

theorem parent_of_outline {numbering : Numbering} {parent : Option Site} {p : Pointer} {m : Members}
    {o : Outline} (h : (outline numbering parent p m).outcome = .ok o) : o.creation.parent = parent := by
  rw [outline_eq] at h
  simp only [Journal.outcome_bind_eq_ok, Journal.outcome_pure, Except.ok.injEq] at h
  obtain ⟨-, -, -, -, -, -, -, -, rfl⟩ := h
  rfl

/-- Each node of a child has an outline, which is inside that of the declaration. -/
theorem exists_outline_of_child {numbering : Numbering} {parent : Option Site} {p : Pointer} {m : Members}
    {o : Outline} (ho : (outline numbering parent p m).outcome = .ok o) {nodes : List (Nat × Smaller m)}
    (hn : childNodes m "children" = .ok nodes) {e : Nat × Smaller m} (he : e ∈ nodes) :
    ∃ o', (outline numbering (some o.site) (.index e.1 :: .key "children" :: p) e.2.1).outcome = .ok o' ∧
      ∀ o'' ∈ o'.all, o'' ∈ o.all := by
  obtain ⟨nodes', -, hn', -, -, -, outlines, -⟩ := outline_ok ho
  cases hn.symm.trans hn'
  obtain ⟨o', ho', hr⟩ := Journal.exists_result outlines he
  refine ⟨o', hr, fun o'' hm => ?_⟩
  rw [all_eq]
  exact List.mem_cons_of_mem _ (List.mem_append_left _ (List.mem_flatMap.2 ⟨o', ho', hm⟩))

/-- Each node of a child is read as one. -/
theorem children_of_read {setting : Setting} {p : Pointer} {m : Members} {d : Declaration}
    (hd : (readDeclaration setting p m).outcome = .ok d) {nodes : List (Nat × Smaller m)}
    (hn : childNodes m "children" = .ok nodes) :
    nodes.map (fun e =>
      (readDeclaration setting (.index e.1 :: .key "children" :: p) e.2.1).outcome) =
        d.children.map .ok := by
  obtain ⟨l, hl, hc⟩ := Journal.outcome_bind_eq_ok.1 (readDeclaration_ok hd).2.2
  cases (childNodes_ok hn).symm.trans hl
  have results := Journal.outcome_mapM_eq_ok.1 hc
  rw [List.map_map] at results
  exact results

section

variable {whole : Outline} {numbering : Numbering} (known : (whole.stems.map Stem.origin).Nodup)

include known

/-- A declaration that is created and then read is where it has been created. -/
theorem stem_of_read {parent : Option Site} {p : Pointer} {m : Members} {o : Outline}
    {d : Declaration} (ho : (outline numbering parent p m).outcome = .ok o) (hm : o ∈ whole.all)
    (hd : (readDeclaration (Setting.ofOutline whole) p m).outcome = .ok d) :
    d.origin = p ∧ d.enclosing = Creation.placeIn parent ∧ d.site = o.site := by
  obtain ⟨-, -, -, -, origin, -⟩ := outline_ok ho
  obtain ⟨bare, hb, stem⟩ := created?_of_readDeclaration hd
  rw [← origin, created?_of_mem known hm] at hb
  cases hb
  rw [Outline.stem_bare] at stem
  refine ⟨(congrArg Stem.origin stem).trans origin, ?_, (congrArg Stem.site stem).trans ?_⟩
  · rw [← parent_of_outline ho]
    exact congrArg Stem.enclosing stem
  · exact (site_eq_stem ho).symm

/-- What is read is arranged, if the outline of its node is one of the whole document. -/
theorem arranged_of_read {parent : Option Site} {p : Pointer} {m : Members} {o : Outline}
    {d : Declaration} (ho : (outline numbering parent p m).outcome = .ok o)
    (hall : ∀ o' ∈ o.all, o' ∈ whole.all)
    (hd : (readDeclaration (Setting.ofOutline whole) p m).outcome = .ok d) : d.Arranged := by
  obtain ⟨origin, -, site⟩ := stem_of_read known ho (hall o (all_eq o ▸ List.mem_cons_self ..)) hd
  obtain ⟨nodes, -, hn, -⟩ := outline_ok ho
  have results := children_of_read hd hn
  have child : ∀ e ∈ nodes, ∀ c, (readDeclaration (Setting.ofOutline whole)
      (.index e.1 :: .key "children" :: p) e.2.1).outcome = .ok c →
        c.origin = .index e.1 :: .key "children" :: p ∧ c.enclosing = d.place ∧ c.Arranged := by
    intro e he c hc
    obtain ⟨o', ho', inner⟩ := exists_outline_of_child ho hn he
    rw [← site] at ho'
    have hall' : ∀ o'' ∈ o'.all, o'' ∈ whole.all := fun o'' hm => hall o'' (inner o'' hm)
    obtain ⟨origin, enclosing, -⟩ :=
      stem_of_read known ho' (hall' o' (all_eq o' ▸ List.mem_cons_self ..)) hc
    have smaller := e.2.2
    exact ⟨origin, enclosing, arranged_of_read ho' hall' hc⟩
  have ordered : d.children.map (·.origin) =
      nodes.map fun e => .index e.1 :: .key "children" :: p := by
    rw [List.map_eq_flatMap, List.map_eq_flatMap]
    exact (flatMap_congr_map results fun e he c hc => by rw [(child e he c hc).1]).symm
  refine .mk ⟨?_, fun c hc => ?_, fun c hc => ?_⟩ (fun c hc => ?_)
  · rw [← List.pairwise_map (f := Declaration.origin) (R := Precedes), ordered, List.pairwise_map]
    have ascending := nodes_ascending (childNodes_ok hn)
    rw [List.pairwise_map] at ascending
    exact ascending.imp fun h => ⟨_, _, _, h, List.suffix_rfl, List.suffix_rfl⟩
  all_goals obtain ⟨e, he, hr⟩ := Journal.exists_of_result results hc
  · exact ⟨e.1, origin ▸ (child e he c hr).1⟩
  · exact (child e he c hr).2.1
  · exact (child e he c hr).2.2
termination_by sizeOf m

end

end Document

/-- Below a project root all names count but those of file-level modules. -/
theorem Place.named_below {inner outer : Place} {root : Segment} (global : root.kind = some .global)
    (below : ∀ s ∈ inner, s.kind ≠ some .global) :
    named (inner ++ root :: outer) = inner.filter (·.kind != some .externalModule) := by
  unfold named
  rw [List.takeWhile_append_of_pos fun s hs => by simpa using below s hs,
    List.takeWhile_cons_of_neg (by simp [global]), List.append_nil]

namespace Project

variable {raw : Members} {project : Project}

/-- In a loaded document the children of the root, and theirs, are in it one after the other. -/
theorem arranged_of_ofMembers (distinct : (Value.object raw).hasDistinctKeys)
    (h : Project.ofMembers raw = .ok project) :
    project.root.Arranged ∧ project.root.origin = [] ∧ project.root.enclosing = [] := by
  obtain ⟨houtline, hroot⟩ := Project.ofMembers_eq_ok.1 h
  have known := Document.nodup_origins distinct houtline
  obtain ⟨origin, enclosing, -⟩ :=
    stem_of_read known houtline (all_eq project.outline ▸ List.mem_cons_self ..) hroot
  exact ⟨arranged_of_read known houtline (fun _ hm => hm) hroot, origin, enclosing⟩

/-- The documented declarations of a loaded document come in the order of the document, each once, and are
exactly those other than the root that group nothing and are reached through the children of namespaces. The
places around such a declaration are the way to it; so below a project root, and in no namespace that is one
itself, its full name is made of the names on the way without those of file-level modules. -/
theorem documented_are_members (distinct : (Value.object raw).hasDistinctKeys)
    (h : Project.ofMembers raw = .ok project) :
    (project.documented.Pairwise fun d e => Precedes d.origin e.origin) ∧
      (project.documented.map (·.origin)).Nodup ∧
      (∀ d, d ∈ project.documented ↔ d.origin ≠ project.root.origin ∧ Kind.groups d.kind = false ∧
        ∃ spaces, project.root.Reaches spaces d) ∧
      ∀ d ∈ project.documented, ∀ spaces, project.root.Reaches spaces d →
        (∃ positions : List Nat,
          d.origin = positions.flatMap fun i => [.index i, .key "children"]) ∧
        d.place = ((project.root :: spaces ++ [d]).map (·.segment)).reverse ∧
        (project.root.kind = some .global → (∀ space ∈ spaces, space.kind ≠ some .global) →
          d.fullName = Text.joinWith "."
            (((spaces ++ [d]).filter (·.kind != some .externalModule)).map (·.name))) := by
  obtain ⟨arranged, origin, enclosing⟩ := arranged_of_ofMembers distinct h
  have ordered := arranged.documented_pairwise
  refine ⟨ordered, ?_, fun d => ?_, fun d hd spaces way => ?_⟩
  · rw [List.nodup_iff_pairwise_ne, List.pairwise_map]
    exact ordered.imp Precedes.ne
  · rw [Project.documented, Declaration.mem_documented_iff]
    refine ⟨fun ⟨member, spaces, way⟩ => ⟨?_, member, spaces, way⟩, fun ⟨_, reached⟩ => reached⟩
    exact (way.encloses arranged).2.symm
  have place : d.place = ((spaces ++ [d]).map (·.segment)).reverse ++ [project.root.segment] := by
    rw [way.place arranged, Declaration.place, enclosing]
  refine ⟨?_, by rw [place]; simp, fun global below => ?_⟩
  · obtain ⟨positions, -, address⟩ := way.origin arranged
    exact ⟨positions, by rw [address, origin, List.append_nil]⟩
  · have inner : ∀ s ∈ ((spaces ++ [d]).map (·.segment)).reverse, s.kind ≠ some .global := by
      intro s hs
      obtain ⟨e, he, rfl⟩ := List.mem_map.1 (List.mem_reverse.1 hs)
      rcases List.mem_append.1 he with he | he
      · exact below e he
      · rw [List.mem_singleton.1 he]
        intro kind
        have member : Kind.groups d.segment.kind = false :=
          Declaration.groups_of_mem_documented hd
        rw [kind] at member
        cases member
    rw [Declaration.fullName, Place.fullName, place, Place.named_below global inner,
      List.filter_reverse, List.map_reverse, List.reverse_reverse, List.filter_map, List.map_map]
    rfl

/-- A file-level module around a namespace with an interface and a variable of an inline type, and a function
beside it. -/
def twoLevels : Members :=
  let node (name : Text) (kind : Int) (rest : Members) : Value :=
    .object (("name", .text name) :: ("kind", .int kind) :: rest)
  let inlineType : Value := .object [("type", .text "reflection"),
    ("declaration", node "__type" 65536 [("children", .array [node "x" 32 []])])]
  [("name", .text "p"), ("kind", .int 0), ("children", .array
    [node "f" 1 [("children", .array
      [node "n" 2 [("children", .array
        [node "I" 256 [("children", .array [node "m" 1024 []])],
          node "v" 32 [("type", inlineType)]])]])],
      node "g" 64 []])]

private def wayToI : Place :=
  [⟨"f", some .externalModule⟩, ⟨"n", some .module⟩, ⟨"I", some .interface⟩]

/-- The interface is listed first, and is reached through the module and the namespace. -/
theorem documented_are_members_twoLevels :
    ∃ p, Project.ofMembers twoLevels = .ok p ∧
      p.documented.map (·.fullName) = [Text.ofString "n.I", "n.v", "g"] ∧
      ∃ d ∈ p.documented, ∃ spaces, p.root.Reaches spaces d ∧
        spaces.map (·.name) = [Text.ofString "f", "n"] ∧ d.fullName = "n.I" := by
  have loaded : (Project.ofMembers twoLevels).toOption.any fun p =>
      p.root.segment == ⟨"p", some .global⟩ &&
        p.documented.map (·.fullName) == [Text.ofString "n.I", "n.v", "g"] &&
        p.documented.head?.map (·.place) == some (wayToI.reverse ++ [⟨"p", some .global⟩]) := by
    decide +kernel
  obtain ⟨p, hp, h⟩ := Journal.exists_ok_of_any loaded
  simp only [Bool.and_eq_true, beq_iff_eq] at h
  obtain ⟨⟨root, names⟩, first⟩ := h
  obtain ⟨d, head, hplace⟩ := Option.map_eq_some_iff.1 first
  have hd : d ∈ p.documented := List.mem_of_head? head
  obtain ⟨-, -, exactly, ways⟩ := documented_are_members (by decide) hp
  obtain ⟨-, -, spaces, reached⟩ := (exactly d).1 hd
  obtain ⟨-, place, named⟩ := ways d hd spaces reached
  have way : (spaces ++ [d]).map (·.segment) = wayToI := by
    rw [place, List.cons_append, List.map_cons, List.reverse_cons, root, List.append_left_inj] at hplace
    exact List.reverse_injective hplace
  have passed : spaces.map (·.segment) = wayToI.dropLast := by
    rw [← way, List.map_append, List.map_singleton, List.dropLast_concat]
  have below : ∀ space ∈ spaces, space.kind ≠ some .global := by
    intro space hs
    have hm : space.segment ∈ wayToI.dropLast := passed ▸ List.mem_map.2 ⟨space, hs, rfl⟩
    exact (by decide : ∀ s ∈ wayToI.dropLast, s.kind ≠ some .global) _ hm
  refine ⟨p, hp, names, d, hd, spaces, reached, ?_, ?_⟩
  · have names := congrArg (List.map Segment.name) passed
    rw [List.map_map] at names
    exact names
  · have names : ((spaces ++ [d]).filter (·.kind != some .externalModule)).map (·.name) =
        (wayToI.filter (·.kind != some .externalModule)).map (·.name) := by
      rw [← way, List.filter_map, List.map_map]
      rfl
    rw [named (congrArg Segment.kind root) below, names]
    rfl

end Project

end DocShape
