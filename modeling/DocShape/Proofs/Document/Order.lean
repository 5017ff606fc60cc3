import DocShape.Proofs.Command.Selection
import DocShape.Proofs.Conversion.Renaming
import DocShape.Proofs.Document.References
import Mathlib.Logic.Equiv.Basic

/-!
The order of children. Where the children of the project or of a namespace in it are put in another
order, the same is documented (`ofMembers_reordered`), and what is documented under one name only keeps
its link target and its conversion (`references_resolve_in_any_order`).
-/

namespace DocShape.Document

open Json Journal

/-! ## New positions -/

/-- New positions, behind a first item that stays. -/
def behindFirst (f : Nat → Nat) : Nat → Nat
  | 0 => 0
  | i + 1 => f i + 1

theorem behindFirst_injective {f : Nat → Nat} (h : Function.Injective f) :
    Function.Injective (behindFirst f) := by
  intro i j hij
  cases i <;> cases j <;> simp only [behindFirst] at hij <;> first | rfl | omega | skip
  exact congrArg (· + 1) (h (Nat.succ.inj hij))

private theorem objectsFrom_succ (i : Nat) (items : List Value) :
    objectsFrom (i + 1) items = (objectsFrom i items).map fun c => (c.1 + 1, c.2) := by
  induction items generalizing i with
  | nil => rfl
  | cons item rest ih =>
    rw [objectsFrom_cons, objectsFrom_cons, ih, List.map_append, List.map_map]
    rfl

/-- The objects of a list in another order are its objects at new positions. -/
theorem objectsFrom_perm {items items' : List Value} (h : items.Perm items') :
    ∃ f : Nat → Nat, Function.Injective f ∧
      (objectsFrom 0 items').Perm ((objectsFrom 0 items).map fun c => (f c.1, c.2)) := by
  induction h with
  | nil => exact ⟨id, Function.injective_id, .nil⟩
  | @cons item l l' _ ih =>
    obtain ⟨f, hf, hl⟩ := ih
    refine ⟨behindFirst f, behindFirst_injective hf, ?_⟩
    rw [objectsFrom_cons, objectsFrom_cons, objectsFrom_succ, objectsFrom_succ, List.map_append,
      List.map_map, List.map_map]
    refine List.Perm.append (.refl _) ((hl.map _).trans ?_)
    rw [List.map_map]
    exact .refl _
  | swap a b l =>
    refine ⟨Equiv.swap 0 1, (Equiv.swap 0 1).injective, ?_⟩
    have later : (objectsFrom 2 l).map (fun c => (Equiv.swap 0 1 c.1, c.2)) = objectsFrom 2 l := by
      refine (List.map_congr_left fun c hc => ?_).trans (List.map_id _)
      have := (bounds_of_mem_objectsFrom (j := c.1) hc).1
      rw [Equiv.swap_apply_of_ne_of_ne (by omega) (by omega)]
      rfl
    simp only [objectsFrom_cons, List.map_append, List.map_map, Nat.zero_add, Nat.reduceAdd, later]
    rw [← List.append_assoc, ← List.append_assoc]
    exact List.Perm.append List.perm_append_comm (.refl _)
  | trans _ _ ih ih' =>
    obtain ⟨f, hf, hl⟩ := ih
    obtain ⟨f', hf', hl'⟩ := ih'
    refine ⟨f' ∘ f, hf'.comp hf, hl'.trans ((hl.map _).trans ?_)⟩
    rw [List.map_map]
    exact .refl _

/-! ## The reordered list -/

section

variable {base : Pointer} {f : Nat → Nat} {hf : Function.Injective f}

private theorem reordering_moves : MovesBelow (reordering base f hf) base where
  ids := rfl
  sources := rfl
  address _ hp := relocate_of_not_below hp
  around _ _ _ := rfl

private def reorderingRegion (base : Pointer) (f : Nat → Nat) (hf : Function.Injective f) :
    Region (reordering base f hf) where
  inside := Below base
  deep _ := True
  inside_cons s h := h.cons s
  deep_cons _ _ := trivial
  address_cons s h := relocate_cons s h.ne
  around_cons _ _ _ _ := rfl

private theorem below_item (i : Nat) : Below base (.index i :: base) := ⟨i, List.suffix_rfl⟩

private theorem reordering_item (i : Nat) :
    (reordering base f hf).address (.index i :: base) = .index (f i) :: base := relocate_item i

variable {items items' : List Value}
  (perm : (objectsFrom 0 items').Perm ((objectsFrom 0 items).map fun c => (f c.1, c.2)))

include perm

private theorem follows_reordered {ν ν' α α' : Type} {R : α → α' → Prop}
    {g : Nat × Members → Journal ν Fault α} {g' : Nat × Members → Journal ν' Fault α'}
    (step : ∀ i m, Journal.Alike R (g (i, m)) (g' (f i, m))) :
    Follows (fun as as' => ∃ bs, List.Forall₂ R as bs ∧ bs.Perm as')
      ((objectsFrom 0 items).mapM g) ((objectsFrom 0 items').mapM g') := by
  intro as has
  have moved : List.Forall₂ (fun c c' : Nat × Members => c' = (f c.1, c.2)) (objectsFrom 0 items)
      ((objectsFrom 0 items).map fun c => (f c.1, c.2)) := by
    rw [List.forall₂_map_right_iff]
    exact List.forall₂_same.2 fun _ _ => rfl
  obtain ⟨bs, hbs, hall⟩ := (Journal.alike_mapM moved fun c _ c' hc => hc ▸ step c.1 c.2).follows as has
  obtain ⟨as', has', hperm⟩ := follows_mapM_perm perm.symm g' bs hbs
  exact ⟨as', has', bs, hall, hperm⟩

private theorem outlines_reordered (numbering : Numbering) (s : Site) :
    Follows (StemsChanged (reordering base f hf) List.Perm) (outlines numbering s base 0 items)
      (outlines numbering s base 0 items') := by
  refine (follows_reordered (R := StemsRenamed (reordering base f hf)) perm fun i m => ?_).mono ?_
  · rw [← reordering_item i]
    exact outline_twin (Twins.same (reorderingRegion base f hf) rfl rfl numbering)
      (below_item i) trivial rfl rfl
  · rintro os os' ⟨bs, hall, hperm⟩
    unfold StemsChanged
    rw [← flatMap_stems hall]
    exact hperm.flatMap_right _

omit perm in
private theorem documentedIn_perm {ds ds' : List Declaration} (h : ds.Perm ds') :
    (Declaration.documentedIn ds).Perm (Declaration.documentedIn ds') := by
  have each : ∀ l : List Declaration, Declaration.documentedIn l =
      l.flatMap fun d => if Kind.groups d.kind then d.documented else [d] := by
    intro l
    induction l with
    | nil => rfl
    | cons d rest ih => rw [Declaration.documentedIn, ih, List.flatMap_cons]
  rw [each, each]
  exact h.flatMap_right _

private theorem readings_reordered {setting setting' : Setting}
    (known : SettingMoved (reordering base f hf) setting setting') :
    Follows (DocumentedChanged (reordering base f hf) List.Perm) (readings setting base 0 items)
      (readings setting' base 0 items') := by
  refine (follows_reordered
    (R := fun d d' => d' = Declaration.rename (reordering base f hf) d) perm fun i m => ?_).mono ?_
  · rw [← reordering_item i]
    exact readDeclaration_twin (known.twins (reorderingRegion base f hf) rfl rfl .legacy)
      (below_item i) rfl
  · rintro ds ds' ⟨bs, hall, hperm⟩
    unfold DocumentedChanged
    rw [← documentedIn_renamed hall]
    exact documentedIn_perm hperm

end

/-! ## Look-ups -/

/-- No two stems have one address, and no two have one id. -/
structure Unambiguous (stems : List Stem) : Prop where
  origins : (stems.map Stem.origin).Nodup
  ids : (numbersOf stems).Nodup

namespace Unambiguous

variable {l l' : List Stem}

theorem perm (h : Unambiguous l) (hl : l.Perm l') : Unambiguous l' where
  origins := (hl.map _).nodup_iff.1 h.origins
  ids := (hl.filterMap _).nodup_iff.1 h.ids

theorem rename (h : Unambiguous l) {r : Renaming} (ids : r.id = id) :
    Unambiguous (l.map (·.rename r)) where
  origins := by
    have renamed := h.origins.map r.address_injective
    rwa [List.map_map] at renamed ⊢
  ids := by
    have same : numbersOf (l.map (·.rename r)) = numbersOf l := by
      unfold numbersOf
      rw [List.filterMap_map]
      refine List.filterMap_congr fun s _ => ?_
      simp [Stem.rename, ids]
    rw [same]
    exact h.ids

theorem find?_origin (h : Unambiguous l) (hl : l.Perm l') (p : Pointer) :
    (l'.find? fun s => s.origin == p) = l.find? fun s => s.origin == p := by
  rw [find?_origin_eq, find?_origin_eq]
  refine Table.lookup_of_perm (hl.map _) ?_ p
  rw [List.map_map]
  exact h.origins

theorem lookup_sitesOf (h : Unambiguous l) (hl : l.Perm l') (n : Int) :
    (sitesOf l').lookup n = (sitesOf l).lookup n := by
  refine Table.lookup_of_perm ?_ ?_ n
  · exact ((l.reverse_perm.trans hl).trans l'.reverse_perm.symm).filterMap _
  · rw [keys_sitesOf, List.nodup_reverse]
    exact h.ids

end Unambiguous

/-! ## Both passes -/

/-- Two lists of declarations have the same names, link targets and conversions, in any order. -/
structure SameEntries (l l' : List Declaration) : Prop where
  targets : ∀ style : Link.Style, (l'.map fun d => (d.fullName, style.target d)).Perm
    (l.map fun d => (d.fullName, style.target d))
  conversions : ∀ resolver resolver' : Link.Resolver, resolver.Agree resolver' →
    (l'.map fun d => (d.fullName, (convert resolver' d).outcome)).Perm
      (l.map fun d => (d.fullName, (convert resolver d).outcome))

theorem SameEntries.trans {l l' l'' : List Declaration} (h : SameEntries l l')
    (h' : SameEntries l' l'') : SameEntries l l'' where
  targets style := (h'.targets style).trans (h.targets style)
  conversions resolver resolver' same :=
    (h'.conversions resolver' resolver' fun _ => rfl).trans (h.conversions resolver resolver' same)

private theorem sameEntries_of_perm {r : Renaming} {l l' : List Declaration}
    (h : (Declaration.renameAll r l).Perm l') : SameEntries l l' := by
  rw [Declaration.renameAll_eq_map] at h
  refine ⟨fun style => ?_, fun resolver resolver' same => ?_⟩
  · have entries := (h.map fun d => (d.fullName, style.target d)).symm
    rw [List.map_map] at entries
    simpa only [Function.comp_def, Declaration.rename_fullName, Link.Style.target_rename] using entries
  · have entries := (h.map fun d => (d.fullName, (convert resolver' d).outcome)).symm
    rw [List.map_map] at entries
    simpa only [Function.comp_def, Declaration.rename_fullName, outcome_convert_rename r same]
      using entries

/-- Where children are put in another order, the document still loads, and the same is documented. -/
theorem ofMembers_reordered {path : List Nat} {raw raw' : Members} {p : Project}
    (loads : Project.ofMembers raw = .ok p) (clear : Unambiguous p.outline.stems)
    (h : Refilled (Project.numberingOf raw) List.Perm path raw raw') :
    ∃ p', Project.ofMembers raw' = .ok p' ∧ Unambiguous p'.outline.stems ∧
      SameEntries p.documented p'.documented := by
  have positions : ∃ f : { f : Nat → Nat // Function.Injective f },
      Refilled (Project.numberingOf raw) (fun items items' =>
        (objectsFrom 0 items').Perm ((objectsFrom 0 items).map fun c => (f.1 c.1, c.2)))
        path raw raw' :=
    h.witness fun _ _ hperm =>
      let ⟨f, hf, hobjects⟩ := objectsFrom_perm hperm
      ⟨⟨f, hf⟩, hobjects⟩
  obtain ⟨⟨f, hf⟩, h⟩ := positions
  let r := reordering (childrenAt path []) f hf
  have renamed : Unambiguous (p.outline.stems.map (·.rename r)) := clear.rename rfl
  obtain ⟨p', hp', hstems, hdocumented⟩ := ofMembers_refilled (r := r) reordering_moves
    (fun a b l l' h => (h.append_right b).append_left a)
    (fun a b l l' h => (h.append_right b).append_left a) loads clear.origins h rfl
    (fun items items' s hperm _ => outlines_reordered hperm _ s)
    (fun o' hl => ⟨fun q => (renamed.find?_origin hl (r.address q)).trans (find?_rename r _ q),
      fun n => (renamed.lookup_sitesOf hl n).trans (lookup_sitesOf_rename rfl _ n)⟩)
    (fun o' items items' _ known hperm => readings_reordered hperm known)
  exact ⟨p', hp', renamed.perm hstems, sameEntries_of_perm hdocumented⟩

/-- The children of the project and of namespaces in it are put in any order, one list after the
other. -/
def Rearranged (numbering : Numbering) : Members → Members → Prop :=
  Relation.ReflTransGen fun raw raw' => ∃ path, Refilled numbering List.Perm path raw raw'

private theorem ofMembers_rearranged {raw raw' : Members} {p : Project}
    (loads : Project.ofMembers raw = .ok p) (clear : Unambiguous p.outline.stems)
    (h : Relation.TransGen (fun raw' raw'' => ∃ path,
      Refilled (Project.numberingOf raw) List.Perm path raw' raw'') raw raw') :
    Project.numberingOf raw' = Project.numberingOf raw ∧
      ∃ p', Project.ofMembers raw' = .ok p' ∧ Unambiguous p'.outline.stems ∧
        SameEntries p.documented p'.documented := by
  induction h with
  | single step =>
    obtain ⟨path, step⟩ := step
    exact ⟨step.sameButChildren.numberingOf_eq, ofMembers_reordered loads clear step⟩
  | tail _ step ih =>
    obtain ⟨path, step⟩ := step
    obtain ⟨numbering, p', loads', clear', same⟩ := ih
    rw [← numbering] at step
    obtain ⟨p'', loads'', clear'', same'⟩ := ofMembers_reordered loads' clear' step
    exact ⟨step.sameButChildren.numberingOf_eq.trans numbering, p'', loads'', clear'',
      same.trans same'⟩

/-! ## One name, one entry -/

/-- The resolver of a project in a style of links; without a style nothing is linked. -/
def resolverOf (p : Project) (links : Option Link.Style) : Link.Resolver :=
  links.elim .none fun style => ⟨Link.targets style p.documented⟩

section

variable {p p' : Project} (distinct : (p.documented.map (·.fullName)).Nodup)

include distinct

private theorem get?_ofList_of_perm {α : Type} {f f' : Declaration → α}
    (h : (p'.documented.map fun d => (d.fullName, f' d)).Perm
      (p.documented.map fun d => (d.fullName, f d))) (name : Text) :
    Table.get? (Table.ofList (p'.documented.map fun d => (d.fullName, f' d))) name =
      Table.get? (Table.ofList (p.documented.map fun d => (d.fullName, f d))) name := by
  have once : ((p.documented.map fun d => (d.fullName, f d)).map (·.1)).Nodup := by
    rwa [List.map_map]
  rw [Table.ofList_of_nodup once, Table.ofList_of_nodup ((h.map _).nodup_iff.2 once)]
  exact Table.lookup_of_perm h.symm once name

namespace SameEntries

variable (h : SameEntries p.documented p'.documented)

include h

omit distinct in
theorem names : (p'.documented.map (·.fullName)).Perm (p.documented.map (·.fullName)) := by
  have names := (h.conversions .none .none fun _ => rfl).map (·.1)
  simpa only [List.map_map, Function.comp_def] using names

theorem target (style : Link.Style) (name : Text) :
    Table.get? (Link.targets style p'.documented) name =
      Table.get? (Link.targets style p.documented) name :=
  get?_ofList_of_perm distinct (h.targets style) name

theorem conversion (links : Option Link.Style) (name : Text) :
    Table.get? (Command.traversal (resolverOf p' links) p'.documented) name =
      Table.get? (Command.traversal (resolverOf p links) p.documented) name := by
  refine get?_ofList_of_perm distinct (h.conversions _ _ fun name => ?_) name
  cases links with
  | none => rfl
  | some style => exact h.target distinct style name

end SameEntries

end

/-- In a project that has every id once, the references that are read point at the declarations that have
their ids, wherever these stand. The children of the project and of its namespaces can be put in any
order: the same names are documented, and where no name is documented twice, each of them keeps its link
target and its conversion in every style of links. The objects of the document repeat no key. -/
theorem references_resolve_in_any_order {raw : Members} {p : Project}
    (distinct : (Value.object raw).hasDistinctKeys) (loads : Project.ofMembers raw = .ok p)
    (ids : (numbersOf p.outline.stems).Nodup) :
    (∀ node, ∀ o ∈ p.outline.all, PointsTo node o → ∀ address,
      (∀ t, (readType (Setting.ofOutline p.outline) address node).outcome = .ok t →
        ∃ arguments, t = .reference (member node "name").display arguments
          (member node "qualifiedName") (some o.site)) ∧
      (IsRead raw .type address node → ∃ owner arguments,
        Relation.ReflTransGen HasPart (.declaration p.root)
          (.type owner (.reference (member node "name").display arguments
            (member node "qualifiedName") (some o.site))))) ∧
    ∀ raw', Rearranged (Project.numberingOf raw) raw raw' →
      ∃ p', Project.ofMembers raw' = .ok p' ∧
        (p'.documented.map (·.fullName)).Perm (p.documented.map (·.fullName)) ∧
        ((p.documented.map (·.fullName)).Nodup → ∀ name,
          (∀ style, Table.get? (Link.targets style p'.documented) name =
            Table.get? (Link.targets style p.documented) name) ∧
          ∀ links, Table.get? (Command.traversal (resolverOf p' links) p'.documented) name =
            Table.get? (Command.traversal (resolverOf p links) p.documented) name) := by
  refine ⟨fun node o ho points address => ⟨fun t => target_of_pointsTo loads ids ho points,
    reference_of_pointsTo loads ids ho points⟩, fun raw' h => ?_⟩
  rcases Relation.reflTransGen_iff_eq_or_transGen.1 h with rfl | h
  · exact ⟨p, loads, .refl _, fun _ _ => ⟨fun _ => rfl, fun _ => rfl⟩⟩
  · have clear : Unambiguous p.outline.stems :=
      ⟨nodup_origins distinct (Project.ofMembers_eq_ok.1 loads).1, ids⟩
    obtain ⟨-, p', loads', -, same⟩ := ofMembers_rearranged loads clear h
    exact ⟨p', loads', same.names, fun once name =>
      ⟨fun style => same.target once style name, fun links => same.conversion once links name⟩⟩

private def interface : Value := .object [("id", .int 2), ("name", .text "I"), ("kind", .int 256)]

private def link : Members :=
  [("type", .text "reference"), ("name", .text "I"), ("id", .int 2)]

private def variableOf (type : Members) : Value :=
  .object [("id", .int 1), ("name", .text "v"), ("kind", .int 32), ("type", .object type)]

/-- A project with the given children. -/
def projectOf (children : List Value) : Members :=
  [("name", .text "p"), ("kind", .int 0), ("children", .array children)]

/-- A variable that refers to an interface behind it, and both in the other order. -/
theorem references_resolve_in_any_order_forward :
    ∃ p p', Project.ofMembers (projectOf [variableOf link, interface]) = .ok p ∧
      Project.ofMembers (projectOf [interface, variableOf link]) = .ok p' ∧
      (∃ o ∈ p.outline.all, o.header.id = some (.integer 2) ∧ ∃ owner arguments,
        Relation.ReflTransGen HasPart (.declaration p.root)
          (.type owner (.reference (Text.ofString "I") arguments .null (some o.site)))) ∧
      ∀ name links, Table.get? (Command.traversal (resolverOf p' links) p'.documented) name =
        Table.get? (Command.traversal (resolverOf p links) p.documented) name := by
  have facts : ((Project.ofMembers (projectOf [variableOf link, interface])).toOption.map fun p =>
      (p.outline.all.map (·.header.id), p.documented.map (·.fullName))) =
      some ([none, some (.integer 1), some (.integer 2)],
        [Text.ofString "v", Text.ofString "I"]) := by decide +kernel
  obtain ⟨p, loads, facts⟩ := exists_ok_of_map facts
  obtain ⟨ids, names⟩ := Prod.mk.inj facts
  have numbers : numbersOf p.outline.stems = [1, 2] := by
    have := congrArg (List.filterMap fun id : Option Id => id.map Id.number) ids
    rw [List.filterMap_map] at this
    unfold numbersOf Outline.stems
    rw [List.filterMap_map]
    exact this
  obtain ⟨o, ho, hid⟩ : ∃ o ∈ p.outline.all, o.header.id = some (.integer 2) :=
    List.mem_map.1 (ids ▸ by simp)
  obtain ⟨references, orders⟩ :=
    references_resolve_in_any_order (by decide) loads (by rw [numbers]; decide)
  have points : PointsTo link o := ⟨by decide +kernel, _, hid, by decide +kernel⟩
  have read : IsRead (projectOf [variableOf link, interface]) .type
      [.key "type", .index 0, .key "children"] link :=
    .held (.listed .root .children rfl (List.mem_cons_self ..)) (.type (by rintro ⟨⟩)) rfl
  have swapped : Rearranged .legacy (projectOf [variableOf link, interface])
      (projectOf [interface, variableOf link]) :=
    .single ⟨[], .here rfl (.swap ..)⟩
  obtain ⟨p', loads', -, same⟩ := orders _ swapped
  exact ⟨p, p', loads, loads', ⟨o, ho, hid, (references link o ho points _).2 read⟩,
    fun name links => (same (by rw [names]; decide) name).2 links⟩

end DocShape.Document
