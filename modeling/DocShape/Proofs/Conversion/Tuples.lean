import DocShape.Proofs.Conversion.Visits
import DocShape.Proofs.Document.Passes
import Mathlib.Data.List.Flatten

/-!
Tuples that become arrays. Elements are compared as they are written. Two that also refer to the same
declarations are one node, for every declaration of a document stands at an address of its own
(`eq_of_sameAs`), and so they have one shape (`tuple_homogeneous`). What elements refer to is not
compared, and two declarations may have one name (`tuple_of_two_foos`).
-/

namespace DocShape

/-! ## Parts of a document -/

/-- The declarations of an entry, itself included. -/
def Entry.declarations : Entry → List Declaration
  | .declaration d => d.all
  | .type _ t => t.declarations

/-- A direct part of an entry, whether it is visited or not. -/
inductive HasPart : Entry → Entry → Prop
  | ownType {d : Declaration} {t : TypeNode} : d.type = some t →
    HasPart (.declaration d) (.type d t)
  | parameter {d : Declaration} {s : Signature} {p : Parameter} {t : TypeNode} :
    s ∈ d.signatures → p ∈ s.parameters → p.type = some t → HasPart (.declaration d) (.type d t)
  | returnType {d : Declaration} {s : Signature} {t : TypeNode} :
    s ∈ d.signatures → s.type = some t → HasPart (.declaration d) (.type d t)
  | child {d c : Declaration} : c ∈ d.children → HasPart (.declaration d) (.declaration c)
  | element {owner : Declaration} {t : TypeNode} : HasPart (.type owner (.array t)) (.type owner t)
  | item {owner : Declaration} {t : TypeNode} {elements : List TypeNode} : t ∈ elements →
    HasPart (.type owner (.tuple elements)) (.type owner t)
  | operand {owner : Declaration} {t : TypeNode} {operands : List TypeNode} : t ∈ operands →
    HasPart (.type owner (.intersection operands)) (.type owner t)
  | option {owner : Declaration} {t : TypeNode} {options : List TypeNode} : t ∈ options →
    HasPart (.type owner (.union options)) (.type owner t)
  | argument {owner : Declaration} {name : Text} {t : TypeNode} {arguments : List TypeNode}
    {qualifiedName : Json.Value} {target : Option Site} : t ∈ arguments →
    HasPart (.type owner (.reference name arguments qualifiedName target)) (.type owner t)
  | inline {owner d : Declaration} : HasPart (.type owner (.inline d)) (.declaration d)

/-- What is visited is a part. -/
theorem Visits.hasPart {e e' : Entry} (h : Visits e e') : HasPart e e' := by
  cases h with
  | ownType ht => exact .ownType ht
  | parameter hs hp ht => exact .parameter hs.2.mem hp ht
  | returnType hs ht => exact .returnType hs.2.mem ht
  | child _ _ _ hc => exact .child hc
  | element => exact .element
  | first _ => exact .item (List.mem_cons_self ..)
  | operand ht => exact .operand ht
  | option ht => exact .option ht
  | argument ht => exact .argument ht
  | inline => exact .inline

private theorem sublist_flatMap {α β : Type} {a : α} {l : List α} (h : a ∈ l) (f : α → List β) :
    (f a).Sublist (l.flatMap f) := by
  simpa using (List.singleton_sublist.2 h).flatMap f

/-- The declarations of a part are among those of the whole, in their order. -/
theorem HasPart.sublist {e e' : Entry} (h : HasPart e e') :
    e'.declarations.Sublist e.declarations := by
  have types : ∀ {t : TypeNode} {l : List TypeNode}, t ∈ l →
      t.declarations.Sublist (TypeNode.declarationsIn l) := by
    intro t l ht
    rw [TypeNode.declarationsIn_eq_flatMap]
    exact sublist_flatMap ht TypeNode.declarations
  -- What lies inside a signature lies inside its declaration.
  have signature : ∀ {d : Declaration} {s : Signature} {l : List Declaration}, s ∈ d.signatures →
      l.Sublist s.declarations → l.Sublist d.all := by
    intro d s l hs hl
    have inside := sublist_flatMap hs Signature.declarations
    rw [← Signature.declarationsIn_eq_flatMap] at inside
    rw [d.all_eq]
    exact ((hl.trans inside).trans ((List.sublist_append_right _ _).trans
      (List.sublist_append_left _ _))).cons d
  cases h with
  | @ownType d t ht =>
    have inside : t.declarations.Sublist (TypeNode.declarationsInside d.type) := by
      rw [ht]
      exact List.Sublist.refl _
    rw [Entry.declarations, Entry.declarations, d.all_eq]
    exact (inside.trans ((List.sublist_append_left _ _).trans (List.sublist_append_left _ _))).cons d
  | @parameter d s p t hs hp ht =>
    have inside := sublist_flatMap hp fun p => TypeNode.declarationsInside p.type
    rw [← Parameter.declarationsIn_eq_flatMap, ht] at inside
    apply signature hs
    rw [s.declarations_eq]
    exact inside.trans (List.sublist_append_left _ _)
  | @returnType d s t hs ht =>
    apply signature hs
    rw [s.declarations_eq, ht]
    exact List.sublist_append_right _ _
  | @child d c hc =>
    have inside := sublist_flatMap hc Declaration.all
    rw [← Declaration.allIn_eq_flatMap] at inside
    rw [Entry.declarations, Entry.declarations, d.all_eq]
    exact (inside.trans (List.sublist_append_right _ _)).cons d
  | element => exact List.Sublist.refl _
  | item ht => exact types ht
  | operand ht => exact types ht
  | option ht => exact types ht
  | argument ht => exact types ht
  | inline => exact List.Sublist.refl _

theorem sublist_of_hasPart {e e' : Entry} (h : Relation.ReflTransGen HasPart e e') :
    e'.declarations.Sublist e.declarations := by
  induction h with
  | refl => exact List.Sublist.refl _
  | tail _ hpart ih => exact hpart.sublist.trans ih

/-! ## Equal elements -/

namespace TypeNode

mutual

/-- The qualified names and the targets of the references in a type node, inline declarations
apart. -/
def referents : TypeNode → List (Json.Value × Option Site)
  | .array element => element.referents
  | .tuple elements => referentsIn elements
  | .union options => referentsIn options
  | .intersection operands => referentsIn operands
  | .reference _ arguments qualifiedName target => (qualifiedName, target) :: referentsIn arguments
  | .intrinsic _ | .stringLiteral _ | .typeParameter _ | .inline _ | .unmodelled _ _ => []

def referentsIn : List TypeNode → List (Json.Value × Option Site)
  | [] => []
  | t :: rest => t.referents ++ referentsIn rest

end

/-- No declaration of one list stands at the address of one in the other. -/
def Apart (l l' : List Declaration) : Prop := ∀ d ∈ l, ∀ d' ∈ l', d.origin ≠ d'.origin

mutual

theorem eq_of_sameAs : ∀ {a b : TypeNode}, a.sameAs b → Apart a.declarations b.declarations →
    a.referents.length = b.referents.length ∧ (a.referents = b.referents → a = b)
  | .intrinsic n, b, same, apart => by
    cases b with
    | intrinsic m =>
      have : n = m := eq_of_beq same
      subst this
      exact ⟨rfl, fun _ => rfl⟩
    | _ => exact absurd same Bool.false_ne_true
  | .stringLiteral v, b, same, apart => by
    cases b with
    | stringLiteral w =>
      have : v = w := eq_of_beq same
      subst this
      exact ⟨rfl, fun _ => rfl⟩
    | _ => exact absurd same Bool.false_ne_true
  | .array a, b, same, apart => by
    cases b with
    | array b =>
      have inner : a.sameAs b := same
      obtain ⟨hl, h⟩ := eq_of_sameAs inner apart
      exact ⟨hl, fun hr => congrArg TypeNode.array (h hr)⟩
    | _ => exact absurd same Bool.false_ne_true
  | .tuple as, b, same, apart => by
    cases b with
    | tuple bs =>
      obtain ⟨hl, h⟩ := eq_of_sameList same apart
      exact ⟨hl, fun hr => congrArg TypeNode.tuple (h hr)⟩
    | _ => exact absurd same Bool.false_ne_true
  | .union as, b, same, apart => by
    cases b with
    | union bs =>
      obtain ⟨hl, h⟩ := eq_of_sameList same apart
      exact ⟨hl, fun hr => congrArg TypeNode.union (h hr)⟩
    | _ => exact absurd same Bool.false_ne_true
  | .intersection as, b, same, apart => by
    cases b with
    | intersection bs =>
      obtain ⟨hl, h⟩ := eq_of_sameList same apart
      exact ⟨hl, fun hr => congrArg TypeNode.intersection (h hr)⟩
    | _ => exact absurd same Bool.false_ne_true
  | .typeParameter n, b, same, apart => by
    cases b with
    | typeParameter m =>
      have : n = m := eq_of_beq same
      subst this
      exact ⟨rfl, fun _ => rfl⟩
    | _ => exact absurd same Bool.false_ne_true
  | .reference n as q target, b, same, apart => by
    cases b with
    | reference m bs q' target' =>
      have parts : (n == m && sameList as bs && q.looseEq q') = true := same
      simp only [Bool.and_eq_true, beq_iff_eq] at parts
      obtain ⟨⟨rfl, hargs⟩, -⟩ := parts
      obtain ⟨hl, h⟩ := eq_of_sameList hargs apart
      refine ⟨congrArg (· + 1) hl, fun hr => ?_⟩
      obtain ⟨hhead, htail⟩ := List.cons.inj hr
      obtain ⟨rfl, rfl⟩ := Prod.mk.inj hhead
      rw [h htail]
    | _ => exact absurd same Bool.false_ne_true
  | .inline d, b, same, apart => by
    cases b with
    | inline d' =>
      have hd : d ∈ d.all := d.all_eq ▸ List.mem_cons_self ..
      have hd' : d' ∈ d'.all := d'.all_eq ▸ List.mem_cons_self ..
      have origin : d.origin = d'.origin := eq_of_beq same
      exact absurd origin (apart d hd d' hd')
    | _ => exact absurd same Bool.false_ne_true
  | .unmodelled c s, b, same, apart => by
    cases b with
    | unmodelled c' s' =>
      have parts : (c == c' && s == s') = true := same
      simp only [Bool.and_eq_true, beq_iff_eq] at parts
      obtain ⟨rfl, rfl⟩ := parts
      exact ⟨rfl, fun _ => rfl⟩
    | _ => exact absurd same Bool.false_ne_true

theorem eq_of_sameList : ∀ {as bs : List TypeNode}, sameList as bs →
    Apart (declarationsIn as) (declarationsIn bs) →
    (referentsIn as).length = (referentsIn bs).length ∧ (referentsIn as = referentsIn bs → as = bs)
  | [], bs, same, apart => by
    cases bs with
    | nil => exact ⟨rfl, fun _ => rfl⟩
    | cons b bs => exact absurd same Bool.false_ne_true
  | a :: as, bs, same, apart => by
    cases bs with
    | nil => exact absurd same Bool.false_ne_true
    | cons b bs =>
      have parts : (a.sameAs b && sameList as bs) = true := same
      simp only [Bool.and_eq_true] at parts
      obtain ⟨hl, h⟩ := eq_of_sameAs parts.1 fun d hd d' hd' =>
        apart d (List.mem_append_left _ hd) d' (List.mem_append_left _ hd')
      obtain ⟨hls, hs⟩ := eq_of_sameList parts.2 fun d hd d' hd' =>
        apart d (List.mem_append_right _ hd) d' (List.mem_append_right _ hd')
      refine ⟨by simp [referentsIn, hl, hls], fun hr => ?_⟩
      obtain ⟨hhead, htail⟩ := List.append_inj hr hl
      rw [h hhead, hs htail]

end

end TypeNode

/-! ## Tuples -/

/-- Declarations of a loaded document stand at addresses of their own. -/
private theorem nodup_origins {raw : Json.Members} {project : Project}
    (h : Project.ofMembers raw = .ok project) : (project.root.all.map (·.origin)).Nodup := by
  obtain ⟨ho, hroot⟩ := Project.ofMembers_eq_ok.1 h
  have filled := Document.reading_filled ho
  rw [(filled.all project.root hroot).1]
  exact filled.once

variable {resolver : Link.Resolver} {position : Position} {owner : Declaration}

/-- A tuple becomes an array just where all elements are the same as the first one, which gives the
shape of the elements. -/
private theorem convertType_tuple_eq_ok {elements : List TypeNode} {label : Label}
    {E : Shape} {low high : Option Int}
    (h : (convertType resolver position owner (.tuple elements)).outcome =
      .ok (.array label (some E) low high)) :
    (label = {} ∧ low = some (elements.length : Int) ∧ high = some (elements.length : Int)) ∧
      ∃ first rest, elements = first :: rest ∧ (∀ t ∈ rest, t.sameAs first) ∧
        (convertType resolver .elsewhere owner first).outcome = .ok E := by
  cases elements with
  | nil =>
    rw [convertType] at h
    cases h
  | cons first rest =>
    rw [convertType] at h
    split at h
    · rename_i same
      obtain ⟨shape, hshape, harray⟩ := Journal.outcome_bind_eq_ok.1 h
      cases harray
      have length : (rest.length : Int) + 1 = ((first :: rest).length : Int) := by simp
      rw [length]
      exact ⟨⟨rfl, rfl, rfl⟩, first, rest, rfl, by simpa using same, hshape⟩
    · cases h

/-- A tuple of a loaded document that becomes an array has as many elements as the bounds say, and each
of them that refers to what the first one refers to has the shape of the elements by itself. -/
theorem tuple_homogeneous {raw : Json.Members} {project : Project}
    (hload : Project.ofMembers raw = .ok project) {holder : Declaration}
    {elements : List TypeNode}
    (hpart : Relation.ReflTransGen HasPart (.declaration project.root)
      (.type holder (.tuple elements)))
    (resolver : Link.Resolver) (position : Position) (owner : Declaration)
    {label : Label} {E : Shape} {low high : Option Int}
    (harray : (convertType resolver position owner (.tuple elements)).outcome =
      .ok (.array label (some E) low high)) :
    (label = {} ∧ low = some (elements.length : Int) ∧ high = some (elements.length : Int)) ∧
      ∃ first rest, elements = first :: rest ∧
        ∀ t ∈ elements, t.referents = first.referents →
          (convertType resolver .elsewhere owner t).outcome = .ok E := by
  obtain ⟨bounds, first, rest, rfl, same, hfirst⟩ := convertType_tuple_eq_ok harray
  have nodup : ((TypeNode.declarationsIn (first :: rest)).map (·.origin)).Nodup :=
    ((sublist_of_hasPart hpart).map _).nodup (nodup_origins hload)
  refine ⟨bounds, first, rest, rfl, fun t ht hrefer => ?_⟩
  rcases List.mem_cons.1 ht with rfl | ht
  · exact hfirst
  · -- Neither holds a declaration, as the two stand apart, and so they are one node.
    have apart : TypeNode.Apart t.declarations first.declarations := by
      intro d hd d' hd' heq
      rw [TypeNode.declarationsIn, List.map_append] at nodup
      have later : d.origin ∈ (TypeNode.declarationsIn rest).map (·.origin) := by
        rw [TypeNode.declarationsIn_eq_flatMap]
        exact List.mem_map_of_mem (List.mem_flatMap.2 ⟨t, ht, hd⟩)
      exact List.disjoint_of_nodup_append nodup (List.mem_map_of_mem hd') (heq ▸ later)
    rw [(TypeNode.eq_of_sameAs (same t ht) apart).2 hrefer]
    exact hfirst

/-- Two modules that each declare `Foo`, and a tuple of two references to it by the given numbers. -/
def fooPair (first second : Int) : Json.Members :=
  let foo (name : Text) (id : Int) : Json.Value := .object
    [("name", .text name), ("kind", .int 2), ("children", .array
      [.object [("id", .int id), ("name", .text "Foo"), ("kind", .int 256)]])]
  let reference (id : Int) : Json.Value := .object
    [("type", .text "reference"), ("name", .text "Foo"), ("id", .int id)]
  [("name", .text "p"), ("kind", .int 0), ("children", .array
    [foo "a" 2, foo "b" 4, .object [("id", .int 5), ("name", .text "t"), ("kind", .int 32),
      ("type", .object [("type", .text "tuple"),
        ("elements", .array [reference first, reference second])])]])]

/-- Some child of the root is a pair that becomes an array and passes a test. -/
private def hasPair (test : Declaration → TypeNode → TypeNode → Shape → Bool)
    (project : Project) : Bool :=
  project.root.children.any fun d =>
    match d.type with
    | some (.tuple [a, b]) =>
      match (convertType .none .elsewhere d (.tuple [a, b])).outcome with
      | .ok (.array _ (some E) _ _) => test d a b E
      | _ => false
    | _ => false

private theorem exists_pair (raw : Json.Members)
    (test : Declaration → TypeNode → TypeNode → Shape → Bool)
    (h : (Project.ofMembers raw).toOption.any (hasPair test)) :
    ∃ project, Project.ofMembers raw = .ok project ∧ ∃ d ∈ project.root.children, ∃ a b E,
      d.type = some (.tuple [a, b]) ∧
      (convertType .none .elsewhere d (.tuple [a, b])).outcome =
        .ok (.array {} (some E) (some 2) (some 2)) ∧ test d a b E := by
  obtain ⟨project, hp, found⟩ := Journal.exists_ok_of_any h
  obtain ⟨d, hd, hpair⟩ := List.any_eq_true.1 found
  refine ⟨project, hp, d, hd, ?_⟩
  split at hpair
  · rename_i a b ht
    split at hpair
    · rename_i label E low high harray
      obtain ⟨⟨rfl, rfl, rfl⟩, -⟩ := convertType_tuple_eq_ok harray
      exact ⟨a, b, E, ht, harray, hpair⟩
    · cases hpair
  · cases hpair

/-- A reference without a qualified name. -/
private def isBare (r : Json.Value × Option Site) : Bool :=
  match r.1 with
  | .null => true
  | _ => false

private theorem eq_of_isBare {l l' : List (Json.Value × Option Site)} (h : l.all isBare)
    (h' : l'.all isBare) (targets : l.map (·.2) = l'.map (·.2)) : l = l' := by
  have bare : ∀ l : List (Json.Value × Option Site), l.all isBare →
      l = (l.map (·.2)).map fun target => (.null, target) := by
    intro l hl
    rw [List.map_map]
    refine (List.map_id l).symm.trans (List.map_congr_left fun r hr => ?_)
    have hbare := List.all_eq_true.1 hl r hr
    obtain ⟨v, target⟩ := r
    cases v with
    | null => rfl
    | _ => cases hbare
  rw [bare l h, bare l' h', targets]

/-- Twice the one `Foo`: both elements have the shape of the elements. -/
theorem tuple_homogeneous_oneFoo :
    ∃ project, Project.ofMembers (fooPair 2 2) = .ok project ∧
      ∃ d ∈ project.root.children, ∃ a b E, d.type = some (.tuple [a, b]) ∧
        Relation.ReflTransGen HasPart (.declaration project.root) (.type d (.tuple [a, b])) ∧
        (convertType .none .elsewhere d (.tuple [a, b])).outcome =
          .ok (.array {} (some E) (some 2) (some 2)) ∧
        a.referents = b.referents ∧
        (convertType .none .elsewhere d a).outcome = .ok E ∧
        (convertType .none .elsewhere d b).outcome = .ok E := by
  obtain ⟨project, hload, d, hd, a, b, E, ht, harray, hrefer⟩ :=
    exists_pair (fooPair 2 2)
      (fun _ a b _ => a.referents.all isBare && b.referents.all isBare &&
        a.referents.map (·.2) == b.referents.map (·.2)) (by decide +kernel)
  have hpart : Relation.ReflTransGen HasPart (.declaration project.root)
      (.type d (.tuple [a, b])) := .tail (.single (.child hd)) (.ownType ht)
  have alike : a.referents = b.referents := by
    simp only [Bool.and_eq_true, beq_iff_eq] at hrefer
    exact eq_of_isBare hrefer.1.1 hrefer.1.2 hrefer.2
  obtain ⟨-, first, rest, heq, hall⟩ := tuple_homogeneous hload hpart .none .elsewhere d harray
  obtain ⟨rfl, rfl⟩ := List.cons.inj heq
  exact ⟨project, hload, d, hd, a, b, E, ht, hpart, harray, alike, hall a (by simp) rfl,
    hall b (by simp) alike.symm⟩

/-- Two declarations of one name: the second element has another shape by itself. -/
theorem tuple_of_two_foos :
    ∃ project, Project.ofMembers (fooPair 2 4) = .ok project ∧
      ∃ d ∈ project.root.children, ∃ a b E E', d.type = some (.tuple [a, b]) ∧
        (convertType .none .elsewhere d (.tuple [a, b])).outcome =
          .ok (.array {} (some E) (some 2) (some 2)) ∧
        (convertType .none .elsewhere d b).outcome = .ok E' ∧ E'.strictEq E = false := by
  obtain ⟨project, hload, d, hd, a, b, E, ht, harray, hother⟩ :=
    exists_pair (fooPair 2 4)
      (fun d _ b E =>
        match (convertType .none .elsewhere d b).outcome with
        | .ok E' => !E'.strictEq E
        | .error _ => false) (by decide +kernel)
  split at hother
  · rename_i E' hE'
    exact ⟨project, hload, d, hd, a, b, E, E', ht, harray, hE', by simpa using hother⟩
  · cases hother

end DocShape
