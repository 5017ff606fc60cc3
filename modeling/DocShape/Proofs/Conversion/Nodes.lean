import DocShape.Proofs.Conversion.Renderings
import DocShape.Proofs.Shape.FixedArray
import DocShape.Proofs.Shape.Parts

/-!
The nodes of converted shapes. A shape that becomes a part of another one is put under another label, and
a listener loses its return type (`Shape.Relabelled`); nothing else happens to it. So each node of a
converted shape is what an entry that was visited is converted to, relabelled (`convert_node`), and just the
parts of unions stand at the position of options (`Converts.part`). `Converts.top` says which shapes are not
made from others.
-/

namespace DocShape

open Link (Resolver)

/-! ## Relabelled shapes -/

namespace Shape

/-- A shape under another label, with or without its return type. -/
inductive Relabelled (s : Shape) : Shape → Prop
  | label (l : Label) : Relabelled s (s.withLabel l)
  | listener (l : Label) : Relabelled s (s.withLabel l).withoutReturn

/-- Shapes that are neither names nor literals: they are made from other shapes, or unknown. -/
def isComposite : Shape → Bool
  | primitive .. | reference .. => false
  | _ => true

/-- Relabelling keeps a property. -/
def KeptByLabels (P : Shape → Prop) : Prop := ∀ s s', Relabelled s s' → P s → P s'

variable {P : Shape → Prop} {s s' s'' p : Shape}

theorem Relabelled.refl (s : Shape) : Relabelled s s := by
  have kept := Relabelled.label (s := s) s.label
  rwa [withLabel_label] at kept

theorem Relabelled.trans (h : Relabelled s s') (h' : Relabelled s' s'') : Relabelled s s'' := by
  cases h <;> cases h' <;>
    simp only [withLabel_withoutReturn, withLabel_withLabel, withoutReturn_withoutReturn] <;>
    first | exact .label _ | exact .listener _

theorem Relabelled.mem_parts (h : Relabelled s s') (hp : p ∈ s'.parts) : p ∈ s.parts := by
  cases h with
  | label l => simpa using hp
  | listener l => simpa using mem_parts_withoutReturn hp

theorem Everywhere.relabelled (kept : KeptByLabels P) (h : Everywhere P s) (hs : Relabelled s s') :
    Everywhere P s' :=
  .intro (kept s s' hs h.here) fun p hp => h.parts p (hs.mem_parts hp)

end Shape

theorem relabelled_attach (resolver : Resolver) (d : Declaration) (s : Shape) :
    s.Relabelled (attach resolver d s) :=
  .label _

theorem relabelled_withName (name : Option Text) (s : Shape) : s.Relabelled (s.withName name) :=
  .label _

theorem relabelled_propertyShape (resolver : Resolver) (member : Declaration × Shape) :
    member.2.Relabelled (propertyShape resolver member) :=
  (relabelled_attach resolver member.1 member.2).trans (relabelled_withName _ _)

theorem relabelled_returnShape {resolver : Resolver} {owner : Place} {comment : Option Comment}
    {s s' : Shape} (h : returnShape resolver owner comment s = some s') : s.Relabelled s' := by
  unfold returnShape at h
  split at h
  · cases h
  · cases h
    exact .label _

/-! ## The parts of each rule -/

section

variable {resolver : Resolver} {p : Shape}

theorem mem_parts_functionShape {owner : Place} {required : List Text} {longest : Signature}
    {shapes : SignatureShapes}
    (hp : p ∈ (functionShape resolver owner required longest shapes).parts) :
    (∃ q s, (q, s) ∈ longest.parameters.zip shapes.parameters ∧ s.Relabelled p) ∨
      ∃ s, shapes.returnType = some s ∧ s.Relabelled p := by
  rcases List.mem_append.1 hp with hp | hp
  · rw [Option.getD_some, ← List.map_uncurry_zip_eq_zipWith] at hp
    obtain ⟨⟨q, s⟩, hm, rfl⟩ := List.mem_map.1 hp
    exact Or.inl ⟨q, s, hm, .label _⟩
  · obtain ⟨s, hs, hr⟩ := Option.bind_eq_some_iff.1 (Option.mem_toList.1 hp)
    exact Or.inr ⟨s, hs, relabelled_returnShape hr⟩

/-- A reference refers to the title of what it links to, or else to its name. -/
theorem referenceShape_named {owner : Declaration} {name : Json.Value} {target : Option Site}
    {arguments : List Shape} {s : Shape}
    (h : (referenceShape resolver owner name target arguments).outcome = .ok s) :
    ∃ link templates, s = .reference {}
      (some (((resolver.linkTo owner.place target).map fun t => .text t.title).getD name)) link
      templates := by
  unfold referenceShape at h
  dsimp only at h
  split at h
  · split at h
    · cases h
      exact ⟨_, _, rfl⟩
    · cases h
  · cases h
    exact ⟨_, _, rfl⟩

theorem referenceShape_eq {owner : Declaration} {name : Json.Value} {target : Option Site}
    {arguments : List Shape} {s : Shape}
    (h : (referenceShape resolver owner name target arguments).outcome = .ok s) :
    ∃ type link templates, s = .reference {} type link templates :=
  ⟨_, referenceShape_named h⟩

theorem mem_parts_referenceShape {owner : Declaration} {name : Json.Value} {target : Option Site}
    {arguments : List Shape} {s : Shape}
    (h : (referenceShape resolver owner name target arguments).outcome = .ok s)
    (hp : p ∈ s.parts) : ∃ a ∈ arguments, a.Relabelled p := by
  unfold referenceShape at h
  dsimp only at h
  split at h
  · split at h
    · rename_i listener
      cases h
      cases List.mem_singleton.1 hp
      exact ⟨listener, List.mem_singleton.2 rfl, .listener _⟩
    · cases h
  · cases h
    unfold presentList at hp
    split at hp
    · simp [Shape.parts] at hp
    · exact ⟨p, hp, .refl p⟩

/-- The shape of an object keeps the properties, or it is an array of the first one, of one length. -/
theorem objectShape_eq (resolver : Resolver) (d : Declaration) (form : ObjectForm)
    (properties : List Shape) :
    (∃ label templates, objectShape resolver d form properties =
      .object label form (some properties) templates) ∨
    ∃ first ∈ properties, ∃ length : Int, objectShape resolver d form properties =
      .array {} (some (first.withName none)) (some length) (some length) := by
  unfold objectShape
  dsimp only
  cases hf : (attach resolver d
      (.object {} form (some properties) (presentList d.typeParameters))).fixedArray? with
  | none => exact Or.inl ⟨_, _, rfl⟩
  | some t =>
    obtain ⟨label, first, rest, templates, hs, -, -, rfl⟩ := Shape.fixedArray?_eq_some hf
    simp only [attach, Shape.withLabel, Shape.object.injEq, Option.some.injEq] at hs
    rw [hs.2.2.1]
    exact Or.inr ⟨first, List.mem_cons_self .., _, rfl⟩

theorem mem_parts_objectShape {d : Declaration} {form : ObjectForm} {properties : List Shape}
    (hp : p ∈ (objectShape resolver d form properties).parts) :
    ∃ s ∈ properties, s.Relabelled p := by
  rcases objectShape_eq resolver d form properties with ⟨_, _, ho⟩ | ⟨first, hm, _, ha⟩
  · rw [ho] at hp
    exact ⟨p, hp, .refl p⟩
  · rw [ha] at hp
    cases List.mem_singleton.1 hp
    exact ⟨first, hm, relabelled_withName _ _⟩

end

/-! ## Every node is the shape of an entry -/

variable {resolver : Resolver} {e : Entry} {position : Position} {s : Shape}

/-- Where the top of a shape comes from: it is made from other shapes, or it is that of a leaf, an option only
at the position of options, or that of a reference. -/
def HasOrigin (resolver : Resolver) (position : Position) (e : Entry) (s : Shape) : Prop :=
  s.isComposite ∨
    (∃ position' t, (position' = .unionOption → position = .unionOption) ∧ t.isLeaf ∧
      VisitedLeaf resolver e position' t s) ∨
    ∃ owner name target arguments,
      (referenceShape resolver owner name target arguments).outcome = .ok s

/-- What an entry hands on does not stand at the position of options. -/
theorem HasOrigin.handedOn {e' : Entry} (h : HasOrigin resolver .elsewhere e' s) (visits : Visits e e') :
    HasOrigin resolver position e s := by
  rcases h with composite | ⟨position', t, option, leaf, owner, reached, hs⟩ | reference
  · exact Or.inl composite
  · exact Or.inr (Or.inl ⟨position', t, fun h => absurd (option h) nofun, leaf, owner,
      .head visits reached, hs⟩)
  · exact Or.inr (Or.inr reference)

theorem Converts.top (h : Converts resolver position e s) : HasOrigin resolver position e s := by
  induction h using Converts.induction with
  | step position e s _ h =>
    cases h with
    | leaf ht hs => exact Or.inr (Or.inl ⟨position, _, id, ht, _, .refl, hs⟩)
    | reference _ _ hs => exact Or.inr (Or.inr ⟨_, _, _, _, hs⟩)
    | intersection =>
      left
      cases hi : Shape.intersect? _ _ with
      | none => rfl
      | some s =>
        obtain ⟨_, _, _, rfl⟩ := Shape.exists_array_of_intersect? hi
        rfl
    | inline below | ownType _ below => exact below.2.2.handedOn below.1
    | object =>
      left
      rcases objectShape_eq _ _ _ _ with ⟨_, _, ho⟩ | ⟨_, _, _, ha⟩
      · rw [ho]
        rfl
      · rw [ha]
        rfl
    | _ => exact Or.inl rfl

/-- A part of the shape of an entry is the shape of an entry below it, relabelled. Where that is shaped as an
option, the whole is a union. -/
theorem Converts.part (h : Converts resolver position e s) {p : Shape} (hp : p ∈ s.parts) :
    ∃ position' e' s', Relation.ReflTransGen Visits e e' ∧ Converts resolver position' e' s' ∧
      s'.Relabelled p ∧
      (position' = .unionOption → ∃ options isEnum, s = .union {} (some options) isEnum) := by
  induction h using Converts.induction with
  | step position e s _ h =>
    cases h with
    | @leaf owner t _ ht hs =>
      cases t with
      | stringLiteral value =>
        cases hs
        cases position with
        | unionOption => cases hp
        | elsewhere =>
          cases List.mem_singleton.1 hp
          exact ⟨.unionOption, _, _, .refl, .type rfl, .refl _, fun _ => ⟨_, _, rfl⟩⟩
      | intrinsic name =>
        cases hs
        cases hp
      | typeParameter name =>
        cases hs
        cases hp
      | _ => cases ht
    | refused => cases hp
    | array below =>
      obtain ⟨visits, converts, -⟩ := below
      cases List.mem_singleton.1 hp
      exact ⟨_, _, _, .single visits, converts, .refl _, nofun⟩
    | tuple _ below =>
      obtain ⟨visits, converts, -⟩ := below
      cases List.mem_singleton.1 hp
      exact ⟨_, _, _, .single visits, converts, .refl _, nofun⟩
    | union hn below =>
      obtain ⟨t, ht⟩ := exists_mem_zip hn hp
      obtain ⟨visits, converts, -⟩ := below t p ht
      exact ⟨_, _, _, .single visits, converts, .refl _, fun _ => ⟨_, _, rfl⟩⟩
    | @intersection owner a b sa sb below _ =>
      obtain ⟨visits, _, ih⟩ := below
      cases hi : sa.intersect? sb with
      | none =>
        rw [hi] at hp
        cases hp
      | some s =>
        obtain ⟨_, _, _, _, _, _, _, _, rfl, -, -, rfl⟩ := Shape.intersect?_eq_some hi
        rw [hi] at hp
        obtain ⟨position', e', s', reached, hs', relabelled, elsewhere⟩ := ih hp
        exact ⟨position', e', s', .head visits reached, hs', relabelled,
          fun h => by simpa using elsewhere h⟩
    | reference hn below hs =>
      obtain ⟨a, ha, relabelled⟩ := mem_parts_referenceShape hs hp
      obtain ⟨t, ht⟩ := exists_mem_zip hn ha
      obtain ⟨visits, converts, -⟩ := below t a ht
      exact ⟨_, _, _, .single visits, converts, relabelled, nofun⟩
    | inline below | ownType _ below =>
      obtain ⟨visits, _, ih⟩ := below
      obtain ⟨position', e', s', reached, rest⟩ := ih hp
      exact ⟨position', e', s', .head visits reached, rest⟩
    | function _ _ below =>
      rcases mem_parts_functionShape hp with ⟨q, s, hm, relabelled⟩ | ⟨s, hs, relabelled⟩
      · obtain ⟨t, ht⟩ := Option.isSome_iff_exists.1 (below.typed q (List.of_mem_zip hm).1)
        obtain ⟨visits, converts, -⟩ := below.parameters q s hm t ht
        exact ⟨_, _, _, .single visits, converts, relabelled, nofun⟩
      · obtain ⟨t, ht⟩ := Option.isSome_iff_exists.1 (below.returns.trans (Option.isSome_of_mem hs))
        obtain ⟨visits, converts, -⟩ := below.returnType t s ht hs
        exact ⟨_, _, _, .single visits, converts, relabelled, nofun⟩
    | object _ _ _ hn below =>
      obtain ⟨_, hm, relabelled⟩ := mem_parts_objectShape hp
      obtain ⟨⟨c, s⟩, hc, rfl⟩ := List.mem_map.1 hm
      obtain ⟨visits, converts, -⟩ := below c s hc
      exact ⟨_, _, _, .single visits, converts, (relabelled_propertyShape _ _).trans relabelled, nofun⟩
    | bare => cases hp

/-- Each node of the shape of an entry is the shape of an entry below it, relabelled. -/
theorem Converts.node (h : Converts resolver position e s) {n : Shape} (hn : s.IsNode n) :
    ∃ position' e' s', Relation.ReflTransGen Visits e e' ∧ Converts resolver position' e' s' ∧
      s'.Relabelled n := by
  induction hn with
  | root => exact ⟨_, _, _, .refl, h, .refl _⟩
  | part _ hp ih =>
    obtain ⟨_, _, _, reached, hs', relabelled⟩ := ih
    obtain ⟨position', e', s', reached', hs', relabelled', -⟩ := hs'.part (relabelled.mem_parts hp)
    exact ⟨position', e', s', reached.trans reached', hs', relabelled'⟩

theorem Shape.IsNode.of_relabelled {s s' n : Shape} (hs : s.Relabelled s') (hn : s'.IsNode n) :
    n = s' ∨ s.IsNode n := by
  induction hn with
  | root => exact Or.inl rfl
  | part _ hp ih =>
    rcases ih with rfl | hn
    · exact Or.inr (.part .root (hs.mem_parts hp))
    · exact Or.inr (.part hn hp)

/-- Each node of a converted shape is the shape of an entry that is visited, relabelled. -/
theorem convert_node {d : Declaration} (h : (convert resolver d).outcome = .ok s) {n : Shape}
    (hn : s.IsNode n) :
    ∃ position e s', Relation.ReflTransGen Visits (.declaration d) e ∧
      Converts resolver position e s' ∧ s'.Relabelled n := by
  obtain ⟨body, rfl, converts⟩ := convert_converts resolver d s h
  rcases hn.of_relabelled (relabelled_attach resolver d body) with rfl | hn
  · exact ⟨_, _, _, .refl, converts, relabelled_attach resolver d body⟩
  · exact converts.node hn

end DocShape
