import DocShape.Proofs.Conversion.Built
import DocShape.Proofs.Link.Comments
import DocShape.Proofs.Shape.Draft
import DocShape.Proofs.Shape.FixedArray
import DocShape.Proofs.Shape.Parts
import Mathlib.Data.List.Basic

/-!
Converted shapes are well formed at every node (`convert_wellFormed`): the fields belong to the tag, the
fields that a tag needs are there, no text, list or bound is empty, and just the members, parameters,
return values and listeners are named.
-/

namespace DocShape

open Link (Resolver)

/-! ## Well-formed nodes -/

/-- The templates of a reference that is shown as an event: its listener alone. -/
def IsListener (resolver : Resolver) (type : Option Json.Value) (templates : List Shape) : Prop :=
  (∃ t, templates = [t] ∧ t.name = some "listener") ∧
    (type = some (.text eventTypeName) ∨
      ∃ found, resolver.lookup eventTypeName = some found ∧ type = some (.text found.title))

namespace Shape

/-- The fields of a node, and the names of its parts, by its tag. -/
def WellMade (resolver : Resolver) : Shape → Prop
  | primitive _ type value => type.isSome ≠ value.isSome
  | array _ element low high =>
    (∃ e, element = some e ∧ e.name = none) ∧ (∀ n ∈ low, 1 ≤ n) ∧ ∀ n ∈ high, 1 ≤ n
  | object _ _ properties templates =>
    (∃ ps, properties = some ps ∧ ∀ p ∈ ps, p.name.isSome) ∧ templates ≠ some []
  | reference _ type _ templates =>
    (∃ v, type = some v ∧ v ≠ .null) ∧ ∀ ts ∈ templates, ts ≠ [] ∧
      ((∀ t ∈ ts, t.name = none) ∨ IsListener resolver type ts)
  | function _ parameters returnType =>
    (∃ ps, parameters = some ps ∧ ∀ p ∈ ps, p.name.isSome) ∧
      ∀ r ∈ returnType, r.name = some "returns" ∧ ¬ isVoid r
  | union _ options isEnum =>
    ∃ ss, options = some ss ∧ (∀ s ∈ ss, s.name = none) ∧ isEnum = some (ss.all (·.isPrimitive))
  | unknown _ => True

/-- A well-formed node. -/
structure WellFormed (resolver : Resolver) (s : Shape) : Prop where
  allowed : s.FieldsAllowed
  made : s.WellMade resolver
  comment : s.label.comment ≠ some []

end Shape

variable {resolver : Resolver}

/-- All nodes of a shape are well formed. -/
abbrev AllWellFormed (resolver : Resolver) (s : Shape) : Prop :=
  s.Everywhere (Shape.WellFormed resolver)

private theorem allWellFormed_intro {s : Shape} (made : s.WellMade resolver)
    (comment : s.label.comment ≠ some []) (parts : ∀ p ∈ s.parts, AllWellFormed resolver p) :
    AllWellFormed resolver s :=
  .intro ⟨s.fieldsAllowed, made, comment⟩ parts

private theorem allWellFormed_of_blank {s : Shape} (blank : s.label = {})
    (made : s.WellMade resolver) (parts : ∀ p ∈ s.parts, AllWellFormed resolver p) :
    AllWellFormed resolver s :=
  allWellFormed_intro made (by simp [blank]) parts

/-! ## Changes that keep shapes well formed -/

private theorem AllWellFormed.withLabel {s : Shape} (h : AllWellFormed resolver s) {l : Label}
    (hl : l.comment ≠ some []) : AllWellFormed resolver (s.withLabel l) := by
  refine allWellFormed_intro ?_ (by simpa using hl) (by simpa using h.parts)
  have := h.here.made
  cases s <;> exact this

private theorem AllWellFormed.withName {s : Shape} (h : AllWellFormed resolver s)
    (name : Option Text) : AllWellFormed resolver (s.withName name) :=
  h.withLabel h.here.comment

private theorem AllWellFormed.withoutReturn {s : Shape} (h : AllWellFormed resolver s) :
    AllWellFormed resolver s.withoutReturn := by
  have made := h.here.made
  refine allWellFormed_intro ?_ (by simpa using h.here.comment) fun p hp =>
    h.parts p (Shape.mem_parts_withoutReturn hp)
  cases s with
  | function label parameters returnType => exact ⟨made.1, by simp⟩
  | _ => exact made

theorem commentText_ne_nil (resolver : Resolver) (scope : Option Place)
    (comment : Option Comment) : Link.commentText resolver scope comment ≠ some [] := by
  cases comment with
  | none => simp [Link.commentText]
  | some c => exact (Link.extracts_commentText resolver scope c).ne_nil

theorem plainText_ne_nil (resolver : Resolver) (scope : Option Place) (s : Text) :
    Link.plainText resolver scope s ≠ some [] :=
  (Link.extracts_plainText resolver scope s).ne_nil

private theorem or_ne_nil {a b : Option Text} (ha : a ≠ some []) (hb : b ≠ some []) :
    a.or b ≠ some [] := by
  cases a with
  | none => simpa using hb
  | some t => simpa using ha

private theorem AllWellFormed.attach {s : Shape} (h : AllWellFormed resolver s) (d : Declaration) :
    AllWellFormed resolver (attach resolver d s) :=
  h.withLabel (or_ne_nil (commentText_ne_nil _ _ _) h.here.comment)

/-! ## Built shapes -/

private theorem eq_of_presentList {α : Type} {l l' : List α} (h : presentList l = some l') :
    l' ≠ [] ∧ l = l' := by
  unfold presentList at h
  cases l with
  | nil => simp at h
  | cons a l =>
    cases h
    exact ⟨by simp, rfl⟩

private theorem literalShape_allWellFormed (position : Position) (value : Text) :
    AllWellFormed resolver (literalShape position value) := by
  have literal : AllWellFormed resolver
      (.primitive {} none (some (Json.Value.outputText none (.text value)))) :=
    allWellFormed_of_blank rfl (by simp [Shape.WellMade]) (by simp [Shape.parts])
  cases position with
  | unionOption => exact literal
  | elsewhere =>
    refine allWellFormed_of_blank rfl ⟨_, rfl, ?_, rfl⟩ fun p hp => ?_
    · intro p hp
      cases List.mem_singleton.1 hp
      rfl
    · cases List.mem_singleton.1 hp
      exact literal

private theorem referencedName_ne_null (name : Text) (qualifiedName : Json.Value)
    (target : Option Site) : TypeNode.referencedName name qualifiedName target ≠ .null := by
  unfold TypeNode.referencedName
  split
  · simp
  · split
    · simp
    · rename_i h
      rintro rfl
      exact h rfl

private theorem linkTo_title {owner : Place} {target : Option Site} {found : Link.Target}
    (h : resolver.linkTo owner target = some found) :
    ∃ site t, target = some site ∧ resolver.lookup site.fullName = some t ∧
      found.title = t.title := by
  obtain ⟨site, rfl, h⟩ := Option.bind_eq_some_iff.1 h
  obtain ⟨t, ht, h⟩ := Option.bind_eq_some_iff.1 h
  refine ⟨site, t, rfl, ht, ?_⟩
  split at h <;> cases h <;> rfl

/-- How a reference is shown: under the title of what it links to, or under its name. -/
private theorem shownType (resolver : Resolver) (owner : Place) (target : Option Site)
    (name : Text) (qualifiedName : Json.Value) {type : Json.Value}
    (h : type = ((resolver.linkTo owner target).map fun t => Json.Value.text t.title).getD
      (TypeNode.referencedName name qualifiedName target)) :
    type ≠ .null ∧ (TypeNode.referencedName name qualifiedName target = .text eventTypeName →
      some type = some (.text eventTypeName) ∨ ∃ found, resolver.lookup eventTypeName = some found ∧
        some type = some (.text found.title)) := by
  cases hl : resolver.linkTo owner target with
  | none =>
    rw [hl] at h
    subst h
    exact ⟨referencedName_ne_null _ _ _, fun hn => Or.inl (congrArg some hn)⟩
  | some found =>
    rw [hl] at h
    subst h
    refine ⟨by simp, fun hn => Or.inr ?_⟩
    obtain ⟨site, t, rfl, ht, htitle⟩ := linkTo_title hl
    have hsite : site.fullName = eventTypeName := by simpa [TypeNode.referencedName] using hn
    exact ⟨t, hsite ▸ ht, by simp [htitle]⟩

private theorem referenceShape_allWellFormed {owner : Declaration} {name : Text}
    {qualifiedName : Json.Value} {target : Option Site} {arguments : List Shape} {s : Shape}
    (names : ∀ a ∈ arguments, a.name = none)
    (parts : ∀ a ∈ arguments, AllWellFormed resolver a)
    (h : (referenceShape resolver owner (TypeNode.referencedName name qualifiedName target) target
      arguments).outcome = .ok s) :
    s.name = none ∧ AllWellFormed resolver s := by
  unfold referenceShape at h
  dsimp only at h
  obtain ⟨hnull, hevent⟩ := shownType resolver owner.place target name qualifiedName rfl
  split at h
  · rename_i hname
    split at h
    · rename_i listener
      cases h
      refine ⟨rfl, allWellFormed_of_blank rfl ⟨⟨_, rfl, hnull⟩, ?_⟩ fun p hp => ?_⟩
      · rintro ts ⟨⟩
        refine ⟨by simp, Or.inr ⟨⟨_, rfl, ?_⟩, hevent (Json.Value.isText_iff.1 hname)⟩⟩
        simp [Shape.name, Shape.withName]
      · cases List.mem_singleton.1 hp
        exact ((parts listener (List.mem_singleton.2 rfl)).withName _).withoutReturn
    · cases h
  · cases h
    refine ⟨rfl, allWellFormed_of_blank rfl ⟨⟨_, rfl, hnull⟩, ?_⟩ fun p hp => ?_⟩
    · intro ts hts
      obtain ⟨hne, rfl⟩ := eq_of_presentList hts
      exact ⟨hne, Or.inl names⟩
    · cases hl : presentList arguments with
      | none => simp [Shape.parts, hl] at hp
      | some ts =>
        obtain ⟨-, rfl⟩ := eq_of_presentList hl
        simp only [Shape.parts, hl, Option.getD_some] at hp
        exact parts p hp

private theorem mem_zipWith {α β γ : Type} {f : α → β → γ} {as : List α} {bs : List β} {c : γ}
    (h : c ∈ as.zipWith f bs) : ∃ a ∈ as, ∃ b ∈ bs, f a b = c := by
  rw [← List.map_uncurry_zip_eq_zipWith] at h
  obtain ⟨⟨a, b⟩, hm, rfl⟩ := List.mem_map.1 h
  exact ⟨a, (List.of_mem_zip hm).1, b, (List.of_mem_zip hm).2, rfl⟩

private theorem isVoid_withLabel (s : Shape) (l : Label) : isVoid (s.withLabel l) = isVoid s := by
  cases s with
  | primitive _ type _ => cases type <;> rfl
  | _ => rfl

private theorem functionShape_allWellFormed (owner : Place) (required : List Text)
    (longest : Signature) {shapes : SignatureShapes}
    (parameters : ∀ s ∈ shapes.parameters, AllWellFormed resolver s)
    (returnType : ∀ s ∈ shapes.returnType, AllWellFormed resolver s) :
    AllWellFormed resolver (functionShape resolver owner required longest shapes) := by
  have named : ∀ p ∈ longest.parameters.zipWith (parameterShape resolver required)
      shapes.parameters, p.name.isSome ∧ AllWellFormed resolver p := by
    intro p hp
    obtain ⟨q, -, s, hs, rfl⟩ := mem_zipWith hp
    refine ⟨by simp [parameterShape, Shape.name], (parameters s hs).withLabel ?_⟩
    exact or_ne_nil (commentText_ne_nil _ _ _) (parameters s hs).here.comment
  have returned : ∀ r ∈ shapes.returnType.bind (returnShape resolver owner longest.comment),
      r.name = some "returns" ∧ ¬ isVoid r ∧ AllWellFormed resolver r := by
    intro r hr
    obtain ⟨s, hs, hr⟩ := Option.bind_eq_some_iff.1 hr
    unfold returnShape at hr
    split at hr
    · cases hr
    · rename_i hv
      cases hr
      refine ⟨by simp [Shape.name], by rwa [isVoid_withLabel], (returnType s hs).withLabel ?_⟩
      refine or_ne_nil ?_ (returnType s hs).here.comment
      cases longest.comment with
      | none => simp
      | some c => exact plainText_ne_nil _ _ _
  refine allWellFormed_intro ⟨⟨_, rfl, fun p hp => (named p hp).1⟩, fun r hr => ?_⟩
    (commentText_ne_nil _ _ _) fun p hp => ?_
  · exact ⟨(returned r hr).1, (returned r hr).2.1⟩
  · rcases List.mem_append.1 hp with hp | hp
    · exact (named p hp).2
    · exact (returned p (Option.mem_toList.1 hp)).2.2

private theorem objectShape_allWellFormed (d : Declaration) (form : ObjectForm)
    {members : List (Declaration × Shape)}
    (h : ∀ m ∈ members, AllWellFormed resolver m.2) :
    (objectShape resolver d form (members.map (propertyShape resolver))).name = none ∧
      AllWellFormed resolver
        (objectShape resolver d form (members.map (propertyShape resolver))) := by
  have properties : ∀ p ∈ members.map (propertyShape resolver),
      p.name.isSome ∧ AllWellFormed resolver p := by
    intro p hp
    obtain ⟨m, hm, rfl⟩ := List.mem_map.1 hp
    refine ⟨by simp [propertyShape, Shape.name, Shape.withName], ?_⟩
    exact ((h m hm).attach m.1).withName _
  have object : AllWellFormed resolver (.object {} form
      (some (members.map (propertyShape resolver))) (presentList d.typeParameters)) :=
    allWellFormed_of_blank rfl
      ⟨⟨_, rfl, fun p hp => (properties p hp).1⟩, fun h => (eq_of_presentList h).1 rfl⟩
      fun p hp => (properties p hp).2
  unfold objectShape
  dsimp only
  cases hf : (attach resolver d (.object {} form (some (members.map (propertyShape resolver)))
    (presentList d.typeParameters))).fixedArray? with
  | none =>
    exact ⟨by simp [attach, Shape.name, Shape.label, Shape.withLabel], object.attach d⟩
  | some t =>
    obtain ⟨label, first, rest, templates, hs, -, -, rfl⟩ := Shape.fixedArray?_eq_some hf
    have hfirst : first ∈ members.map (propertyShape resolver) := by
      simp only [attach, Shape.withLabel, Shape.object.injEq, Option.some.injEq] at hs
      rw [hs.2.2.1]
      exact List.mem_cons_self ..
    have element := (properties first hfirst).2.withName none
    refine ⟨rfl, allWellFormed_of_blank rfl ⟨⟨_, rfl, ?_⟩, ?_, ?_⟩ fun p hp => ?_⟩
    · simp [Shape.name, Shape.withName]
    · rintro n ⟨⟩
      omega
    · rintro n ⟨⟩
      omega
    · cases List.mem_singleton.1 hp
      exact element

/-- A built shape has no name, and all its nodes are well formed. -/
theorem Built.wellFormed {position : Position} {s : Shape} (h : Built resolver position s) :
    s.name = none ∧ AllWellFormed resolver s := by
  induction h with
  | unknown => exact ⟨rfl, allWellFormed_of_blank rfl trivial (by simp [Shape.parts])⟩
  | intrinsic =>
    exact ⟨rfl, allWellFormed_of_blank rfl (by simp [Shape.WellMade]) (by simp [Shape.parts])⟩
  | literal position value =>
    exact ⟨by cases position <;> rfl, literalShape_allWellFormed position value⟩
  | array _ ih =>
    refine ⟨rfl, allWellFormed_of_blank rfl ⟨⟨_, rfl, ih.1⟩, by simp, by simp⟩ fun p hp => ?_⟩
    cases List.mem_singleton.1 hp
    exact ih.2
  | tuple rest _ ih =>
    refine ⟨rfl, allWellFormed_of_blank rfl ⟨⟨_, rfl, ih.1⟩, ?_, ?_⟩ fun p hp => ?_⟩
    · rintro n ⟨⟩
      omega
    · rintro n ⟨⟩
      omega
    · cases List.mem_singleton.1 hp
      exact ih.2
  | union _ ih =>
    exact ⟨rfl, allWellFormed_of_blank rfl ⟨_, rfl, fun s hs => (ih s hs).1, rfl⟩
      fun p hp => (ih p hp).2⟩
  | intersection _ _ hs iha ihb =>
    obtain ⟨_, _, _, _, _, _, _, _, rfl, rfl, -, rfl⟩ := Shape.intersect?_eq_some hs
    obtain ⟨element, lowA, highA⟩ := iha.2.here.made
    obtain ⟨-, lowB, highB⟩ := ihb.2.here.made
    exact ⟨rfl, allWellFormed_of_blank rfl ⟨element, Shape.greaterBound_pos lowA lowB,
      Shape.smallerBound_pos highA highB⟩ iha.2.parts⟩
  | typeParameter =>
    exact ⟨rfl, allWellFormed_of_blank rfl ⟨⟨_, rfl, by simp⟩, by simp⟩ (by simp [Shape.parts])⟩
  | reference _ hs ih =>
    exact referenceShape_allWellFormed (fun a ha => (ih a ha).1) (fun a ha => (ih a ha).2) hs
  | function owner required longest _ _ ihp ihr =>
    exact ⟨rfl, functionShape_allWellFormed owner required longest (fun s hs => (ihp s hs).2)
      fun s hs => (ihr s hs).2⟩
  | object d form _ ih => exact objectShape_allWellFormed d form fun m hm => (ih m hm).2
  | anywhere _ ih => exact ih

/-- Every node of a converted declaration is well formed, and its root has no name. -/
theorem convert_wellFormed (resolver : Resolver) (d : Declaration) (s : Shape)
    (h : (convert resolver d).outcome = .ok s) :
    s.name = none ∧ ∀ n, s.IsNode n → n.WellFormed resolver := by
  obtain ⟨body, hb, rfl⟩ := convert_built resolver d s h
  obtain ⟨name, all⟩ := hb.wellFormed
  refine ⟨?_, fun n hn => (all.attach d).of_isNode hn⟩
  simpa [Shape.name, attach] using name

/-- An event whose listener is an object without members. -/
def plainEvent : Declaration :=
  { origin := [], segment := ⟨"onClicked", none⟩, enclosing := [], id := none, isOptional := false,
    comment := none, typeParameters := [], signatures := [], children := []
    type := some (.reference "Event" [.inline
      { origin := [], segment := ⟨"__type", some .typeLiteral⟩, enclosing := [], id := none,
        isOptional := false, comment := none, typeParameters := [], type := none, signatures := [],
        children := [] }] (.text eventTypeName) none) }

theorem convert_wellFormed_plainEvent :
    let shape : Shape := .reference {} (some (.text eventTypeName)) none
      (some [.object { name := some "listener" } .literal (some []) none])
    (convert .none plainEvent).outcome = .ok shape ∧
      shape.name = none ∧ ∀ n, shape.IsNode n → n.WellFormed .none :=
  ⟨rfl, convert_wellFormed .none plainEvent _ rfl⟩

end DocShape
