import DocShape.Proofs.Conversion.Renderings

/-!
How the shapes that a conversion can end in are built: `Built` has one rule for each way of building
one, and `convert_built` shows that there are no others. What holds of all converted shapes is proved by
induction on the rules.
-/

namespace DocShape

open Link (Resolver)

/-- The shapes that types and declarations can have at a position. -/
inductive Built (resolver : Resolver) : Position → Shape → Prop
  | unknown (position : Position) : Built resolver position (.unknown {})
  | intrinsic (position : Position) (name : Text) :
    Built resolver position (.primitive {} (some name) none)
  | literal (position : Position) (value : Text) :
    Built resolver position (literalShape position value)
  | array {position : Position} {element : Shape} : Built resolver .elsewhere element →
    Built resolver position (.array {} (some element) none none)
  | tuple {position : Position} {element : Shape} (rest : Nat) : Built resolver .elsewhere element →
    Built resolver position (.array {} (some element) (some (rest + 1)) (some (rest + 1)))
  | union {position : Position} {options : List Shape} :
    (∀ s ∈ options, Built resolver .unionOption s) →
    Built resolver position (.union {} (some options) (some (options.all (·.isPrimitive))))
  | intersection {position : Position} {a b s : Shape} : Built resolver .elsewhere a →
    Built resolver .elsewhere b → a.intersect? b = some s → Built resolver position s
  | typeParameter (position : Position) (name : Text) :
    Built resolver position (.reference {} (some (.text name)) none none)
  | reference {position : Position} {owner : Declaration} {name : Text}
    {qualifiedName : Json.Value} {target : Option Site} {arguments : List Shape} {s : Shape} :
    (∀ a ∈ arguments, Built resolver .elsewhere a) →
    (referenceShape resolver owner (TypeNode.referencedName name qualifiedName target) target
      arguments).outcome = .ok s →
    Built resolver position s
  | function {position : Position} (owner : Place) (required : List Text) (longest : Signature)
    {shapes : SignatureShapes} : (∀ s ∈ shapes.parameters, Built resolver .elsewhere s) →
    (∀ s ∈ shapes.returnType, Built resolver .elsewhere s) →
    Built resolver position (functionShape resolver owner required longest shapes)
  | object {position : Position} (d : Declaration) (form : ObjectForm)
    {members : List (Declaration × Shape)} : (∀ m ∈ members, Built resolver .elsewhere m.2) →
    Built resolver position (objectShape resolver d form (members.map (propertyShape resolver)))
  | anywhere {position : Position} {s : Shape} : Built resolver .elsewhere s →
    Built resolver position s

variable {resolver : Resolver}

private theorem leaf_built {position : Position} {owner : Declaration} {t : TypeNode} {s : Shape}
    (ht : t.isLeaf) (h : (convertType resolver position owner t).outcome = .ok s) :
    Built resolver position s := by
  cases t with
  | intrinsic name =>
    cases h
    exact .intrinsic position name
  | stringLiteral value =>
    cases h
    exact .literal position value
  | typeParameter name =>
    cases h
    exact .typeParameter position name
  | _ => cases ht

/-- What is rendered from leaves as they are converted is built. -/
theorem Rendered.built {root : Entry} {position : Position} {e : Entry} {s : Shape}
    (h : RenderedBelow resolver root position e s) : Built resolver position s := by
  induction h with
  | leaf ht hs =>
    obtain ⟨owner, -, hs⟩ := hs
    exact leaf_built ht hs
  | refused => exact .unknown _
  | array _ ih => exact .array ih
  | tuple _ _ ih => exact .tuple _ ih
  | union hn _ ih =>
    refine .union fun s hs => ?_
    obtain ⟨t, ht⟩ := exists_mem_zip hn hs
    exact ih t s ht
  | intersection _ _ iha ihb =>
    cases hs : Shape.intersect? _ _ with
    | none => exact .unknown _
    | some s => exact .intersection iha ihb hs
  | reference hn _ hs ih =>
    refine .reference (fun a ha => ?_) hs
    obtain ⟨t, ht⟩ := exists_mem_zip hn ha
    exact ih t a ht
  | inline _ ih => exact .anywhere ih
  | ownType _ _ ih => exact .anywhere ih
  | @function _ d longest shapes required _ hn typed _ hr _ ihp ihr =>
    refine .function d.place required longest (fun s hs => ?_) fun s hs => ?_
    · obtain ⟨p, hp⟩ := exists_mem_zip hn hs
      obtain ⟨t, ht⟩ := Option.isSome_iff_exists.1 (typed p (List.of_mem_zip hp).1)
      exact ihp p s hp t ht
    · obtain ⟨t, ht⟩ := Option.isSome_iff_exists.1 (hr.trans (Option.isSome_of_mem hs))
      exact ihr t s ht hs
  | @object _ d form shapes _ _ _ _ _ ih =>
    exact .object d form fun m hm => ih m.1 m.2 hm
  | bare => exact .unknown _

/-- A conversion that ends well ends in a built shape with the label of the declaration. -/
theorem convert_built (resolver : Resolver) (d : Declaration) :
    (convert resolver d).Ensures fun s =>
      ∃ body, Built resolver .elsewhere body ∧ s = attach resolver d body := by
  intro s h
  obtain ⟨body, rfl, rendered⟩ := convert_rendered resolver d s h
  exact ⟨body, rendered.built, rfl⟩

end DocShape
