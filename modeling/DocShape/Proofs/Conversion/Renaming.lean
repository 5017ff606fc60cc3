import DocShape.Conversion.Converter
import DocShape.Proofs.Conversion.Overloads
import DocShape.Proofs.Declaration.Renaming

/-!
Conversion does not see what a renaming changes (`convert_rename`): a renamed declaration has the shape
or the violation of the declaration itself, and the same warnings, in which only nodes that are not
modelled are spelled in the new way.
-/

namespace DocShape

open Link (Resolver)

/-! ## Links -/

namespace Link

/-- Two resolvers know the same targets. -/
def Resolver.Agree (resolver resolver' : Resolver) : Prop :=
  ∀ name, resolver'.lookup name = resolver.lookup name

variable {resolver resolver' : Resolver} (same : resolver.Agree resolver')

include same

theorem pageOf_of_padded {place place' : Place} (h : place.Padded place') :
    resolver'.pageOf place' = resolver.pageOf place := by
  unfold Resolver.pageOf
  rw [funext same, h.findSome?_enclosing]

theorem linkTo_rename (r : Renaming) {owner owner' : Place} (h : owner.Padded owner')
    (target : Option Site) :
    resolver'.linkTo owner' (target.map r.site) = resolver.linkTo owner target := by
  cases target with
  | none => rfl
  | some s =>
    have found : resolver'.lookup s.fullName = resolver.lookup s.fullName := same _
    simp only [Resolver.linkTo, Option.map_some, Option.bind_eq_bind, Option.bind_some,
      Renaming.fullName_site, found, pageOf_of_padded same h]

omit same in
theorem Style.target_rename (style : Style) (r : Renaming) (d : Declaration) :
    style.target (d.rename r) = style.target d := by
  unfold Style.target
  rw [d.rename_fullName, d.rename_name]

omit same in
theorem targets_rename (style : Style) (r : Renaming) (documented : List Declaration) :
    targets style (documented.map (·.rename r)) = targets style documented := by
  unfold targets
  rw [List.map_map]
  refine congrArg Table.ofList (List.map_congr_left fun d _ => ?_)
  exact Prod.ext (d.rename_fullName r) (style.target_rename r d)

/-- What is around a scope decides what its tags mean. -/
theorem findTag_of_padded (scope scope' : Option Place)
    (h : Place.Padded ((scope.getD []).drop 1) ((scope'.getD []).drop 1)) (target : Text) :
    resolver'.findTag scope' target = resolver.findTag scope target := by
  rw [findTag_eq, findTag_eq, funext same, h.findSome?_enclosing fun name =>
    if name ≠ [] then resolver.lookup (name ++ "." ++ target) else none]

omit same in
private theorem replaceTags_congr {scope scope' : Option Place}
    (h : ∀ target, resolver'.findTag scope' target = resolver.findTag scope target) (s : Text) :
    replaceTags resolver' scope' s = replaceTags resolver scope s := by
  have tags : ∀ tag, renderTag resolver' scope' tag = renderTag resolver scope tag := by
    intro tag
    rw [renderTag, renderTag, h]
  fun_induction replaceTags resolver scope s with
  | case1 => rw [replaceTags]
  | case2 c rest tag behind hr ih =>
    rw [replaceTags]
    split
    · rename_i tag' behind' hr'
      cases hr.symm.trans hr'
      rw [tags, ih]
    · rename_i hr'
      cases hr.symm.trans hr'
  | case3 c rest hr ih =>
    rw [replaceTags]
    split
    · rename_i hr'
      cases hr.symm.trans hr'
    · rw [ih]

variable (scope scope' : Option Place)
  (h : Place.Padded ((scope.getD []).drop 1) ((scope'.getD []).drop 1))

include h

theorem plainText_of_padded (s : Text) :
    plainText resolver' scope' s = plainText resolver scope s := by
  rw [plainText, plainText, replaceTags_congr (findTag_of_padded same scope scope' h)]

theorem commentText_of_padded (comment : Option Comment) :
    commentText resolver' scope' comment = commentText resolver scope comment := by
  cases comment with
  | none => rfl
  | some c =>
    simp only [commentText, Option.bind_eq_bind, Option.bind_some,
      replaceTags_congr (findTag_of_padded same scope scope' h)]

end Link

/-! ## Warnings -/

/-- A warning about a renamed declaration: nodes that are not modelled are spelled in the new way. -/
def Warning.rename (r : Renaming) (w : Warning) : Warning :=
  match w.source with
  | none => w
  | some source =>
    { w with
      category := (r.unmodelled (w.category, source)).1
      source := some (r.unmodelled (w.category, source)).2 }

/-- Where nodes that are not modelled keep their text, all warnings do. -/
theorem Warning.rename_eq_self {r : Renaming} (h : r.unmodelled = id) : Warning.rename r = id := by
  funext ⟨category, owner, source⟩
  cases source with
  | none => rfl
  | some source => simp [rename, h]

/-! ## Parts of conversions -/

section

variable {resolver resolver' : Resolver} (r : Renaming)
  (same : resolver.Agree resolver')

include same

theorem attach_rename (d : Declaration) (shape : Shape) :
    attach resolver' (d.rename r) shape = attach resolver d shape := by
  rw [attach, attach, Link.commentText_of_padded same (some d.place) (some (d.rename r).place)
    (d.enclosing_padded r), d.rename_comment, d.rename_isOptional]

omit same in
private theorem unknownShape_rename (category : Text) (owner : Declaration) :
    unknownShape category (owner.rename r) =
      (unknownShape category owner).mapNotes (Warning.rename r) := by
  rw [unknownShape, unknownShape, owner.rename_name]
  rfl

omit same in
private theorem shapeOrUnknown_rename (owner : Declaration) (body : Option Shape) :
    shapeOrUnknown (owner.rename r) body =
      (shapeOrUnknown owner body).mapNotes (Warning.rename r) := by
  cases body with
  | some shape => rfl
  | none => exact unknownShape_rename r _ owner

private theorem referenceShape_rename (owner : Declaration) (name : Json.Value)
    (target : Option Site) (arguments : List Shape) :
    referenceShape resolver' (owner.rename r) name (target.map r.site) arguments =
      (referenceShape resolver owner name target arguments).mapNotes (Warning.rename r) := by
  unfold referenceShape
  rw [Link.linkTo_rename same r (owner.place_padded r), owner.rename_name]
  dsimp only
  split
  · split <;> rfl
  · rfl

omit same in
private theorem referencedName_rename (name : Text) (qualifiedName : Json.Value)
    (target : Option Site) :
    TypeNode.referencedName name qualifiedName (target.map r.site) =
      TypeNode.referencedName name qualifiedName target := by
  cases target with
  | none => rfl
  | some s => exact congrArg Json.Value.text (r.fullName_site s)

private theorem objectShape_rename (d : Declaration) (form : ObjectForm) (properties : List Shape) :
    objectShape resolver' (d.rename r) form properties = objectShape resolver d form properties := by
  rw [objectShape, objectShape, attach_rename r same, d.rename_typeParameters]

private theorem parameterShape_rename (required : List Text) (p : Parameter) (shape : Shape) :
    parameterShape resolver' required (p.rename r) shape =
      parameterShape resolver required p shape := by
  obtain ⟨name, type, comment, isOptional⟩ := p
  rw [Parameter.rename, parameterShape, parameterShape,
    Link.commentText_of_padded same none none .nil]

private theorem functionShape_rename (owner : Declaration) (required : List Text) (s : Signature)
    (shapes : SignatureShapes) :
    functionShape resolver' (owner.rename r).place required (s.rename r) shapes =
      functionShape resolver owner.place required s shapes := by
  obtain ⟨name, parameters, type, comment⟩ := s
  have outer : Place.Padded (((some owner.place).getD []).drop 1)
      (((some (owner.rename r).place).getD []).drop 1) := owner.enclosing_padded r
  have returns : returnShape resolver' (owner.rename r).place comment =
      returnShape resolver owner.place comment := by
    funext shape
    rw [returnShape, returnShape, funext (Link.plainText_of_padded same _ _ outer)]
  rw [Signature.rename, functionShape, functionShape, Parameter.renameAll_eq_map,
    List.zipWith_map_left, funext fun p => funext (parameterShape_rename r same required p),
    Link.commentText_of_padded same _ _ outer, returns]

end

/-! ## Signatures -/

/-- A signature and the conversion of its types, renamed. -/
private def renamePair (r : Renaming) (x : Signature × Conversion SignatureShapes) :
    Signature × Conversion SignatureShapes :=
  (x.1.rename r, x.2.mapNotes (Warning.rename r))

private theorem arity_rename (r : Renaming) (s : Signature) : (s.rename r).arity = s.arity := by
  obtain ⟨name, parameters, type, comment⟩ := s
  rw [Signature.rename, Signature.arity, Parameter.renameAll_eq_map, List.length_map]
  rfl

private theorem parameterNames_rename (r : Renaming) (s : Signature) :
    (s.rename r).parameters.map (·.name) = s.parameters.map (·.name) := by
  obtain ⟨name, parameters, type, comment⟩ := s
  rw [Signature.rename, Parameter.renameAll_eq_map, List.map_map]
  apply List.map_congr_left
  rintro ⟨_, _, _, _⟩ -
  rfl

private theorem overloadShape_rename {resolver resolver' : Resolver} (r : Renaming)
    (same : resolver.Agree resolver') (owner : Declaration)
    (first : Signature × Conversion SignatureShapes)
    (rest : List (Signature × Conversion SignatureShapes)) :
    overloadShape resolver' (owner.rename r) (renamePair r first) (rest.map (renamePair r)) =
      (overloadShape resolver owner first rest).mapNotes (Warning.rename r) := by
  rw [overloadShape, overloadShape, extremes_map (·.1.arity) (fun x => arity_rename r x.1),
    Journal.mapNotes_bind]
  simp only [Extremes.map, renamePair, parameterNames_rename, functionShape_rename r same,
    Journal.mapNotes_pure]

/-! ## Conversions -/

variable {resolver resolver' : Resolver}

mutual

theorem convertType_rename (r : Renaming) (same : resolver.Agree resolver')
    (position : Position) (owner : Declaration) : ∀ t : TypeNode,
    convertType resolver' position (owner.rename r) (t.rename r) =
      (convertType resolver position owner t).mapNotes (Warning.rename r)
  | .intrinsic name => rfl
  | .stringLiteral value => rfl
  | .array element => by
    rw [TypeNode.rename, convertType, convertType,
      convertType_rename r same .elsewhere owner element, Journal.mapNotes_bind]
    rfl
  | .tuple [] => unknownShape_rename r _ owner
  | .tuple (first :: rest) => by
    have uniform : ((TypeNode.renameAll r rest).all fun t => t.sameAs (first.rename r)) =
        rest.all fun t => t.sameAs first := by
      rw [TypeNode.renameAll_eq_map, List.all_map]
      exact congrArg rest.all (funext fun t => TypeNode.sameAs_rename r t first)
    rw [TypeNode.rename, TypeNode.renameAll, convertType, convertType, uniform,
      convertType_rename r same .elsewhere owner first, TypeNode.renameAll_eq_map, List.length_map]
    split
    · rw [Journal.mapNotes_bind]
      rfl
    · exact unknownShape_rename r _ owner
  | .union options => by
    rw [TypeNode.rename, convertType, convertType,
      convertTypes_rename r same .unionOption owner options, Journal.mapNotes_bind]
    rfl
  | .intersection [a, b] => by
    rw [TypeNode.rename, TypeNode.renameAll, TypeNode.renameAll, TypeNode.renameAll, convertType,
      convertType, convertType_rename r same .elsewhere owner a,
      convertType_rename r same .elsewhere owner b, Journal.mapNotes_bind]
    congr 1
    funext sa
    rw [Journal.mapNotes_bind]
    congr 1
    funext sb
    split
    · rfl
    · exact unknownShape_rename r _ owner
  | .intersection [] => unknownShape_rename r _ owner
  | .intersection [_] => unknownShape_rename r _ owner
  | .intersection (_ :: _ :: _ :: _) => unknownShape_rename r _ owner
  | .typeParameter name => rfl
  | .reference name arguments qualifiedName target => by
    rw [TypeNode.rename, convertType, convertType,
      convertTypes_rename r same .elsewhere owner arguments, Journal.mapNotes_bind,
      referencedName_rename]
    congr 1
    funext shapes
    exact referenceShape_rename r same owner _ target shapes
  | .inline declaration => by
    rw [TypeNode.rename, convertType, convertType, convertBody_rename r same declaration,
      Journal.mapNotes_bind]
    congr 1
    funext body
    exact shapeOrUnknown_rename r owner body
  | .unmodelled category source => by
    rw [TypeNode.rename, convertType, convertType, unknownShape, unknownShape, owner.rename_name]
    rfl
termination_by structural node => node

theorem convertTypes_rename (r : Renaming) (same : resolver.Agree resolver')
    (position : Position) (owner : Declaration) : ∀ l : List TypeNode,
    convertTypes resolver' position (owner.rename r) (TypeNode.renameAll r l) =
      (convertTypes resolver position owner l).mapNotes (Warning.rename r)
  | [] => rfl
  | t :: rest => by
    rw [TypeNode.renameAll, convertTypes, convertTypes, convertType_rename r same position owner t,
      convertTypes_rename r same position owner rest]
    simp only [Journal.mapNotes_bind, Journal.mapNotes_pure]
termination_by structural node => node

theorem convertBody_rename (r : Renaming) (same : resolver.Agree resolver') :
    ∀ d : Declaration,
    convertBody resolver' (d.rename r) = (convertBody resolver d).mapNotes (Warning.rename r)
  | ⟨origin, segment, enclosing, id, isOptional, comment, typeParameters, some t, signatures,
      children⟩ => by
    have ht := convertType_rename r same .elsewhere ⟨origin, segment, enclosing, id, isOptional,
      comment, typeParameters, some t, signatures, children⟩ t
    rw [Declaration.rename, TypeNode.renameOption] at ht ⊢
    rw [convertBody, convertBody, ht, Journal.mapNotes_bind]
    rfl
  | ⟨origin, segment, enclosing, id, isOptional, comment, typeParameters, none, signatures,
      children⟩ => by
    let d : Declaration := ⟨origin, segment, enclosing, id, isOptional, comment, typeParameters,
      none, signatures, children⟩
    have pairs : (Signature.renameAll r signatures).zip
        (convertSignatures resolver' (d.rename r) (Signature.renameAll r signatures)) =
        (signatures.zip (convertSignatures resolver d signatures)).map (renamePair r) := by
      rw [convertSignatures_rename r same d signatures, Signature.renameAll_eq_map, List.zip_map]
      rfl
    have properties (form : ObjectForm) : objectShape resolver' (d.rename r) form =
        objectShape resolver d form := funext (objectShape_rename r same d form)
    have overloads := overloadShape_rename r same d
    simp only [d, Declaration.rename, TypeNode.renameOption] at pairs properties overloads ⊢
    rw [convertBody.eq_def, convertBody.eq_def]
    dsimp only
    rw [pairs]
    cases signatures.zip (convertSignatures resolver d signatures) with
    | nil =>
      dsimp only [List.map_nil]
      cases ObjectForm.ofKind? segment.kind with
      | none => rfl
      | some form =>
        dsimp only
        rw [convertProperties_rename r same children, properties, Journal.mapNotes_bind]
        rfl
    | cons first rest =>
      rw [List.map_cons]
      dsimp only
      rw [overloads, Journal.mapNotes_bind]
      rfl
termination_by structural node => node

theorem convertProperties_rename (r : Renaming) (same : resolver.Agree resolver') :
    ∀ l : List Declaration,
    convertProperties resolver' (Declaration.renameAll r l) =
      (convertProperties resolver l).mapNotes (Warning.rename r)
  | [] => rfl
  | d :: rest => by
    rw [Declaration.renameAll, convertProperties, convertProperties, convertBody_rename r same d,
      convertProperties_rename r same rest]
    simp only [Journal.mapNotes_bind, Journal.mapNotes_pure, shapeOrUnknown_rename,
      attach_rename r same, Declaration.rename_name]
termination_by structural node => node

theorem convertSignatures_rename (r : Renaming) (same : resolver.Agree resolver')
    (owner : Declaration) : ∀ l : List Signature,
    convertSignatures resolver' (owner.rename r) (Signature.renameAll r l) =
      (convertSignatures resolver owner l).map (·.mapNotes (Warning.rename r))
  | [] => rfl
  | ⟨name, parameters, none, comment⟩ :: rest => by
    rw [Signature.renameAll, Signature.rename, TypeNode.renameOption, convertSignatures,
      convertSignatures, List.map_cons, convertSignatures_rename r same owner rest,
      convertParameters_rename r same owner parameters, Journal.mapNotes_bind]
    rfl
  | ⟨name, parameters, some t, comment⟩ :: rest => by
    rw [Signature.renameAll, Signature.rename, TypeNode.renameOption, convertSignatures,
      convertSignatures, List.map_cons, convertSignatures_rename r same owner rest,
      convertParameters_rename r same owner parameters, Journal.mapNotes_bind]
    dsimp only
    rw [convertType_rename r same .elsewhere owner t]
    simp only [Journal.mapNotes_bind, Journal.mapNotes_pure]
termination_by structural node => node

theorem convertParameters_rename (r : Renaming) (same : resolver.Agree resolver')
    (owner : Declaration) : ∀ l : List Parameter,
    convertParameters resolver' (owner.rename r) (Parameter.renameAll r l) =
      (convertParameters resolver owner l).mapNotes (Warning.rename r)
  | [] => rfl
  | ⟨name, none, _, _⟩ :: rest => by
    rw [Parameter.renameAll, Parameter.rename, TypeNode.renameOption, convertParameters,
      convertParameters, owner.rename_name]
    rfl
  | ⟨name, some t, _, _⟩ :: rest => by
    rw [Parameter.renameAll, Parameter.rename, TypeNode.renameOption, convertParameters,
      convertParameters, convertParameters_rename r same owner rest,
      convertType_rename r same .elsewhere owner t]
    simp only [Journal.mapNotes_bind, Journal.mapNotes_pure]
termination_by structural node => node

end

theorem convert_rename (r : Renaming) (same : resolver.Agree resolver') (d : Declaration) :
    convert resolver' (d.rename r) = (convert resolver d).mapNotes (Warning.rename r) := by
  rw [convert, convert, convertBody_rename r same d]
  simp only [Journal.mapNotes_bind, Journal.mapNotes_pure, shapeOrUnknown_rename,
    attach_rename r same]

theorem outcome_convert_rename (r : Renaming) (same : resolver.Agree resolver') (d : Declaration) :
    (convert resolver' (d.rename r)).outcome = (convert resolver d).outcome := by
  rw [convert_rename r same, Journal.outcome_mapNotes]

end DocShape
