import DocShape.Proofs.Conversion.Visits

/-!
What a conversion does in one step. `Rule` has one rule for each kind of entry, which makes the shape of the
entry from the shapes of the entries that are visited for it, and it says at which position those stand.
`Converts.rule` shows that every conversion ends by one of these rules, and `Converts.induction` is the
induction on the entries that are visited: these become smaller with every step.
-/

namespace DocShape

open Link (Resolver)

/-- The property that a declaration becomes whose body has a given shape. -/
def propertyShape (resolver : Resolver) (member : Declaration × Shape) : Shape :=
  (attach resolver member.1 member.2).withName (some member.1.name)

/-- The shapes of a signature are those of its types. -/
structure SignatureRule (below : TypeNode → Shape → Prop) (signature : Signature)
    (shapes : SignatureShapes) : Prop where
  length : signature.parameters.length = shapes.parameters.length
  typed : ∀ p ∈ signature.parameters, p.type.isSome
  parameters : ∀ p s, (p, s) ∈ signature.parameters.zip shapes.parameters → ∀ t, p.type = some t →
    below t s
  returns : signature.type.isSome = shapes.returnType.isSome
  returnType : ∀ t s, signature.type = some t → shapes.returnType = some s → below t s

/-- The shape of an entry at a position, where `below` says which shapes the entries have that are visited
for it. The options of a union stand at the position of options; all others stand elsewhere. -/
inductive Rule (resolver : Resolver) (below : Position → Entry → Shape → Prop) :
    Position → Entry → Shape → Prop
  | leaf {position : Position} {owner : Declaration} {t : TypeNode} {s : Shape} : t.isLeaf →
    (convertType resolver position owner t).outcome = .ok s →
    Rule resolver below position (.type owner t) s
  | refused {position : Position} {owner : Declaration} {t : TypeNode} : t.isRefused →
    Rule resolver below position (.type owner t) (.unknown {})
  | array {position : Position} {owner : Declaration} {t : TypeNode} {s : Shape} :
    below .elsewhere (.type owner t) s →
    Rule resolver below position (.type owner (.array t)) (.array {} (some s) none none)
  | tuple {position : Position} {owner : Declaration} {t : TypeNode} {rest : List TypeNode}
    {s : Shape} : (∀ t' ∈ rest, t'.sameAs t) → below .elsewhere (.type owner t) s →
    Rule resolver below position (.type owner (.tuple (t :: rest)))
      (.array {} (some s) (some (rest.length + 1)) (some (rest.length + 1)))
  | union {position : Position} {owner : Declaration} {options : List TypeNode}
    {shapes : List Shape} : options.length = shapes.length →
    (∀ t s, (t, s) ∈ options.zip shapes → below .unionOption (.type owner t) s) →
    Rule resolver below position (.type owner (.union options))
      (.union {} (some shapes) (some (shapes.all (·.isPrimitive))))
  | intersection {position : Position} {owner : Declaration} {a b : TypeNode} {sa sb : Shape} :
    below .elsewhere (.type owner a) sa → below .elsewhere (.type owner b) sb →
    Rule resolver below position (.type owner (.intersection [a, b]))
      ((sa.intersect? sb).getD (.unknown {}))
  | reference {position : Position} {owner : Declaration} {name : Text}
    {arguments : List TypeNode} {qualifiedName : Json.Value} {target : Option Site}
    {shapes : List Shape} {s : Shape} : arguments.length = shapes.length →
    (∀ t s, (t, s) ∈ arguments.zip shapes → below .elsewhere (.type owner t) s) →
    (referenceShape resolver owner (TypeNode.referencedName name qualifiedName target) target
      shapes).outcome = .ok s →
    Rule resolver below position (.type owner (.reference name arguments qualifiedName target)) s
  | inline {position : Position} {owner d : Declaration} {s : Shape} :
    below .elsewhere (.declaration d) s → Rule resolver below position (.type owner (.inline d)) s
  | ownType {position : Position} {d : Declaration} {t : TypeNode} {s : Shape} :
    d.type = some t → below .elsewhere (.type d t) s →
    Rule resolver below position (.declaration d) s
  | function {position : Position} {d : Declaration} {longest : Signature}
    {shapes : SignatureShapes} (required : List Text) : SpeaksFor longest d →
    SignatureRule (fun t => below .elsewhere (.type d t)) longest shapes →
    Rule resolver below position (.declaration d)
      (functionShape resolver d.place required longest shapes)
  | object {position : Position} {d : Declaration} {form : ObjectForm} {shapes : List Shape} :
    d.type = none → d.signatures = [] → ObjectForm.ofKind? d.kind = some form →
    d.children.length = shapes.length →
    (∀ c s, (c, s) ∈ d.children.zip shapes → below .elsewhere (.declaration c) s) →
    Rule resolver below position (.declaration d)
      (objectShape resolver d form ((d.children.zip shapes).map (propertyShape resolver)))
  | bare {position : Position} {d : Declaration} : d.type = none → d.signatures = [] →
    ObjectForm.ofKind? d.kind = none → Rule resolver below position (.declaration d) (.unknown {})

theorem Rule.mono {resolver : Resolver} {below below' : Position → Entry → Shape → Prop}
    {position : Position} {e : Entry} {s : Shape} (h : Rule resolver below position e s)
    (hb : ∀ position e s, below position e s → below' position e s) :
    Rule resolver below' position e s := by
  cases h with
  | leaf ht hs => exact .leaf ht hs
  | refused ht => exact .refused ht
  | array h => exact .array (hb _ _ _ h)
  | tuple same h => exact .tuple same (hb _ _ _ h)
  | union hn h => exact .union hn fun t s hm => hb _ _ _ (h t s hm)
  | intersection ha hb' => exact .intersection (hb _ _ _ ha) (hb _ _ _ hb')
  | reference hn h hs => exact .reference hn (fun t s hm => hb _ _ _ (h t s hm)) hs
  | inline h => exact .inline (hb _ _ _ h)
  | ownType ht h => exact .ownType ht (hb _ _ _ h)
  | function required hs h =>
    exact .function required hs ⟨h.length, h.typed,
      fun p s hm t ht => hb _ _ _ (h.parameters p s hm t ht), h.returns,
      fun t s ht hs => hb _ _ _ (h.returnType t s ht hs)⟩
  | object ht hs hk hn h => exact .object ht hs hk hn fun c s hm => hb _ _ _ (h c s hm)
  | bare ht hs hk => exact .bare ht hs hk

/-- The shape that an entry is converted to: a declaration without its own label. -/
inductive Converts (resolver : Resolver) : Position → Entry → Shape → Prop
  | type {position : Position} {owner : Declaration} {t : TypeNode} {s : Shape} :
    (convertType resolver position owner t).outcome = .ok s →
    Converts resolver position (.type owner t) s
  | declaration {position : Position} {d : Declaration} {body : Option Shape} :
    (convertBody resolver d).outcome = .ok body →
    Converts resolver position (.declaration d) (body.getD (.unknown {}))

section

variable {resolver : Resolver} {position : Position} {owner : Declaration} {s : Shape}

/-! ## Lists of entries -/

/-- The outcomes of a list of conversions, one by one. -/
theorem zip_of_outcome_mapM {α β : Type} {f : α → Conversion β} {l : List α} {bs : List β}
    (h : (l.mapM f).outcome = .ok bs) :
    l.length = bs.length ∧ ∀ a b, (a, b) ∈ l.zip bs → (f a).outcome = .ok b := by
  rw [Journal.outcome_mapM_eq_ok] at h
  refine ⟨by simpa using congrArg List.length h, fun a b hm => ?_⟩
  obtain ⟨i, hi, heq⟩ := List.mem_iff_getElem.1 hm
  rw [List.getElem_zip, Prod.mk.injEq] at heq
  rw [List.length_zip] at hi
  have outcomes : (l.map fun a => (f a).outcome)[i]? = (bs.map Except.ok)[i]? := by rw [h]
  rw [List.getElem?_map, List.getElem?_map, List.getElem?_eq_getElem (by omega),
    List.getElem?_eq_getElem (by omega), heq.1, heq.2] at outcomes
  exact Option.some.inj outcomes

theorem convertTypes_eq_mapM (resolver : Resolver) (position : Position) (owner : Declaration)
    (l : List TypeNode) :
    convertTypes resolver position owner l = l.mapM (convertType resolver position owner) := by
  induction l with
  | nil => rfl
  | cons t rest ih => rw [convertTypes, ih, List.mapM_cons]

/-- The conversion of a parameter, which has to have a type. -/
def convertParameter (resolver : Resolver) (owner : Declaration) (p : Parameter) :
    Conversion Shape :=
  match p.type with
  | none => Conversion.violate (.untypedParameter p.name owner.name)
  | some t => convertType resolver .elsewhere owner t

theorem convertParameters_eq_mapM (resolver : Resolver) (owner : Declaration)
    (l : List Parameter) :
    convertParameters resolver owner l = l.mapM (convertParameter resolver owner) := by
  induction l with
  | nil => rfl
  | cons p rest ih =>
    obtain ⟨name, type, _, _⟩ := p
    cases type with
    | none => rw [convertParameters, List.mapM_cons]; rfl
    | some t => rw [convertParameters, ih, List.mapM_cons]; rfl

theorem shapeOrUnknown_ok {body : Option Shape}
    (h : (shapeOrUnknown owner body).outcome = .ok s) : s = body.getD (.unknown {}) := by
  cases body <;> cases h <;> rfl

/-! ## Steps -/

/-- An entry that is visited from another one, and what it is converted to. -/
def ConvertsBelow (resolver : Resolver) (e : Entry) (position : Position) (e' : Entry) (s : Shape) :
    Prop :=
  Visits e e' ∧ Converts resolver position e' s

/-- What is converted in one step. -/
abbrev ConvertsStep (resolver : Resolver) (position : Position) (e : Entry) (s : Shape) : Prop :=
  Rule resolver (ConvertsBelow resolver e) position e s

private theorem unknownShape_step {t : TypeNode} {category : Text} {source : Option Text}
    (ht : t.isRefused) (h : (unknownShape category owner source).outcome = .ok s) :
    ConvertsStep resolver position (.type owner t) s := by
  cases h
  exact .refused ht

private theorem convertTypes_ok {options : List TypeNode} {shapes : List Shape}
    (h : (convertTypes resolver position owner options).outcome = .ok shapes) :
    options.length = shapes.length ∧ ∀ t s, (t, s) ∈ options.zip shapes →
      Converts resolver position (.type owner t) s := by
  rw [convertTypes_eq_mapM] at h
  obtain ⟨length, each⟩ := zip_of_outcome_mapM h
  exact ⟨length, fun t s hm => .type (each t s hm)⟩

private theorem convertType_step {t : TypeNode}
    (h : (convertType resolver position owner t).outcome = .ok s) :
    ConvertsStep resolver position (.type owner t) s := by
  cases t with
  | intrinsic | stringLiteral | typeParameter => exact .leaf rfl h
  | array t =>
    rw [convertType] at h
    obtain ⟨element, ht, h⟩ := Journal.outcome_bind_eq_ok.1 h
    cases h
    exact .array ⟨.element, .type ht⟩
  | tuple elements =>
    cases elements with
    | nil =>
      rw [convertType] at h
      exact unknownShape_step rfl h
    | cons first rest =>
      rw [convertType] at h
      split at h
      · rename_i all
        have same : ∀ t ∈ rest, t.sameAs first := by simpa using all
        obtain ⟨element, ht, h⟩ := Journal.outcome_bind_eq_ok.1 h
        cases h
        exact .tuple same ⟨.first same, .type ht⟩
      · rename_i mixed
        exact unknownShape_step (by simpa [TypeNode.isRefused] using mixed) h
  | union options =>
    rw [convertType] at h
    obtain ⟨shapes, hs, h⟩ := Journal.outcome_bind_eq_ok.1 h
    cases h
    obtain ⟨length, each⟩ := convertTypes_ok hs
    exact .union length fun t s hm => ⟨.option (List.of_mem_zip hm).1, each t s hm⟩
  | intersection operands =>
    rcases operands with _ | ⟨a, _ | ⟨b, _ | ⟨c, rest⟩⟩⟩
    · rw [convertType] at h
      · exact unknownShape_step rfl h
      · simp
    · rw [convertType] at h
      · exact unknownShape_step rfl h
      · simp
    · rw [convertType] at h
      obtain ⟨sa, ha, h⟩ := Journal.outcome_bind_eq_ok.1 h
      obtain ⟨sb, hb, h⟩ := Journal.outcome_bind_eq_ok.1 h
      have made : ConvertsStep resolver position (.type owner (.intersection [a, b]))
          ((sa.intersect? sb).getD (.unknown {})) :=
        .intersection ⟨.operand (by simp), .type ha⟩ ⟨.operand (by simp), .type hb⟩
      split at h
      · rename_i merged hi
        cases h
        rwa [hi] at made
      · rename_i hi
        cases h
        rwa [hi] at made
    · rw [convertType] at h
      · exact unknownShape_step rfl h
      · simp
  | reference name arguments qualifiedName target =>
    rw [convertType] at h
    obtain ⟨shapes, hs, h⟩ := Journal.outcome_bind_eq_ok.1 h
    obtain ⟨length, each⟩ := convertTypes_ok hs
    exact .reference length (fun t s hm => ⟨.argument (List.of_mem_zip hm).1, each t s hm⟩) h
  | inline d =>
    rw [convertType] at h
    obtain ⟨body, hbody, h⟩ := Journal.outcome_bind_eq_ok.1 h
    rw [shapeOrUnknown_ok h]
    exact .inline ⟨.inline, .declaration hbody⟩
  | unmodelled category source =>
    rw [convertType] at h
    exact unknownShape_step rfl h

private theorem convertProperties_ok {l : List Declaration} {properties : List Shape}
    (h : (convertProperties resolver l).outcome = .ok properties) :
    ∃ shapes : List Shape, l.length = shapes.length ∧
      properties = (l.zip shapes).map (propertyShape resolver) ∧
      ∀ c s, (c, s) ∈ l.zip shapes → Converts resolver .elsewhere (.declaration c) s := by
  induction l generalizing properties with
  | nil =>
    cases h
    exact ⟨[], rfl, rfl, by simp⟩
  | cons d rest ih =>
    rw [convertProperties] at h
    obtain ⟨body, hbody, h⟩ := Journal.outcome_bind_eq_ok.1 h
    obtain ⟨s, hs, h⟩ := Journal.outcome_bind_eq_ok.1 h
    obtain ⟨others, ho, h⟩ := Journal.outcome_bind_eq_ok.1 h
    cases h
    obtain ⟨shapes, length, rfl, each⟩ := ih ho
    refine ⟨s :: shapes, congrArg (· + 1) length, rfl, fun c s' hm => ?_⟩
    rw [List.zip_cons_cons] at hm
    rcases List.mem_cons.1 hm with he | hm
    · cases he
      rw [shapeOrUnknown_ok hs]
      exact .declaration hbody
    · exact each c s' hm

/-- The shapes of each signature. -/
private theorem convertSignatures_ok {l : List Signature} :
    ∀ x ∈ l.zip (convertSignatures resolver owner l), ∀ shapes, x.2.outcome = .ok shapes →
      SignatureRule (fun t => Converts resolver .elsewhere (.type owner t)) x.1 shapes := by
  induction l with
  | nil => simp
  | cons signature rest ih =>
    obtain ⟨name, parameters, type, comment⟩ := signature
    rw [convertSignatures, List.zip_cons_cons]
    refine List.forall_mem_cons.2 ⟨fun shapes h => ?_, ih⟩
    obtain ⟨ss, hs, h⟩ := Journal.outcome_bind_eq_ok.1 h
    rw [convertParameters_eq_mapM] at hs
    obtain ⟨length, each⟩ := zip_of_outcome_mapM hs
    have typed : ∀ p ∈ parameters, p.type.isSome := by
      intro p hp
      rw [Journal.outcome_mapM_eq_ok] at hs
      obtain ⟨s, -, hs⟩ := Journal.exists_result hs hp
      unfold convertParameter at hs
      split at hs
      · cases hs
      · rename_i t ht
        simp [ht]
    have below : ∀ p s, (p, s) ∈ parameters.zip ss → ∀ t, p.type = some t →
        Converts resolver .elsewhere (.type owner t) s := by
      intro p s hm t ht
      have := each p s hm
      simp only [convertParameter, ht] at this
      exact .type this
    cases type with
    | none =>
      cases h
      refine ⟨length, typed, below, rfl, ?_⟩
      rintro _ _ ⟨⟩
    | some t =>
      obtain ⟨r, hr, h⟩ := Journal.outcome_bind_eq_ok.1 h
      cases h
      refine ⟨length, typed, below, rfl, ?_⟩
      rintro t' s' ⟨⟩ ⟨⟩
      exact .type hr

private theorem convertBody_step {d : Declaration} {body : Option Shape}
    (h : (convertBody resolver d).outcome = .ok body) :
    ConvertsStep resolver position (.declaration d) (body.getD (.unknown {})) := by
  obtain ⟨origin, segment, enclosing, id, isOptional, comment, typeParameters, type, signatures,
    children⟩ := d
  cases type with
  | some t =>
    rw [convertBody] at h
    obtain ⟨s, ht, h⟩ := Journal.outcome_bind_eq_ok.1 h
    cases h
    exact .ownType rfl ⟨.ownType rfl, .type ht⟩
  | none =>
    rw [convertBody.eq_def] at h
    dsimp only at h
    split at h
    · rename_i first rest hzip
      obtain ⟨s, hs, h⟩ := Journal.outcome_bind_eq_ok.1 h
      cases h
      obtain ⟨shapes, hshapes, hs⟩ := Journal.outcome_bind_eq_ok.1 hs
      cases hs
      have speaks := speaksFor_longest (d := ⟨origin, segment, enclosing, id, isOptional,
        comment, typeParameters, none, signatures, children⟩) rfl hzip.symm
      have longest := (extremes_areExtremes (fun x => x.1.arity) first rest).longest.mem
      rw [← hzip] at longest
      have rule := convertSignatures_ok _ longest shapes hshapes
      exact .function _ speaks ⟨rule.length, rule.typed,
        fun p s hm t ht => ⟨.parameter speaks (List.of_mem_zip hm).1 ht, rule.parameters p s hm t ht⟩,
        rule.returns, fun t s ht hs => ⟨.returnType speaks ht, rule.returnType t s ht hs⟩⟩
    · rename_i hzip
      obtain rfl := eq_nil_of_zip_eq_nil hzip
      split at h
      · rename_i hk
        cases h
        exact .bare rfl rfl hk
      · rename_i form hk
        obtain ⟨properties, hp, h⟩ := Journal.outcome_bind_eq_ok.1 h
        cases h
        obtain ⟨shapes, length, rfl, each⟩ := convertProperties_ok hp
        exact .object rfl rfl hk length fun c s hm =>
          ⟨.child rfl rfl (Option.isSome_iff_exists.2 ⟨form, hk⟩) (List.of_mem_zip hm).1, each c s hm⟩

/-- Every conversion ends by one of the rules. -/
theorem Converts.rule {e : Entry} (h : Converts resolver position e s) :
    ConvertsStep resolver position e s := by
  cases h with
  | type h => exact convertType_step h
  | declaration h => exact convertBody_step h

/-! ## Induction on what is visited -/

/-- How much of a document is inside an entry. -/
noncomputable def Entry.size : Entry → Nat
  | .declaration d => sizeOf d
  | .type _ t => sizeOf t

private theorem Declaration.sizeOf_parts (d : Declaration) :
    sizeOf d.type + sizeOf d.signatures + sizeOf d.children < sizeOf d := by
  obtain ⟨origin, segment, enclosing, id, isOptional, comment, typeParameters, type, signatures,
    children⟩ := d
  simp only [Declaration.mk.sizeOf_spec]
  omega

private theorem Signature.sizeOf_parts (s : Signature) :
    sizeOf s.parameters + sizeOf s.type < sizeOf s := by
  obtain ⟨name, parameters, type, comment⟩ := s
  simp only [Signature.mk.sizeOf_spec]
  omega

private theorem Parameter.sizeOf_type (p : Parameter) : sizeOf p.type < sizeOf p := by
  obtain ⟨name, type, comment, isOptional⟩ := p
  simp only [Parameter.mk.sizeOf_spec]
  omega

/-- What is visited is smaller. -/
theorem Visits.size_lt {e e' : Entry} (h : Visits e e') : e'.size < e.size := by
  have type : ∀ {o : Option TypeNode} {t : TypeNode}, o = some t → sizeOf t < sizeOf o := by
    rintro _ t rfl
    simp
  cases h with
  | @ownType d t ht =>
    have := d.sizeOf_parts
    have := type ht
    simp only [Entry.size]
    omega
  | @parameter d s p t hs hp ht =>
    have := d.sizeOf_parts
    have := List.sizeOf_lt_of_mem hs.2.mem
    have := s.sizeOf_parts
    have := List.sizeOf_lt_of_mem hp
    have := p.sizeOf_type
    have := type ht
    simp only [Entry.size]
    omega
  | @returnType d s t hs ht =>
    have := d.sizeOf_parts
    have := List.sizeOf_lt_of_mem hs.2.mem
    have := s.sizeOf_parts
    have := type ht
    simp only [Entry.size]
    omega
  | @child d c _ _ _ hc =>
    have := d.sizeOf_parts
    have := List.sizeOf_lt_of_mem hc
    simp only [Entry.size]
    omega
  | element | first | inline =>
    simp only [Entry.size, TypeNode.array.sizeOf_spec, TypeNode.tuple.sizeOf_spec,
      TypeNode.inline.sizeOf_spec, List.cons.sizeOf_spec]
    omega
  | operand ht | option ht | argument ht =>
    have := List.sizeOf_lt_of_mem ht
    simp only [Entry.size, TypeNode.intersection.sizeOf_spec, TypeNode.union.sizeOf_spec,
      TypeNode.reference.sizeOf_spec]
    omega

/-- What holds of the shape of an entry if it holds of the shapes of all that is visited for it, holds of
every shape. -/
theorem Converts.induction
    {motive : ∀ position e s, Converts resolver position e s → Prop}
    (step : ∀ position e s (h : Converts resolver position e s), Rule resolver
      (fun position' e' s' => Visits e e' ∧
        ∃ h' : Converts resolver position' e' s', motive position' e' s' h')
      position e s → motive position e s h)
    {position : Position} {e : Entry} {s : Shape} (h : Converts resolver position e s) :
    motive position e s h := by
  induction hn : e.size using Nat.strongRecOn generalizing position e s with
  | ind n ih =>
    subst hn
    exact step position e s h (h.rule.mono fun position' e' s' below =>
      ⟨below.1, below.2, ih e'.size below.1.size_lt below.2 rfl⟩)

end

end DocShape
