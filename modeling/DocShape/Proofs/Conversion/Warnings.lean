import DocShape.Proofs.Conversion.Calls
import DocShape.Proofs.Shape.Unknowns

/-!
Unknown shapes are not silent (`convert_unknowns`): a converted shape has at most as many unknown nodes as
warnings have been given for it. Every unknown node is paid with a warning where it is made, and what is then
made of it never has more unknown nodes than its parts (`Covered`). One step of a conversion keeps this
(`Answers.Paid.once`), and so do all of them.
-/

namespace DocShape

open Link (Resolver)

/-! ## Results that warnings pay for -/

section

variable {α β : Type} {weight : α → Nat} {weight' : β → Nat} {credit : Nat}

/-- The weight of the result is at most the number of warnings, and of what has been paid before. -/
def Covered (weight : α → Nat) (credit : Nat) (x : Conversion α) : Prop :=
  ∀ a, x.outcome = .ok a → weight a ≤ credit + x.warnings.length

theorem covered_pure {a : α} (h : weight a ≤ credit) : Covered weight credit (pure a) := by
  rintro _ ⟨⟩
  exact h

theorem covered_violate (v : Violation) : Covered weight credit (Conversion.violate v) := nofun

/-- What has been made first pays for what is made from it. -/
theorem Covered.bind {x : Conversion α} {f : α → Conversion β} (hx : Covered weight credit x)
    (hf : ∀ a, Covered weight' (weight a) (f a)) : Covered weight' credit (x >>= f) := by
  intro b hb
  obtain ⟨a, ha, hb⟩ := Journal.outcome_bind_eq_ok.1 hb
  have first := hx a ha
  have second := hf a b hb
  simp only [Conversion.warnings] at first second ⊢
  rw [Journal.bind_of_ok ha, List.length_append]
  omega

theorem Covered.weaken {more : Nat} {x : Conversion α} (hx : Covered weight credit x)
    (h : credit ≤ more) : Covered weight more x :=
  fun a ha => Nat.le_trans (hx a ha) (Nat.add_le_add_right h _)

theorem Covered.map {x : Conversion α} {f : α → β} (hx : Covered weight credit x)
    (hf : ∀ a, weight' (f a) ≤ weight a) : Covered weight' credit (f <$> x) := by
  rw [map_eq_pure_bind]
  exact hx.bind fun a => covered_pure (hf a)

/-- What has been paid before stays paid. -/
theorem Covered.add {x : Conversion α} (hx : Covered weight 0 x) (paid : Nat) :
    Covered (fun a => paid + weight a) paid x := by
  intro a ha
  have := hx a ha
  show paid + weight a ≤ paid + x.warnings.length
  omega

theorem Covered.mapM {f : β → Conversion α} {l : List β} (hf : ∀ b ∈ l, Covered weight 0 (f b)) :
    Covered (fun as => (as.map weight).sum) 0 (l.mapM f) := by
  induction l with
  | nil => exact covered_pure (Nat.le_refl 0)
  | cons b rest ih =>
    obtain ⟨first, others⟩ := List.forall_mem_cons.1 hf
    rw [List.mapM_cons]
    exact first.bind fun a => ((ih others).add (weight a)).bind fun as =>
      covered_pure (Nat.le_of_eq List.sum_cons)

end

namespace Shape

/-- The unknown nodes of a shape that may be missing. -/
def unknownCount? (s : Option Shape) : Nat := unknownCounts s.toList

end Shape

open Shape

/-- The unknown nodes of the shapes of a signature. -/
def SignatureShapes.unknownCount (shapes : SignatureShapes) : Nat :=
  unknownCounts shapes.parameters + unknownCount? shapes.returnType

variable {resolver : Resolver}

/-! ## Shapes that are made from others -/

private theorem covered_unknownShape (category : Text) (owner : Declaration) (source : Option Text) :
    Covered Shape.unknownCount 0 (unknownShape category owner source) := by
  rintro _ ⟨⟩
  exact Nat.le_refl 1

private theorem covered_shapeOrUnknown (owner : Declaration) (s : Option Shape) :
    Covered Shape.unknownCount (unknownCount? s) (shapeOrUnknown owner s) := by
  cases s with
  | none => exact covered_unknownShape _ owner none
  | some s => exact covered_pure (by simp [unknownCount?])

@[simp] theorem unknownCount_attach (d : Declaration) (s : Shape) :
    (attach resolver d s).unknownCount = s.unknownCount :=
  unknownCount_withLabel ..

@[simp] theorem unknownCount_withName (name : Option Text) (s : Shape) :
    (s.withName name).unknownCount = s.unknownCount :=
  unknownCount_withLabel ..

private theorem covered_referenceShape (owner : Declaration) (name : Json.Value) (target : Option Site)
    (arguments : List Shape) :
    Covered Shape.unknownCount (unknownCounts arguments)
      (referenceShape resolver owner name target arguments) := by
  unfold referenceShape
  dsimp only
  split
  · split
    · rename_i listener
      refine covered_pure ?_
      have := unknownCount_withoutReturn_le (listener.withName (some "listener"))
      simpa using this
    · exact covered_violate _
  · refine covered_pure ?_
    unfold presentList
    split <;> simp

private theorem unknownCount_objectShape_le (d : Declaration) (form : ObjectForm)
    (properties : List Shape) :
    (objectShape resolver d form properties).unknownCount ≤ unknownCounts properties := by
  unfold objectShape
  dsimp only
  cases hf : (attach resolver d
      (.object {} form (some properties) (presentList d.typeParameters))).fixedArray? with
  | none => simp
  | some t => simpa using unknownCount_fixedArray?_le hf

private theorem unknownCount_functionShape_le (owner : Place) (required : List Text) (s : Signature)
    (shapes : SignatureShapes) :
    (functionShape resolver owner required s shapes).unknownCount ≤ shapes.unknownCount := by
  have parameters : ∀ (ps : List Parameter) (ss : List Shape),
      unknownCounts (ps.zipWith (parameterShape resolver required) ss) ≤ unknownCounts ss := by
    intro ps ss
    induction ps generalizing ss with
    | nil => simp
    | cons p ps ih =>
      cases ss with
      | nil => simp
      | cons s ss =>
        have := ih ss
        simp only [List.zipWith_cons_cons, unknownCounts_cons, parameterShape, unknownCount_withLabel]
        omega
  have returned : unknownCount? (shapes.returnType.bind (returnShape resolver owner s.comment)) ≤
      unknownCount? shapes.returnType := by
    cases shapes.returnType with
    | none => simp
    | some r =>
      rw [Option.bind_some, returnShape]
      split <;> simp [unknownCount?]
  have := parameters s.parameters shapes.parameters
  simp only [functionShape, unknownCount_function, Option.getD_some, SignatureShapes.unknownCount]
  exact Nat.add_le_add this returned

/-! ## Conversions -/

namespace Answers

/-- All answers are paid for. -/
structure Paid (a : Answers) : Prop where
  declaration : ∀ d, Covered Shape.unknownCount 0 (a.declaration d)
  body : ∀ d, Covered unknownCount? 0 (a.body d)
  type : ∀ parent owner t, Covered Shape.unknownCount 0 (a.type parent owner t)

/-- No call is answered. -/
def refusing : Answers where
  declaration d := Conversion.violate (.noSingleListener d.name)
  body d := Conversion.violate (.noSingleListener d.name)
  type _ owner _ := Conversion.violate (.noSingleListener owner.name)

theorem paid_refusing : refusing.Paid :=
  ⟨fun _ => covered_violate _, fun _ => covered_violate _, fun _ _ _ => covered_violate _⟩

variable {a : Answers}

private theorem Paid.signature (h : a.Paid) (owner : Declaration) (s : Signature) :
    Covered SignatureShapes.unknownCount 0 (a.signature owner s) := by
  have parameter : ∀ p ∈ s.parameters, Covered Shape.unknownCount 0 (a.parameter owner p) := by
    intro p _
    unfold Answers.parameter
    split
    · exact covered_violate _
    · exact h.type _ _ _
  refine (Covered.mapM parameter).bind fun shapes => ?_
  split
  · exact covered_pure (Nat.le_refl _)
  · refine ((h.type _ _ _).add _).bind fun r => covered_pure ?_
    simp [SignatureShapes.unknownCount, unknownCount?, unknownCounts]

private theorem Paid.property (h : a.Paid) (d : Declaration) :
    Covered Shape.unknownCount 0 (a.property d) :=
  (h.declaration d).bind fun _ => covered_pure (by simp)

private theorem Paid.types (h : a.Paid) (parent : Option TypeNode) (owner : Declaration)
    (l : List TypeNode) : Covered unknownCounts 0 (l.mapM (a.type parent owner)) :=
  .mapM fun t _ => h.type parent owner t

private theorem Paid.once_body (h : a.Paid) (d : Declaration) :
    Covered unknownCount? 0 ((once resolver a).body d) := by
  dsimp only [once]
  cases d.type with
  | some t => exact (h.type none d t).map fun s => by simp [unknownCount?]
  | none =>
    cases d.signatures with
    | cons first rest =>
      simp only [List.map_cons]
      rw [overloadShape_map]
      refine ((h.signature d _).map fun shapes => unknownCount_functionShape_le ..).map fun s => ?_
      simp [unknownCount?]
    | nil =>
      simp only [List.map_nil]
      split
      · exact covered_pure (Nat.le_refl 0)
      · have properties : Covered unknownCounts 0 (d.children.mapM a.property) :=
          .mapM fun c _ => h.property c
        refine properties.bind fun properties => covered_pure ?_
        simpa [unknownCount?] using unknownCount_objectShape_le d _ properties

private theorem Paid.once_type (h : a.Paid) (parent : Option TypeNode) (owner : Declaration)
    (t : TypeNode) : Covered Shape.unknownCount 0 ((once resolver a).type parent owner t) := by
  cases t with
  | intrinsic | typeParameter => exact covered_pure (Nat.le_refl 0)
  | stringLiteral value =>
    dsimp only [once]
    split
    · exact covered_pure (Nat.le_refl 0)
    · exact h.type _ _ _
  | array element => exact (h.type _ _ _).bind fun s => covered_pure (by simp)
  | tuple elements =>
    cases elements with
    | nil => exact covered_unknownShape _ owner none
    | cons first rest =>
      dsimp only [once]
      split
      · exact (h.type _ _ _).bind fun s => covered_pure (by simp)
      · exact covered_unknownShape _ owner none
  | union options => exact (h.types _ _ _).bind fun shapes => covered_pure (by simp)
  | intersection operands =>
    rcases operands with _ | ⟨x, _ | ⟨y, _ | ⟨z, rest⟩⟩⟩
    · exact covered_unknownShape _ owner none
    · exact covered_unknownShape _ owner none
    · dsimp only [once]
      refine (h.type _ _ _).bind fun x => ((h.type _ _ _).add _).bind fun y => ?_
      split
      · rename_i merged hm
        have := unknownCount_intersect?_le hm
        exact covered_pure (by omega)
      · exact (covered_unknownShape _ owner none).weaken (Nat.zero_le _)
    · exact covered_unknownShape _ owner none
  | reference name arguments qualifiedName target =>
    exact (h.types _ _ _).bind fun shapes => covered_referenceShape owner _ target shapes
  | inline d => exact (h.body d).bind fun s => covered_shapeOrUnknown owner s
  | unmodelled category source => exact covered_unknownShape category owner (some source)

/-- One step of a conversion pays for all that it makes. -/
theorem Paid.once (h : a.Paid) (resolver : Resolver) : (once resolver a).Paid where
  declaration d := (h.type _ _ _).bind fun s => covered_pure (by simp)
  body := h.once_body
  type := h.once_type

theorem Paid.iterate (h : a.Paid) (resolver : Resolver) (n : Nat) :
    ((DocShape.once resolver)^[n] a).Paid := by
  induction n with
  | zero => exact h
  | succ n ih =>
    rw [Function.iterate_succ_apply']
    exact ih.once resolver

end Answers

/-- A conversion pays for all unknown shapes: it is what enough steps come to, without any answers at first. -/
theorem covered_convert (resolver : Resolver) (d : Declaration) :
    Covered Shape.unknownCount 0 (convert resolver d) := by
  have steps : ((once resolver)^[(Call.declaration d).rank + 1] .refusing).declaration d =
      convert resolver d := iterate_once resolver .refusing (c := .declaration d) (Nat.lt_succ_self _)
  rw [← steps]
  exact (Answers.paid_refusing.iterate resolver _).declaration d

/-- The shape of a declaration has at most as many unknown nodes as warnings have been given, and none where
no warning has been given. -/
theorem convert_unknowns (resolver : Resolver) (d : Declaration) {s : Shape}
    (h : (convert resolver d).outcome = .ok s) :
    s.unknownCount ≤ (convert resolver d).warnings.length ∧
      ((convert resolver d).warnings = [] → ∀ n, s.IsNode n → n.tag ≠ ("?" : Text)) := by
  have paid : s.unknownCount ≤ (convert resolver d).warnings.length := by
    have := covered_convert resolver d s h
    omega
  refine ⟨paid, fun silent => unknownCount_eq_zero_iff.1 ?_⟩
  rw [silent] at paid
  exact Nat.le_zero.1 paid

/-- A union of a pair of text and another type, and of a list of such pairs. -/
def pairs (other : Text) : Declaration :=
  let pair : TypeNode := .tuple [.intrinsic "string", .intrinsic other]
  { origin := [], segment := ⟨"pairs", none⟩, enclosing := [], id := none, isOptional := false,
    comment := none, typeParameters := [], signatures := [], children := []
    type := some (.union [pair, .array pair]) }

/-- Pairs of two types are unknown, and give as many warnings; pairs of one type give none. -/
theorem convert_unknowns_pairs :
    (∃ s, (convert .none (pairs "number")).outcome = .ok s ∧ s.unknownCount = 2 ∧
      s.unknownCount ≤ (convert .none (pairs "number")).warnings.length) ∧
    ∃ s, (convert .none (pairs "string")).outcome = .ok s ∧
      (convert .none (pairs "string")).warnings = [] ∧ ∀ n, s.IsNode n → n.tag ≠ ("?" : Text) :=
  ⟨⟨_, rfl, rfl, (convert_unknowns .none (pairs "number") rfl).1⟩,
    _, rfl, rfl, (convert_unknowns .none (pairs "string") rfl).2 rfl⟩

end DocShape
