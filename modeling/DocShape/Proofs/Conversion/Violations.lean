import DocShape.Proofs.Conversion.Visits
import DocShape.Proofs.Shape.Draft

/-!
A conversion fails exactly for the breaches that it reaches (`convert_fails_iff_breach`), by recursion
along the entries that it visits. The shapes that it makes or changes always pass the check of their fields.
-/

namespace DocShape

open Link (Resolver)

private theorem unknownShape_raises (category : Text) (owner : Declaration)
    (source : Option Text) : (unknownShape category owner source).Raises fun _ => False :=
  ⟨by rintro e ⟨⟩, fun _ h => h.elim⟩

private theorem shapeOrUnknown_raises (owner : Declaration) (body : Option Shape) :
    (shapeOrUnknown owner body).Raises fun _ => False := by
  cases body with
  | none => exact unknownShape_raises _ _ _
  | some s => exact Journal.raises_pure

private theorem referenceShape_raises (resolver : Resolver) (owner : Declaration)
    (name : Json.Value) (target : Option Site) (arguments : List Shape) :
    (referenceShape resolver owner name target arguments).Raises fun v =>
      name = .text eventTypeName ∧ arguments.length ≠ 1 ∧ v = .noSingleListener owner.name := by
  unfold referenceShape
  dsimp only
  split
  · rename_i hname
    have hevent : name = .text eventTypeName := Json.Value.isText_iff.1 hname
    split
    · exact Journal.raises_pure.congr fun v => by simp
    · rename_i hl
      refine Journal.raises_fail.congr fun v => ⟨fun hv => ⟨hevent, fun h => ?_, hv⟩, fun h => h.2.2⟩
      obtain ⟨a, ha⟩ := List.length_eq_one_iff.1 h
      exact hl a ha
  · rename_i hname
    have hother : name ≠ .text eventTypeName := fun h => hname (Json.Value.isText_iff.2 h)
    exact Journal.raises_pure.congr fun v => by simp [hother]

private theorem convertTypes_length (resolver : Resolver) (position : Position)
    (owner : Declaration) (l : List TypeNode) :
    (convertTypes resolver position owner l).Ensures fun ss => ss.length = l.length := by
  induction l with
  | nil =>
    rw [convertTypes]
    exact Journal.ensures_pure rfl
  | cons t rest ih =>
    rw [convertTypes]
    refine Journal.Ensures.bind (P := fun _ => True) (fun _ _ => trivial) fun s _ => ?_
    exact ih.bind fun ss hss => Journal.ensures_pure (by simp [hss])

/-- A conversion that does not fail fails for what is due at a type that is not entered, as nothing is. -/
private theorem raises_idle {owner : Declaration} {t : TypeNode} {x : Conversion Shape}
    (ht : t.isLeaf || t.isRefused) (h : x.Raises fun _ => False) : x.Raises (Due (.type owner t)) :=
  h.congr fun _ => (iff_false_intro (not_due ht)).symm

/-- A function fails for what is due at the signature that speaks for it. -/
private theorem overloadShape_raises {resolver : Resolver} {d : Declaration}
    {first : Signature × Conversion SignatureShapes}
    {rest : List (Signature × Conversion SignatureShapes)} (hn : d.type = none)
    (hz : first :: rest = d.signatures.zip (convertSignatures resolver d d.signatures))
    (h : ∀ x ∈ first :: rest, x.2.Raises (DueAtSignature d x.1)) :
    (overloadShape resolver d first rest).Raises (Due (.declaration d)) := by
  have speaks := speaksFor_longest hn hz
  have := h _ (extremes_areExtremes (fun x => x.1.arity) first rest).longest.mem
  exact (this.before fun _ => Journal.raises_pure).congr fun v => (due_signature speaks).symm

mutual

theorem convertType_raises (resolver : Resolver) (position : Position) (owner : Declaration) :
    ∀ t, (convertType resolver position owner t).Raises (Due (.type owner t))
  | .intrinsic name => by
    rw [convertType]
    exact raises_idle rfl Journal.raises_pure
  | .stringLiteral value => by
    rw [convertType]
    exact raises_idle rfl Journal.raises_pure
  | .array element => by
    rw [convertType]
    exact ((convertType_raises resolver .elsewhere owner element).before fun _ =>
      Journal.raises_pure).congr fun v => due_array.symm
  | .tuple [] => by
    rw [convertType]
    exact raises_idle rfl (unknownShape_raises _ _ _)
  | .tuple (first :: rest) => by
    rw [convertType]
    split
    · rename_i same
      exact ((convertType_raises resolver .elsewhere owner first).before fun _ =>
        Journal.raises_pure).congr fun v => (due_tuple (by simpa using same)).symm
    · rename_i mixed
      exact raises_idle (by simpa [TypeNode.isLeaf, TypeNode.isRefused] using mixed)
        (unknownShape_raises _ _ _)
  | .union options => by
    rw [convertType]
    exact ((convertTypes_raises resolver .unionOption owner options).before fun _ =>
      Journal.raises_pure).congr fun v => due_union.symm
  | .intersection [a, b] => by
    rw [convertType]
    refine ((convertType_raises resolver .elsewhere owner a).bind fun sa _ =>
      (convertType_raises resolver .elsewhere owner b).before fun sb => ?_).congr fun v =>
        due_intersection.symm
    split
    · exact Journal.raises_pure
    · exact unknownShape_raises _ _ _
  | .intersection [] => by
    rw [convertType]
    · exact raises_idle rfl (unknownShape_raises _ _ _)
    · simp
  | .intersection [_] => by
    rw [convertType]
    · exact raises_idle rfl (unknownShape_raises _ _ _)
    · simp
  | .intersection (_ :: _ :: _ :: _) => by
    rw [convertType]
    · exact raises_idle rfl (unknownShape_raises _ _ _)
    · simp
  | .typeParameter name => by
    rw [convertType]
    exact raises_idle rfl Journal.raises_pure
  | .reference name arguments qualifiedName target => by
    rw [convertType]
    refine ((convertTypes_raises resolver .elsewhere owner arguments).bind fun ss hss => ?_).congr
      fun v => due_reference.symm
    rw [← convertTypes_length resolver .elsewhere owner arguments ss hss]
    exact referenceShape_raises resolver owner _ target ss
  | .inline declaration => by
    rw [convertType]
    exact ((convertBody_raises resolver declaration).before fun body =>
      shapeOrUnknown_raises owner body).congr fun v => due_inline.symm
  | .unmodelled category source => by
    rw [convertType]
    exact raises_idle rfl (unknownShape_raises _ _ _)
termination_by structural node => node

theorem convertTypes_raises (resolver : Resolver) (position : Position) (owner : Declaration) :
    ∀ l, (convertTypes resolver position owner l).Raises fun v => ∃ t ∈ l, Due (.type owner t) v
  | [] => by
    rw [convertTypes]
    exact Journal.raises_pure.congr fun v => by simp
  | t :: rest => by
    rw [convertTypes]
    refine ((convertType_raises resolver position owner t).bind fun s _ =>
      (convertTypes_raises resolver position owner rest).before fun _ => Journal.raises_pure).congr
        fun v => ?_
    simp
termination_by structural node => node

theorem convertBody_raises (resolver : Resolver) :
    ∀ d, (convertBody resolver d).Raises (Due (.declaration d))
  | ⟨_, _, _, _, _, _, _, some t, _, _⟩ => by
    rw [convertBody]
    exact ((convertType_raises resolver .elsewhere _ t).before fun _ =>
      Journal.raises_pure).congr fun v => (due_ownType rfl).symm
  | ⟨origin, segment, enclosing, id, isOptional, comment, typeParameters, none, signatures,
      children⟩ => by
    rw [convertBody.eq_def]
    dsimp only
    split
    · rename_i first rest hzip
      refine (overloadShape_raises rfl hzip.symm fun x hx => ?_).before fun _ =>
        Journal.raises_pure
      rw [← hzip] at hx
      exact convertSignatures_raises resolver _ signatures x hx
    · rename_i hzip
      obtain rfl := eq_nil_of_zip_eq_nil hzip
      split
      · rename_i hk
        refine Journal.raises_pure.congr fun v => ?_
        rw [due_children rfl rfl]
        simp [Declaration.kind, hk]
      · rename_i form hk
        refine ((convertProperties_raises resolver children).before fun _ =>
          Journal.raises_pure).congr fun v => ?_
        rw [due_children rfl rfl]
        simp [Declaration.kind, hk]
termination_by structural node => node

theorem convertProperties_raises (resolver : Resolver) :
    ∀ l, (convertProperties resolver l).Raises fun v => ∃ d ∈ l, Due (.declaration d) v
  | [] => by
    rw [convertProperties]
    exact Journal.raises_pure.congr fun v => by simp
  | d :: rest => by
    rw [convertProperties]
    refine ((convertBody_raises resolver d).bind fun body _ =>
      (shapeOrUnknown_raises d body).bind fun s _ =>
        (convertProperties_raises resolver rest).before fun _ => Journal.raises_pure).congr
          fun v => ?_
    simp
termination_by structural node => node

theorem convertSignatures_raises (resolver : Resolver) (owner : Declaration) :
    ∀ l : List Signature, ∀ x ∈ l.zip (convertSignatures resolver owner l),
      x.2.Raises (DueAtSignature owner x.1)
  | [] => by simp
  | ⟨_, parameters, none, _⟩ :: rest => by
    rw [convertSignatures, List.zip_cons_cons]
    refine List.forall_mem_cons.2 ⟨?_, convertSignatures_raises resolver owner rest⟩
    exact ((convertParameters_raises resolver owner parameters).before fun _ =>
      Journal.raises_pure).congr fun v => by simp [DueAtSignature]
  | ⟨_, parameters, some t, _⟩ :: rest => by
    rw [convertSignatures, List.zip_cons_cons]
    refine List.forall_mem_cons.2 ⟨?_, convertSignatures_raises resolver owner rest⟩
    exact ((convertParameters_raises resolver owner parameters).bind fun _ _ =>
      (convertType_raises resolver .elsewhere owner t).before fun _ =>
        Journal.raises_pure).congr fun v => by simp [DueAtSignature]
termination_by structural node => node

theorem convertParameters_raises (resolver : Resolver) (owner : Declaration) :
    ∀ l, (convertParameters resolver owner l).Raises (DueAtParameters owner l)
  | [] => by
    rw [convertParameters]
    exact Journal.raises_pure.congr fun v => by simp [DueAtParameters]
  | ⟨name, none, _, _⟩ :: rest => by
    rw [convertParameters]
    refine ⟨?_, fun _ _ => ⟨_, rfl⟩⟩
    rintro v ⟨⟩
    exact ⟨_, List.mem_cons_self .., Or.inl ⟨rfl, rfl⟩⟩
  | ⟨_, some t, _, _⟩ :: rest => by
    rw [convertParameters]
    exact ((convertType_raises resolver .elsewhere owner t).bind fun _ _ =>
      (convertParameters_raises resolver owner rest).before fun _ => Journal.raises_pure).congr
        fun v => by simp [DueAtParameters]
termination_by structural node => node

end

private theorem convert_raises (resolver : Resolver) (d : Declaration) :
    (convert resolver d).Raises (Due (.declaration d)) :=
  (convertBody_raises resolver d).before fun body =>
    (shapeOrUnknown_raises d body).before fun _ => Journal.raises_pure

/-- A conversion fails if and only if a breach is reached, and then with one that is; and neither a
shape as it is made, nor one with a new label or without its return type, has a misplaced field. -/
theorem convert_fails_iff_breach (resolver : Resolver) (d : Declaration) :
    ((∃ v, (convert resolver d).outcome = .error v) ↔
      ∃ n v, Relation.ReflTransGen Visits (.declaration d) n ∧ Breaches n v) ∧
    (∀ v, (convert resolver d).outcome = .error v →
      ∃ n, Relation.ReflTransGen Visits (.declaration d) n ∧ Breaches n v) ∧
    ∀ (s : Shape) (l : Label), s.draft.check = .ok s ∧
      { s.draft with label := l }.check = .ok (s.withLabel l) ∧
      { s.draft with label := l, returnType := none }.check = .ok (s.withLabel l).withoutReturn := by
  have raises := convert_raises resolver d
  refine ⟨⟨?_, ?_⟩, raises.sound, fun s l => ?_⟩
  · rintro ⟨v, hv⟩
    obtain ⟨n, hr, hb⟩ := raises.sound v hv
    exact ⟨n, v, hr, hb⟩
  · rintro ⟨n, v, hr, hb⟩
    exact raises.complete v ⟨n, hr, hb⟩
  · exact ⟨s.check_draft, s.check_relabelled l, s.check_withoutReturn l⟩

end DocShape
