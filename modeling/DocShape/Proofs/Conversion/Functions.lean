import DocShape.Proofs.Conversion.Calls
import DocShape.Proofs.Conversion.Contexts

/-!
Functions with overloads. Of their signatures, only the first longest and the first shortest count: the
longest gives the parameters, the return type and the comment, and the shortest says which parameters are
required (`convertBody_overloads`).
-/

namespace DocShape

open Link (Resolver)

variable {resolver : Resolver} {owner owner' d : Declaration}

/-! ## Owners -/

private theorem name_eq_of_place (same : owner.place = owner'.place) : owner.name = owner'.name := by
  obtain ⟨segment, -⟩ := List.cons.inj same
  exact congrArg Segment.name segment

/-- Of the declaration that it belongs to, the place is all that a type depends on. -/
theorem convertType_congr (same : owner.place = owner'.place) (position : Position) (t : TypeNode) :
    convertType resolver position owner t = convertType resolver position owner' t := by
  have page : resolver.pageOf owner.place = resolver.pageOf owner'.place := congrArg _ same
  have told := convertType_retold page position t
  rw [name_eq_of_place same] at told
  exact told.eq.symm

private theorem signature_congr_owner (same : owner.place = owner'.place) (s : Signature) :
    (Answers.ofConversion resolver).signature owner s =
      (Answers.ofConversion resolver).signature owner' s := by
  have type : ∀ t, (Answers.ofConversion resolver).type none owner t =
      (Answers.ofConversion resolver).type none owner' t := convertType_congr same .elsewhere
  have parameter : (Answers.ofConversion resolver).parameter owner =
      (Answers.ofConversion resolver).parameter owner' := by
    funext p
    rw [Answers.parameter, Answers.parameter, name_eq_of_place same]
    simp only [type]
  rw [Answers.signature, Answers.signature, parameter]
  simp only [type]

/-! ## The signatures that count -/

theorem convertBody_of_extremes {longest shortest : Signature} (hn : d.type = none)
    (hl : IsFirstLongest Signature.arity d.signatures longest)
    (hs : IsFirstShortest Signature.arity d.signatures shortest) :
    convertBody resolver d =
      (fun shapes => some (functionShape resolver d.place (shortest.parameters.map (·.name)) longest
        shapes)) <$> (Answers.ofConversion resolver).signature d longest := by
  have body : convertBody resolver d = (once resolver (.ofConversion resolver)).body d := by
    rw [once_ofConversion]
    rfl
  rw [body]
  dsimp only [once]
  cases he : d.signatures with
  | nil => exact absurd (he ▸ hl.mem) List.not_mem_nil
  | cons first rest =>
    rw [he] at hl hs
    have found := extremes_areExtremes Signature.arity first rest
    rw [hn]
    simp only [List.map_cons]
    rw [overloadShape_map, found.longest.unique hl, found.shortest.unique hs, ← comp_map]
    rfl

/-- Functions in one place are converted alike if they have the same extremes. -/
theorem convertBody_eq_of_extremes {d' : Declaration} {longest shortest : Signature}
    (same : d.place = d'.place) (hn : d.type = none) (hn' : d'.type = none)
    (hl : IsFirstLongest Signature.arity d.signatures longest)
    (hs : IsFirstShortest Signature.arity d.signatures shortest)
    (hl' : IsFirstLongest Signature.arity d'.signatures longest)
    (hs' : IsFirstShortest Signature.arity d'.signatures shortest) :
    convertBody resolver d = convertBody resolver d' := by
  rw [convertBody_of_extremes hn hl hs, convertBody_of_extremes hn' hl' hs', signature_congr_owner same,
    same]

/-! ## What becomes of them -/

/-- A parameter of the longest signature becomes the shape of its type, under its own name. It is optional
if that shape is, if it says so itself, or if the shortest signature does not name it. -/
inductive Presents (resolver : Resolver) (owner : Declaration) (shortest : Signature) (p : Parameter) :
    Shape → Prop
  | intro {t : TypeNode} {shape : Shape} {label : Label} : p.type = some t →
    (convertType resolver .elsewhere owner t).outcome = .ok shape → label.name = some p.name →
    label.comment = (Link.commentText resolver none p.comment).or shape.label.comment →
    (label.optional ↔
      shape.label.optional ∨ p.isOptional ∨ p.name ∉ shortest.parameters.map (·.name)) →
    Presents resolver owner shortest p (shape.withLabel label)

/-- What a signature returns is the shape of its own return type, with its own comment. -/
inductive Returns (resolver : Resolver) (owner : Declaration) (s : Signature) : Option Shape → Prop
  | none : s.type = none → Returns resolver owner s none
  | some {t : TypeNode} {shape : Shape} : s.type = some t →
    (convertType resolver .elsewhere owner t).outcome = .ok shape →
    Returns resolver owner s (returnShape resolver owner.place s.comment shape)

private theorem presents_of_parameter {shortest : Signature} {p : Parameter} {shape : Shape}
    (h : ((Answers.ofConversion resolver).parameter d p).outcome = .ok shape) :
    Presents resolver d shortest p
      (parameterShape resolver (shortest.parameters.map (·.name)) p shape) := by
  unfold Answers.parameter at h
  split at h
  · cases h
  · rename_i t ht
    refine .intro ht h rfl rfl ?_
    simp [or_assoc]

private theorem presents_of_parameters {shortest : Signature} {l : List Parameter} {shapes : List Shape}
    (h : (l.mapM ((Answers.ofConversion resolver).parameter d)).outcome = .ok shapes) :
    List.Forall₂ (Presents resolver d shortest) l
      (l.zipWith (parameterShape resolver (shortest.parameters.map (·.name))) shapes) := by
  rw [Journal.outcome_mapM_eq_ok] at h
  induction l generalizing shapes with
  | nil => exact .nil
  | cons p l ih =>
    cases shapes with
    | nil => cases h
    | cons shape shapes =>
      obtain ⟨here, below⟩ := List.cons.inj h
      exact .cons (presents_of_parameter here) (ih below)

private theorem function_of_signature {longest shortest : Signature} {shapes : SignatureShapes}
    (h : ((Answers.ofConversion resolver).signature d longest).outcome = .ok shapes) :
    ∃ parameters returnType,
      functionShape resolver d.place (shortest.parameters.map (·.name)) longest shapes =
        .function { comment := Link.commentText resolver (some d.place) longest.comment }
          (some parameters) returnType ∧
      List.Forall₂ (Presents resolver d shortest) longest.parameters parameters ∧
      Returns resolver d longest returnType := by
  obtain ⟨parameters, hp, h⟩ := Journal.outcome_bind_eq_ok.1 h
  cases ht : longest.type with
  | none =>
    rw [ht] at h
    cases h
    exact ⟨_, _, rfl, presents_of_parameters hp, .none ht⟩
  | some t =>
    rw [ht] at h
    obtain ⟨shape, hshape, h⟩ := Journal.outcome_bind_eq_ok.1 h
    cases h
    exact ⟨_, _, rfl, presents_of_parameters hp, .some ht hshape⟩

/-- Of all signatures of a function, the first longest and the first shortest count. The longest gives the
comment, the parameters in its order and the return type; the shortest says which parameters are required.
Other signatures with the same first longest and first shortest give the same conversion. -/
theorem convertBody_overloads (resolver : Resolver) {d : Declaration} (hn : d.type = none)
    (hs : d.signatures ≠ []) :
    ∃ longest shortest, IsFirstLongest Signature.arity d.signatures longest ∧
      IsFirstShortest Signature.arity d.signatures shortest ∧
      (∀ body, (convertBody resolver d).outcome = .ok body → ∃ parameters returnType,
        body = some (.function
          { comment := Link.commentText resolver (some d.place) longest.comment } (some parameters)
          returnType) ∧
        List.Forall₂ (Presents resolver d shortest) longest.parameters parameters ∧
        Returns resolver d longest returnType) ∧
      ∀ signatures, IsFirstLongest Signature.arity signatures longest →
        IsFirstShortest Signature.arity signatures shortest →
        convertBody resolver { d with signatures } = convertBody resolver d := by
  obtain ⟨first, rest, he⟩ := List.exists_cons_of_ne_nil hs
  obtain ⟨hl, hs⟩ := he ▸ extremes_areExtremes Signature.arity first rest
  refine ⟨_, _, hl, hs, fun body h => ?_, fun signatures hl' hs' => ?_⟩
  · rw [convertBody_of_extremes hn hl hs, map_eq_pure_bind] at h
    obtain ⟨shapes, hshapes, h⟩ := Journal.outcome_bind_eq_ok.1 h
    cases h
    obtain ⟨parameters, returnType, shape, rest⟩ := function_of_signature hshapes
    exact ⟨parameters, returnType, congrArg some shape, rest⟩
  · exact convertBody_eq_of_extremes rfl hn hn hl' hs' hl hs

/-- A signature with some of the parameters `a` and `b`. -/
def taking (names : List Text) : Signature :=
  ⟨"load", names.map fun name => ⟨name, some (.intrinsic "string"), none, false⟩, none, none⟩

/-- A function with overloads. -/
def load (signatures : List Signature) : Declaration :=
  { origin := [], segment := ⟨"load", some .function⟩, enclosing := [], id := none
    isOptional := false, comment := none, typeParameters := [], type := none, signatures
    children := [] }

theorem convertBody_overloads_load :
    let d := load [taking ["a"], taking ["a", "b"], taking ["b"]]
    let reordered := load [taking ["a", "b"], taking ["a"], taking ["b", "a"]]
    d.type = none ∧ d.signatures ≠ [] ∧ convertBody .none reordered = convertBody .none d ∧
      (convertBody .none reordered).outcome = .ok (some (.function {}
        (some [.primitive { name := some "a" } (some "string") none,
          .primitive { name := some "b", optional := true } (some "string") none]) none)) := by
  intro d reordered
  have nonempty : d.signatures ≠ [] := List.cons_ne_nil _ _
  obtain ⟨longest, shortest, hl, hs, -, same⟩ := convertBody_overloads .none rfl nonempty
  have long : longest = taking ["a", "b"] :=
    hl.unique ⟨[taking ["a"]], [taking ["b"]], rfl, by decide, by decide⟩
  have short : shortest = taking ["a"] :=
    hs.unique ⟨[], [taking ["a", "b"], taking ["b"]], rfl, by decide, by decide⟩
  have alike : convertBody .none reordered = convertBody .none d := by
    refine same [taking ["a", "b"], taking ["a"], taking ["b", "a"]] ?_ ?_
    · rw [long]
      exact ⟨[], [taking ["a"], taking ["b", "a"]], rfl, by decide, by decide⟩
    · rw [short]
      exact ⟨[taking ["a", "b"]], [taking ["b", "a"]], rfl, by decide, by decide⟩
  refine ⟨rfl, nonempty, alike, ?_⟩
  rw [alike]
  rfl

end DocShape
