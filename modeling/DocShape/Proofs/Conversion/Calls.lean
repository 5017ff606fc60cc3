import DocShape.Proofs.Conversion.Rules
import Mathlib.Logic.Function.Iterate

/-!
A conversion as a recursion. `once` is one step of it, in which the calls that the step makes are answered by
someone else, and `Makes` says which calls these are: an answer depends on no others (`once_congr`). The answers
of a conversion solve these equations (`once_ofConversion`). As every call makes calls of smaller rank only
(`Makes.rank_lt`), they are what enough steps come to, whatever the answers are at the beginning
(`iterate_once`).
-/

namespace DocShape

open Link (Resolver)

/-! ## Calls -/

/-- Where a type node stands that has a given parent. -/
def positionIn : Option TypeNode → Position
  | some (.union _) => .unionOption
  | _ => .elsewhere

namespace TypeNode

/-- The parent that a type node is to the types in it: intersections and references pass none on. -/
def asParent : TypeNode → Option TypeNode
  | .array element => some (.array element)
  | .tuple elements => some (.tuple elements)
  | .union options => some (.union options)
  | _ => none

/-- A string literal as the only option of a union. -/
def loneLiteral (value : Text) : TypeNode := .union [.stringLiteral value]

end TypeNode

/-- A call: on a declaration, on a declaration without its own label, or on a type node with its parent. -/
inductive Call
  | declaration (d : Declaration)
  | body (d : Declaration)
  | type (parent : Option TypeNode) (owner : Declaration) (t : TypeNode)

namespace Call

/-- The call on a part of a declaration. -/
def ofMember : Entry → Call
  | .declaration d => .declaration d
  | .type owner t => .type none owner t

/-- The call on a part of a type node. -/
def inside (node : TypeNode) : Entry → Call
  | .declaration d => .body d
  | .type owner t => .type node.asParent owner t

end Call

/-- The calls that a call makes itself. -/
inductive Makes : Call → Call → Prop
  /-- A declaration without a type is converted as one in place. -/
  | source {d : Declaration} : Makes (.declaration d) (.type none d (d.type.getD (.inline d)))
  | member {d : Declaration} {e : Entry} : Visits (.declaration d) e → Makes (.body d) (.ofMember e)
  | inside {parent : Option TypeNode} {owner : Declaration} {t : TypeNode} {e : Entry} :
    Visits (.type owner t) e → Makes (.type parent owner t) (.inside t e)
  /-- A literal that is no option is converted again, as a union. -/
  | literal {parent : Option TypeNode} {owner : Declaration} {value : Text} :
    positionIn parent = .elsewhere →
    Makes (.type parent owner (.stringLiteral value)) (.type parent owner (.loneLiteral value))

/-! ## Answers to calls -/

/-- What is answered to calls. -/
@[ext]
structure Answers where
  declaration : Declaration → Conversion Shape
  body : Declaration → Conversion (Option Shape)
  type : Option TypeNode → Declaration → TypeNode → Conversion Shape

namespace Answers

/-- Two kinds of answers are the same at a call. -/
def AgreeAt (a a' : Answers) : Call → Prop
  | .declaration d => a.declaration d = a'.declaration d
  | .body d => a.body d = a'.body d
  | .type parent owner t => a.type parent owner t = a'.type parent owner t

def parameter (a : Answers) (owner : Declaration) (p : Parameter) : Conversion Shape :=
  match p.type with
  | none => Conversion.violate (.untypedParameter p.name owner.name)
  | some t => a.type none owner t

def signature (a : Answers) (owner : Declaration) (s : Signature) : Conversion SignatureShapes := do
  let parameters ← s.parameters.mapM (a.parameter owner)
  match s.type with
  | none => return ⟨parameters, none⟩
  | some t =>
    let shape ← a.type none owner t
    return ⟨parameters, some shape⟩

def property (a : Answers) (d : Declaration) : Conversion Shape := do
  let shape ← a.declaration d
  return shape.withName (some d.name)

end Answers

/-- One step of a conversion. The calls that it makes are answered by `a`. -/
def once (resolver : Resolver) (a : Answers) : Answers where
  declaration d := do
    let shape ← a.type none d (d.type.getD (.inline d))
    return attach resolver d shape
  body d :=
    match d.type with
    | some t => some <$> a.type none d t
    | none =>
      match d.signatures.map fun s => (s, a.signature d s) with
      | first :: rest => some <$> overloadShape resolver d first rest
      | [] =>
        match ObjectForm.ofKind? d.kind with
        | none => return none
        | some form => do
          let properties ← d.children.mapM a.property
          return some (objectShape resolver d form properties)
  type parent owner t :=
    match t with
    | .intrinsic name => return .primitive {} (some name) none
    | .stringLiteral value =>
      match positionIn parent with
      | .unionOption => return literalShape .unionOption value
      | .elsewhere => a.type parent owner (.loneLiteral value)
    | .array element => do
      let shape ← a.type t.asParent owner element
      return .array {} (some shape) none none
    | .tuple [] => unknownShape "tuple" owner
    | .tuple (first :: rest) =>
      if rest.all fun t => t.sameAs first then do
        let shape ← a.type t.asParent owner first
        let length : Int := rest.length + 1
        return .array {} (some shape) (some length) (some length)
      else unknownShape "tuple" owner
    | .union options => do
      let shapes ← options.mapM (a.type t.asParent owner)
      return .union {} (some shapes) (some (shapes.all (·.isPrimitive)))
    | .intersection [x, y] => do
      let x ← a.type none owner x
      let y ← a.type none owner y
      match x.intersect? y with
      | some shape => return shape
      | none => unknownShape "intersection" owner
    | .intersection _ => unknownShape "intersection" owner
    | .typeParameter name => return .reference {} (some (.text name)) none none
    | .reference name arguments qualifiedName target => do
      let shapes ← arguments.mapM (a.type none owner)
      referenceShape resolver owner (TypeNode.referencedName name qualifiedName target) target shapes
    | .inline d => do
      let body ← a.body d
      shapeOrUnknown owner body
    | .unmodelled category source => unknownShape category owner (some source)

/-- The answers that a conversion gives. -/
def Answers.ofConversion (resolver : Resolver) : Answers where
  declaration := convert resolver
  body := convertBody resolver
  type parent owner t := convertType resolver (positionIn parent) owner t

variable {resolver : Resolver} {a a' : Answers}

/-! ## The equations of a conversion -/

/-- The shapes of the chosen signature are all that is asked for. -/
theorem overloadShape_map (owner : Declaration) (shapes : Signature → Conversion SignatureShapes)
    (first : Signature) (rest : List Signature) :
    overloadShape resolver owner (first, shapes first) (rest.map fun s => (s, shapes s)) =
      functionShape resolver owner.place
          ((extremes Signature.arity first rest).shortest.parameters.map (·.name))
          (extremes Signature.arity first rest).longest <$>
        shapes (extremes Signature.arity first rest).longest := by
  rw [overloadShape, extremes_map (g := fun s => (s, shapes s)) Signature.arity fun _ => rfl,
    map_eq_pure_bind]
  rfl

private theorem convertSignatures_eq_map (owner : Declaration) (l : List Signature) :
    convertSignatures resolver owner l =
      l.map ((Answers.ofConversion resolver).signature owner) := by
  induction l with
  | nil => rfl
  | cons s rest ih =>
    obtain ⟨name, parameters, type, comment⟩ := s
    rw [convertSignatures, convertParameters_eq_mapM, ih, List.map_cons]
    cases type <;> rfl

theorem convertProperties_eq_mapM (l : List Declaration) :
    convertProperties resolver l = l.mapM (Answers.ofConversion resolver).property := by
  induction l with
  | nil => rfl
  | cons d rest ih =>
    rw [convertProperties, ih, List.mapM_cons, Answers.property, Answers.ofConversion]
    simp only [convert, bind_assoc, pure_bind]

private theorem body_ofConversion (d : Declaration) :
    (once resolver (.ofConversion resolver)).body d = convertBody resolver d := by
  obtain ⟨origin, segment, enclosing, id, isOptional, comment, typeParameters, type, signatures,
    children⟩ := d
  rw [convertBody.eq_def]
  dsimp only [once]
  cases type with
  | some t => exact map_eq_pure_bind _ _
  | none =>
    dsimp only
    rw [convertSignatures_eq_map, List.map_prod_left_eq_zip, convertProperties_eq_mapM]
    generalize signatures.zip _ = overloads
    cases overloads with
    | cons first rest => exact map_eq_pure_bind _ _
    | nil => rfl

private theorem type_ofConversion (parent : Option TypeNode) (owner : Declaration) (t : TypeNode) :
    (once resolver (.ofConversion resolver)).type parent owner t =
      convertType resolver (positionIn parent) owner t := by
  cases t with
  | intrinsic | typeParameter | array | inline | unmodelled => rfl
  | stringLiteral value =>
    dsimp only [once]
    rw [convertType]
    split
    · rename_i option
      rw [option]
    · rename_i elsewhere
      rw [elsewhere]
      rfl
  | tuple elements => cases elements <;> rfl
  | union options =>
    rw [convertType, convertTypes_eq_mapM]
    rfl
  | intersection operands =>
    rcases operands with _ | ⟨x, _ | ⟨y, _ | ⟨z, rest⟩⟩⟩
    all_goals rfl
  | reference name arguments qualifiedName target =>
    rw [convertType, convertTypes_eq_mapM]
    rfl

private theorem declaration_ofConversion (d : Declaration) :
    (once resolver (.ofConversion resolver)).declaration d = convert resolver d := by
  rw [convert]
  dsimp only [once]
  cases ht : d.type with
  | some t =>
    have body : convertBody resolver d = some <$> convertType resolver .elsewhere d t := by
      rw [← body_ofConversion]
      dsimp only [once]
      rw [ht]
      rfl
    rw [body, bind_map_left]
    rfl
  | none =>
    -- Converted in place, the declaration is unknown where it has no body.
    exact bind_assoc ..

/-- A conversion is a solution of its own equations. -/
theorem once_ofConversion (resolver : Resolver) :
    once resolver (.ofConversion resolver) = .ofConversion resolver :=
  Answers.ext (funext declaration_ofConversion) (funext body_ofConversion)
    (funext fun parent => funext fun owner => funext (type_ofConversion parent owner))

/-! ## What the equations depend on -/

private theorem mapM_congr {m : Type → Type} [Monad m] [LawfulMonad m] {α β : Type} {f g : α → m β}
    {l : List α} (h : ∀ x ∈ l, f x = g x) : l.mapM f = l.mapM g := by
  induction l with
  | nil => rfl
  | cons x rest ih =>
    obtain ⟨head, tail⟩ := List.forall_mem_cons.1 h
    rw [List.mapM_cons, List.mapM_cons, head, ih tail]

/-- The types in the signature that speaks for a declaration are called. -/
private theorem signature_congr {d : Declaration} {s : Signature} (hs : SpeaksFor s d)
    (h : ∀ t, Visits (.declaration d) (.type d t) → a.type none d t = a'.type none d t) :
    a.signature d s = a'.signature d s := by
  have parameters : s.parameters.mapM (a.parameter d) = s.parameters.mapM (a'.parameter d) := by
    refine mapM_congr fun p hp => ?_
    unfold Answers.parameter
    split
    · rfl
    · rename_i t ht
      exact h t (.parameter hs hp ht)
  unfold Answers.signature
  rw [parameters]
  split
  · rfl
  · rename_i t ht
    rw [h t (.returnType hs ht)]

private theorem body_congr {d : Declaration} (h : ∀ c, Makes (.body d) c → a.AgreeAt a' c) :
    (once resolver a).body d = (once resolver a').body d := by
  have type : ∀ t, Visits (.declaration d) (.type d t) → a.type none d t = a'.type none d t :=
    fun t ht => h _ (.member ht)
  dsimp only [once]
  cases ht : d.type with
  | some t =>
    dsimp only
    rw [type t (.ownType ht)]
  | none =>
    cases hs : d.signatures with
    | cons first rest =>
      -- Of all signatures, the types of the one that speaks for them are asked for.
      have speaks : SpeaksFor (extremes Signature.arity first rest).longest d :=
        ⟨ht, hs ▸ (extremes_areExtremes _ _ _).longest⟩
      simp only [List.map_cons]
      rw [overloadShape_map, overloadShape_map, signature_congr speaks type]
    | nil =>
      simp only [List.map_nil]
      cases hk : ObjectForm.ofKind? d.kind with
      | none => rfl
      | some form =>
        have property : ∀ c ∈ d.children, a.property c = a'.property c := by
          intro c hc
          have child : a.declaration c = a'.declaration c :=
            h _ (.member (.child ht hs (hk ▸ rfl) hc))
          rw [Answers.property, Answers.property, child]
        dsimp only
        rw [mapM_congr property]

private theorem type_congr {parent : Option TypeNode} {owner : Declaration} {t : TypeNode}
    (h : ∀ c, Makes (.type parent owner t) c → a.AgreeAt a' c) :
    (once resolver a).type parent owner t = (once resolver a').type parent owner t := by
  have type : ∀ t', Visits (.type owner t) (.type owner t') →
      a.type t.asParent owner t' = a'.type t.asParent owner t' := fun t' ht => h _ (.inside ht)
  cases t with
  | intrinsic | typeParameter | unmodelled => rfl
  | stringLiteral value =>
    cases hp : positionIn parent with
    | unionOption =>
      dsimp only [once]
      rw [hp]
    | elsewhere =>
      have again : a.type parent owner (.loneLiteral value) = a'.type parent owner (.loneLiteral value) :=
        h _ (.literal hp)
      dsimp only [once]
      rw [hp]
      exact again
  | array element =>
    dsimp only [once]
    rw [type element .element]
  | tuple elements =>
    cases elements with
    | nil => rfl
    | cons first rest =>
      dsimp only [once]
      split
      · rename_i all
        have same : ∀ t' ∈ rest, t'.sameAs first := by simpa using all
        rw [type first (.first same)]
      · rfl
  | union options =>
    dsimp only [once]
    rw [mapM_congr fun t' ht => type t' (.option ht)]
  | intersection operands =>
    rcases operands with _ | ⟨x, _ | ⟨y, _ | ⟨z, rest⟩⟩⟩
    · rfl
    · rfl
    · have operand : ∀ t' ∈ [x, y], a.type none owner t' = a'.type none owner t' :=
        fun t' ht => type t' (.operand ht)
      dsimp only [once]
      rw [operand x (by simp), operand y (by simp)]
    · rfl
  | reference name arguments qualifiedName target =>
    have argument : ∀ t' ∈ arguments, a.type none owner t' = a'.type none owner t' :=
      fun t' ht => type t' (.argument ht)
    dsimp only [once]
    rw [mapM_congr argument]
  | inline d =>
    have body : a.body d = a'.body d := h _ (.inside .inline)
    dsimp only [once]
    rw [body]

/-- An answer depends only on the answers to the calls that are made for it. -/
theorem once_congr {c : Call} (h : ∀ c', Makes c c' → a.AgreeAt a' c') :
    (once resolver a).AgreeAt (once resolver a') c := by
  cases c with
  | declaration d =>
    have source : a.type none d (d.type.getD (.inline d)) = a'.type none d (d.type.getD (.inline d)) :=
      h _ .source
    show (once resolver a).declaration d = (once resolver a').declaration d
    dsimp only [once]
    rw [source]
  | body d => exact body_congr h
  | type parent owner t => exact type_congr h

/-! ## Ranks -/

/-- Three stages for each part of a document: a declaration is converted as one in place and then by its body,
a literal as a union and then as an option. -/
noncomputable def TypeNode.rank (position : Position) : TypeNode → Nat
  | .inline d => 3 * sizeOf d + 1
  | .union [.stringLiteral value] => 3 * sizeOf (TypeNode.stringLiteral value) + 1
  | .stringLiteral value =>
    match position with
    | .unionOption => 3 * sizeOf (TypeNode.stringLiteral value)
    | .elsewhere => 3 * sizeOf (TypeNode.stringLiteral value) + 2
  | t => 3 * sizeOf t

theorem TypeNode.rank_le (position : Position) (t : TypeNode) : t.rank position ≤ 3 * sizeOf t + 2 := by
  unfold rank
  split
  · simp only [TypeNode.inline.sizeOf_spec]
    omega
  · simp only [TypeNode.union.sizeOf_spec, List.cons.sizeOf_spec]
    omega
  · split <;> omega
  · omega

namespace Call

noncomputable def rank : Call → Nat
  | declaration d => 3 * sizeOf d + 2
  | body d => 3 * sizeOf d
  | type parent _ t => t.rank (positionIn parent)

/-- The call on a part of a declaration is of smaller rank. -/
theorem rank_ofMember_lt {d : Declaration} {e : Entry} (h : e.size < sizeOf d) :
    (ofMember e).rank < (body d).rank := by
  cases e with
  | declaration c =>
    have : sizeOf c < sizeOf d := h
    simp only [ofMember, rank]
    omega
  | type owner t =>
    have := t.rank_le .elsewhere
    have : sizeOf t < sizeOf d := h
    simp only [ofMember, rank, positionIn]
    omega

theorem rank_inside_lt (parent : Option TypeNode) {owner : Declaration} {t : TypeNode} {e : Entry}
    (h : Visits (.type owner t) e) : (inside t e).rank < (type parent owner t).rank := by
  have smaller := h.size_lt
  have parts : ∀ owner' t', e = .type owner' t' → t.rank (positionIn parent) = 3 * sizeOf t →
      (inside t e).rank < (type parent owner t).rank := by
    rintro owner' t' rfl whole
    have := t'.rank_le (positionIn t.asParent)
    simp only [Entry.size] at smaller
    simp only [inside, rank, whole]
    omega
  cases h with
  | element | first | operand | argument => exact parts _ _ rfl rfl
  | inline => exact Nat.lt_succ_self _
  | @option _ t options ht =>
    by_cases lone : ∃ value, options = [.stringLiteral value]
    · obtain ⟨value, rfl⟩ := lone
      obtain rfl := List.mem_singleton.1 ht
      exact Nat.lt_succ_self _
    · refine parts _ _ rfl ?_
      unfold TypeNode.rank
      split
      · rename_i h
        cases h
      · rename_i value h
        cases h
        exact absurd ⟨value, rfl⟩ lone
      · rename_i h
        cases h
      · rfl

end Call

/-- Calls that are made are of smaller rank. -/
theorem Makes.rank_lt {c c' : Call} (h : Makes c c') : c'.rank < c.rank := by
  cases h with
  | @source d =>
    cases ht : d.type with
    | none => exact Nat.lt_succ_self _
    | some t =>
      have smaller : sizeOf t < sizeOf d := (Visits.ownType ht).size_lt
      have := t.rank_le .elsewhere
      simp only [Option.getD_some, Call.rank, positionIn]
      omega
  | member h => exact Call.rank_ofMember_lt h.size_lt
  | inside h => exact Call.rank_inside_lt _ h
  | literal hp =>
    simp only [Call.rank, TypeNode.loneLiteral, TypeNode.rank, hp]
    omega

theorem makes_wellFounded : WellFounded fun c' c => Makes c c' :=
  Subrelation.wf Makes.rank_lt (measure Call.rank).wf

/-- After as many steps as a call has rank, the answers at the beginning do not matter any more. -/
theorem iterate_once (resolver : Resolver) (a : Answers) {c : Call} {n : Nat} (h : c.rank < n) :
    ((once resolver)^[n] a).AgreeAt (.ofConversion resolver) c := by
  induction n generalizing c with
  | zero => exact absurd h (Nat.not_lt_zero _)
  | succ n ih =>
    rw [Function.iterate_succ_apply', ← once_ofConversion]
    exact once_congr fun c' made => ih (Nat.lt_of_lt_of_le made.rank_lt (Nat.le_of_lt_succ h))

end DocShape
