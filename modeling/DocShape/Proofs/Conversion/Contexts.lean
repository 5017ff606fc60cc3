import DocShape.Proofs.Alike
import DocShape.Proofs.Conversion.Rules

/-!
What a type takes from its context. Of the declaration that it belongs to, the conversion of a type reads the
page, and it names it in messages; of the node that it stands in, only a literal reads whether it is a union.
So a type is converted alike in all contexts that agree there (`convertType_context`).
-/

namespace DocShape

open Link (Resolver)

/-- Two outcomes end in the same way. As `Alike`, but errors only have to be related. -/
inductive EndsAlike {ε ε' α α' : Type} (E : ε → ε' → Prop) (R : α → α' → Prop) :
    Except ε α → Except ε' α' → Prop
  | ok {a : α} {a' : α'} : R a a' → EndsAlike E R (.ok a) (.ok a')
  | error {e : ε} {e' : ε'} : E e e' → EndsAlike E R (.error e) (.error e')

section

variable {ε ε' α α' β : Type} {E : ε → ε' → Prop} {R : α → α' → Prop} {x : Except ε α} {x' : Except ε' α'}

theorem EndsAlike.exists_ok {a : α} (h : EndsAlike E R (.ok a) x') : ∃ a', x' = .ok a' ∧ R a a' := by
  cases h with
  | ok ha => exact ⟨_, rfl, ha⟩

theorem EndsAlike.exists_error {e : ε} (h : EndsAlike E R (.error e) x') :
    ∃ e', x' = .error e' ∧ E e e' := by
  cases h with
  | error he => exact ⟨_, rfl, he⟩

theorem EndsAlike.map_right {S : α → β → Prop} {f : α' → β} (h : EndsAlike E R x x')
    (hf : ∀ a a', R a a' → S a (f a')) : EndsAlike E S x (x'.map f) := by
  cases h with
  | ok ha => exact .ok (hf _ _ ha)
  | error he => exact .error he

end

/-! ## Messages about another owner -/

/-- The same warning, but for the name of the declaration that it may be about. -/
inductive Warning.Retold (name name' : Text) : Warning → Warning → Prop
  | same (w : Warning) : Retold name name' w w
  | owner (category : Text) (source : Option Text) :
    Retold name name' ⟨category, name, source⟩ ⟨category, name', source⟩

/-- The same violation, but for the name of the declaration that it may be about. -/
inductive Violation.Retold (name name' : Text) : Violation → Violation → Prop
  | same (v : Violation) : Retold name name' v v
  | owner : Retold name name' (.noSingleListener name) (.noSingleListener name')

namespace Conversion

variable {α β : Type} {name name' : Text} {x x' : Conversion α}

/-- The same conversion, but for the name of a declaration in its messages. -/
structure Retold (name name' : Text) (x x' : Conversion α) : Prop where
  warnings : List.Forall₂ (Warning.Retold name name') x.warnings x'.warnings
  outcome : EndsAlike (Violation.Retold name name') Eq x.outcome x'.outcome

theorem Retold.refl (x : Conversion α) : Retold name name' x x := by
  refine ⟨List.forall₂_same.2 fun w _ => .same w, ?_⟩
  cases x.outcome with
  | ok a => exact .ok rfl
  | error v => exact .error (.same v)

theorem Retold.bind {f f' : α → Conversion β} (h : Retold name name' x x')
    (step : ∀ a, Retold name name' (f a) (f' a)) : Retold name name' (x >>= f) (x' >>= f') := by
  obtain ⟨warnings, outcome⟩ := h
  cases hx : x.outcome with
  | error v =>
    rw [hx] at outcome
    cases hx' : x'.outcome with
    | error v' =>
      rw [hx'] at outcome
      rw [Journal.bind_of_error hx, Journal.bind_of_error hx']
      cases outcome with
      | error hv => exact ⟨warnings, .error hv⟩
    | ok => rw [hx'] at outcome; cases outcome
  | ok a =>
    rw [hx] at outcome
    cases hx' : x'.outcome with
    | error => rw [hx'] at outcome; cases outcome
    | ok a' =>
      rw [hx'] at outcome
      rw [Journal.bind_of_ok hx, Journal.bind_of_ok hx']
      cases outcome with
      | ok ha =>
        subst ha
        exact ⟨List.rel_append warnings (step a).warnings, (step a).outcome⟩

/-- With one name there is nothing to tell in another way. -/
theorem Retold.eq (h : Retold name name x x') : x' = x := by
  obtain ⟨notes, outcome⟩ := x
  obtain ⟨notes', outcome'⟩ := x'
  obtain ⟨warnings, ends⟩ := h
  have told : List.Forall₂ Eq notes notes' := warnings.imp fun w w' h => by cases h <;> rfl
  rw [List.forall₂_eq_eq_eq] at told
  cases ends with
  | ok h => rw [told, h]
  | error h => cases h <;> rw [told]

end Conversion

/-! ## What a type reads -/

section

variable {resolver : Resolver} {owner owner' : Declaration}

private theorem unknownShape_retold (category : Text) (source : Option Text) :
    Conversion.Retold owner.name owner'.name (unknownShape category owner source)
      (unknownShape category owner' source) :=
  ⟨.cons (.owner category source) .nil, .ok rfl⟩

private theorem shapeOrUnknown_retold (body : Option Shape) :
    Conversion.Retold owner.name owner'.name (shapeOrUnknown owner body)
      (shapeOrUnknown owner' body) := by
  cases body with
  | none => exact unknownShape_retold _ _
  | some => exact .refl _

/-- Links depend on the page that they stand on. -/
theorem linkTo_congr {place place' : Place} (page : resolver.pageOf place = resolver.pageOf place')
    (target : Option Site) : resolver.linkTo place target = resolver.linkTo place' target := by
  unfold Resolver.linkTo
  rw [page]

private theorem referenceShape_retold (page : resolver.pageOf owner.place = resolver.pageOf owner'.place)
    (name : Json.Value) (target : Option Site) (arguments : List Shape) :
    Conversion.Retold owner.name owner'.name (referenceShape resolver owner name target arguments)
      (referenceShape resolver owner' name target arguments) := by
  unfold referenceShape
  rw [linkTo_congr page]
  dsimp only
  split
  · split
    · exact .refl _
    · exact ⟨.nil, .error .owner⟩
  · exact .refl _

mutual

/-- Of the declaration that it belongs to, a type reads the page, and names it in messages. -/
theorem convertType_retold (page : resolver.pageOf owner.place = resolver.pageOf owner'.place)
    (position : Position) : ∀ t : TypeNode, Conversion.Retold owner.name owner'.name
      (convertType resolver position owner t) (convertType resolver position owner' t)
  | .intrinsic _ => .refl _
  | .stringLiteral _ => .refl _
  | .array element => by
    rw [convertType, convertType]
    exact (convertType_retold page .elsewhere element).bind fun _ => .refl _
  | .tuple [] => unknownShape_retold _ _
  | .tuple (first :: rest) => by
    rw [convertType, convertType]
    split
    · exact (convertType_retold page .elsewhere first).bind fun _ => .refl _
    · exact unknownShape_retold _ _
  | .union options => by
    rw [convertType, convertType]
    exact (convertTypes_retold page .unionOption options).bind fun _ => .refl _
  | .intersection [a, b] => by
    rw [convertType, convertType]
    refine (convertType_retold page .elsewhere a).bind fun sa => ?_
    refine (convertType_retold page .elsewhere b).bind fun sb => ?_
    split
    · exact .refl _
    · exact unknownShape_retold _ _
  | .intersection [] | .intersection [_] | .intersection (_ :: _ :: _ :: _) => unknownShape_retold _ _
  | .typeParameter _ => .refl _
  | .reference name arguments qualifiedName target => by
    rw [convertType, convertType]
    refine (convertTypes_retold page .elsewhere arguments).bind fun shapes => ?_
    exact referenceShape_retold page _ target shapes
  | .inline declaration => by
    rw [convertType, convertType]
    exact (Conversion.Retold.refl _).bind shapeOrUnknown_retold
  | .unmodelled category source => unknownShape_retold _ _

theorem convertTypes_retold (page : resolver.pageOf owner.place = resolver.pageOf owner'.place)
    (position : Position) : ∀ l : List TypeNode, Conversion.Retold owner.name owner'.name
      (convertTypes resolver position owner l) (convertTypes resolver position owner' l)
  | [] => .refl _
  | t :: rest => by
    rw [convertTypes, convertTypes]
    refine (convertType_retold page position t).bind fun _ => ?_
    exact (convertTypes_retold page position rest).bind fun _ => .refl _

end

/-- Of the node that they stand in, only literals read anything. -/
theorem convertType_position {t : TypeNode} (h : ∀ value, t ≠ .stringLiteral value)
    (position position' : Position) :
    convertType resolver position owner t = convertType resolver position' owner t := by
  cases t with
  | stringLiteral value => exact absurd rfl (h value)
  | tuple elements => cases elements <;> rfl
  | intersection operands => rcases operands with _ | ⟨_, _ | ⟨_, _ | _⟩⟩ <;> rfl
  | _ => rfl

/-- A type is converted alike wherever it stands in declarations on one page: in both places it becomes the same
shape, or in both there is a violation; only messages about the declaration that it belongs to name another one.
That the node around it is a union is read by literals alone, and a declaration in place does not read what it
belongs to. -/
theorem convertType_context (resolver : Resolver) (t : TypeNode) {owner owner' : Declaration}
    {position position' : Position} (hp : ∀ value, t = .stringLiteral value → position = position') :
    (resolver.pageOf owner.place = resolver.pageOf owner'.place →
      Conversion.Retold owner.name owner'.name (convertType resolver position owner t)
        (convertType resolver position' owner' t)) ∧
    ∀ d, t = .inline d → (convertType resolver position' owner' t).outcome =
      (convertType resolver position owner t).outcome := by
  constructor
  · intro page
    by_cases literal : ∃ value, t = .stringLiteral value
    · obtain ⟨value, ht⟩ := literal
      rw [hp value ht]
      exact convertType_retold page position' t
    · rw [convertType_position (fun value ht => literal ⟨value, ht⟩) position position']
      exact convertType_retold page position' t
  · rintro d rfl
    rw [convertType, convertType]
    cases hb : (convertBody resolver d).outcome with
    | error v => rw [Journal.bind_of_error hb, Journal.bind_of_error hb]
    | ok body =>
      rw [Journal.bind_of_ok hb, Journal.bind_of_ok hb]
      cases body <;> rfl

end

/-- A module with two declarations on its page, in the second of which there is one without a name. -/
def onePage : Resolver :=
  ⟨[("a.X", ⟨"a.X", "/a/#type-X", "/a/"⟩), ("a.Y", ⟨"a.Y", "/a/#type-Y", "/a/"⟩)]⟩

/-- A declaration without parts. -/
def memberOf (name : Text) (kind : Kind) (around : Place) : Declaration :=
  { origin := [], segment := ⟨name, some kind⟩, enclosing := around, id := none, isOptional := false
    comment := none, typeParameters := [], type := none, signatures := [], children := [] }

theorem convertType_context_onePage :
    let inModule : Place := [⟨"a", some .module⟩, ⟨"p", some .global⟩]
    let x := memberOf "X" .interface inModule
    let inY := memberOf "__type" .typeLiteral (⟨"Y", some .interface⟩ :: inModule)
    let t : TypeNode := .reference "X" [.unmodelled "query" "q"] .null (some x.site)
    onePage.pageOf x.place = onePage.pageOf inY.place ∧
      Conversion.Retold "X" "__type" (convertType onePage .elsewhere x t)
        (convertType onePage .unionOption inY t) ∧
      (convertType onePage .unionOption inY t).warnings = [⟨"query", "__type", some "q"⟩] ∧
      (convertType onePage .unionOption inY t).outcome =
        .ok (.reference {} (some (.text "a.X")) (some "#type-X") (some [.unknown {}])) := by
  intro inModule x inY t
  have page : onePage.pageOf x.place = onePage.pageOf inY.place := by decide +kernel
  exact ⟨page, (convertType_context onePage t nofun).1 page, rfl, rfl⟩

end DocShape
