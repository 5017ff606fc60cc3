import DocShape.Proofs.Conversion.Contexts
import DocShape.Proofs.Conversion.InPlace
import DocShape.Proofs.Conversion.Nodes
import DocShape.Proofs.Conversion.Tuples
import DocShape.Proofs.Shape.Detection

/-!
Two spellings of an array of fixed length: a tuple that repeats one type, and a literal with a property of that
type for each index. Both become the same array (`convertType_fixedLength`). The tuple compares its elements as
they are written, and the literal its properties as they are shown, so that the type has to be equal to itself
in both ways: it holds no declarations, and its qualified names are text.
-/

namespace DocShape

open Link (Resolver)
open Shape (Everywhere RefersByText)

/-! ## Plain types -/

namespace TypeNode

/-- A type without declarations in place, in which qualified names are absent or text. -/
structure IsPlain (t : TypeNode) : Prop where
  flat : t.declarations = []
  named : ∀ r ∈ t.referents, r.1 = .null ∨ ∃ name, r.1 = .text name

mutual

/-- A type is written like itself if its qualified names are equal to themselves. -/
theorem sameAs_refl : ∀ t : TypeNode, (∀ r ∈ t.referents, r.1.looseEq r.1) → t.sameAs t
  | .intrinsic n, _ | .stringLiteral n, _ | .typeParameter n, _ => beq_self_eq_true n
  | .array element, h => sameAs_refl element h
  | .tuple elements, h => sameList_refl elements h
  | .union options, h => sameList_refl options h
  | .intersection operands, h => sameList_refl operands h
  | .reference name arguments qualifiedName target, h => by
    obtain ⟨head, tail⟩ := List.forall_mem_cons.1 h
    have names : (name == name) = true := beq_self_eq_true name
    rw [sameAs, names, sameList_refl arguments tail, head]
    rfl
  | .inline d, _ => beq_self_eq_true d.origin
  | .unmodelled category source, _ => by
    rw [sameAs, beq_self_eq_true category, beq_self_eq_true source]
    rfl

theorem sameList_refl : ∀ l : List TypeNode, (∀ r ∈ referentsIn l, r.1.looseEq r.1) → sameList l l
  | [], _ => rfl
  | t :: rest, h => by
    obtain ⟨head, tail⟩ := List.forall_mem_append.1 h
    rw [sameList, sameAs_refl t head, sameList_refl rest tail]
    rfl

end

theorem IsPlain.sameAs_self {t : TypeNode} (h : t.IsPlain) : t.sameAs t := by
  refine sameAs_refl t fun r hr => ?_
  obtain name | ⟨name, hn⟩ := h.named r hr
  · rw [name]
    rfl
  · rw [hn]
    exact beq_self_eq_true name

theorem referencedName_text {name : Text} {qualifiedName : Json.Value} {target : Option Site}
    (h : qualifiedName = .null ∨ ∃ name, qualifiedName = .text name) :
    ∃ n, referencedName name qualifiedName target = .text n := by
  unfold referencedName
  split
  · exact ⟨_, rfl⟩
  · split
    · exact ⟨name, rfl⟩
    · rcases h with rfl | ⟨text, rfl⟩
      · contradiction
      · exact ⟨text, rfl⟩

theorem referentsIn_eq_flatMap (l : List TypeNode) : referentsIn l = l.flatMap referents := by
  induction l with
  | nil => rfl
  | cons t rest ih => rw [referentsIn, ih, List.flatMap_cons]

end TypeNode

/-- An entry that is a plain type. -/
def Entry.IsPlain : Entry → Prop
  | .declaration _ => False
  | .type _ t => t.IsPlain

/-- The parts of a plain type are plain types. -/
theorem Entry.IsPlain.part {e e' : Entry} (h : e.IsPlain) (hp : HasPart e e') : e'.IsPlain := by
  have flat : e'.declarations = [] := by
    cases e with
    | declaration d => exact h.elim
    | type owner t => exact List.sublist_nil.1 (h.flat ▸ hp.sublist)
  have inside : ∀ {t : TypeNode} {l : List TypeNode}, t ∈ l → t.referents ⊆ TypeNode.referentsIn l := by
    intro t l ht r hr
    rw [TypeNode.referentsIn_eq_flatMap]
    exact List.mem_flatMap.2 ⟨t, ht, hr⟩
  cases hp with
  | ownType | parameter | returnType | child => exact h.elim
  | element => exact ⟨flat, h.named⟩
  | item ht | operand ht | option ht => exact ⟨flat, fun r hr => h.named r (inside ht hr)⟩
  | argument ht => exact ⟨flat, fun r hr => h.named r (List.mem_cons_of_mem _ (inside ht hr))⟩
  | @inline owner d =>
    rw [Entry.declarations, d.all_eq] at flat
    cases flat

theorem Entry.IsPlain.reached {e e' : Entry} (h : e.IsPlain)
    (hr : Relation.ReflTransGen Visits e e') : e'.IsPlain := by
  induction hr with
  | refl => exact h
  | tail _ hv ih => exact ih.part hv.hasPart

/-! ## Their shapes -/

section

variable {resolver : Resolver} {position : Position} {e : Entry} {s : Shape}

theorem refersByText_kept : Shape.KeptByLabels RefersByText := by
  rintro s s' (l | l) h <;> cases s <;> exact h

/-- The shape of a plain type has an empty label and refers by text. -/
theorem Converts.plain (h : Converts resolver position e s) (plain : e.IsPlain) :
    s.label = {} ∧ s.RefersByText := by
  cases h.rule with
  | @leaf owner t _ ht hs =>
    cases t with
    | stringLiteral => cases position <;> cases hs <;> exact ⟨rfl, trivial⟩
    | intrinsic =>
      cases hs
      exact ⟨rfl, trivial⟩
    | typeParameter name =>
      cases hs
      exact ⟨rfl, by simp [RefersByText]⟩
    | _ => cases ht
  | @intersection owner a b sa sb =>
    cases hi : sa.intersect? sb with
    | none => exact ⟨rfl, trivial⟩
    | some s =>
      obtain ⟨_, _, _, rfl⟩ := Shape.exists_array_of_intersect? hi
      exact ⟨rfl, trivial⟩
  | @reference owner name arguments qualifiedName target _ _ _ _ hs =>
    have named : ∃ n, TypeNode.referencedName name qualifiedName target = .text n :=
      TypeNode.referencedName_text (plain.named _ (List.mem_cons_self ..))
    obtain ⟨link, templates, rfl⟩ := referenceShape_named hs
    refine ⟨rfl, ?_⟩
    rintro _ ⟨⟩
    cases resolver.linkTo owner.place target with
    | none => exact named
    | some t => exact ⟨t.title, rfl⟩
  | inline =>
    have := plain.flat
    rw [TypeNode.declarations, Declaration.all_eq] at this
    cases this
  | ownType | function | object | bare => exact plain.elim
  | _ => exact ⟨rfl, trivial⟩

theorem Converts.refersByText (h : Converts resolver position e s) (plain : e.IsPlain) :
    Everywhere RefersByText s := by
  refine Shape.everywhere_of_isNode fun n hn => ?_
  obtain ⟨_, _, _, reached, converts, relabelled⟩ := h.node hn
  exact refersByText_kept _ _ relabelled (converts.plain (plain.reached reached)).2

end

/-! ## The two spellings -/

/-- A literal that spells an array of `n` items of a type: its properties are named by the indices, in some order,
and each has that type and neither a comment nor a flag. -/
structure SpellsArray (t : TypeNode) (n : Nat) (d : Declaration) : Prop where
  kind : d.kind = some .typeLiteral
  type : d.type = none
  signatures : d.signatures = []
  names : (d.children.map (·.name)).Perm ((List.range n).map Text.decimal)
  items : ∀ c ∈ d.children, c.type = some t ∧ c.comment = none ∧ c.isOptional = false

/-- One shape as a property for each member, under the name of the member. -/
def uniformProperties (members : List Declaration) (s : Shape) : List Shape :=
  members.map fun c => s.withName (some c.name)

section

variable {resolver : Resolver} {position : Position} {owner c d : Declaration} {t : TypeNode} {n : Nat}
  {s : Shape}

theorem mem_uniformProperties {members : List Declaration} {p : Shape} :
    p ∈ uniformProperties members s ↔ ∃ c ∈ members, s.withName (some c.name) = p :=
  List.mem_map

theorem SpellsArray.length_children (h : SpellsArray t n d) : d.children.length = n := by
  simpa using h.names.length_eq

/-- A tuple that repeats a type is an array of it. -/
theorem convertType_tuple_replicate (plain : t.IsPlain) (hn : 1 ≤ n) :
    convertType resolver position owner (.tuple (List.replicate n t)) =
      (fun s => .array {} (some s) (some n) (some n)) <$> convertType resolver .elsewhere owner t := by
  obtain ⟨m, rfl⟩ := Nat.exists_eq_add_of_le' hn
  have same : (List.replicate m t).all fun t' => t'.sameAs t := by
    rw [List.all_replicate, plain.sameAs_self]
    simp
  rw [List.replicate_succ, convertType, if_pos same, List.length_replicate, map_eq_pure_bind]
  rfl

/-- A property without a comment and a flag is its type under its name. -/
theorem property_bare (ht : c.type = some t) (hc : c.comment = none) (ho : c.isOptional = false) :
    (Answers.ofConversion resolver).property c =
      Shape.withName (some c.name) <$> convertType resolver .elsewhere c t := by
  have bare : attach resolver c = id := by
    funext s
    rw [attach, hc, ho]
    exact s.withLabel_label
  have own : (Answers.ofConversion resolver).declaration c = convertType resolver .elsewhere c t := by
    show convert resolver c = _
    rw [convert_eq, bare, ht, id_map]
    rfl
  rw [Answers.property, own, map_eq_pure_bind]

/-- On the page of an owner, the properties all become what the type does there, or all fail with it. -/
theorem SpellsArray.endsAlike (h : SpellsArray t n d) (hn : 1 ≤ n)
    (page : ∀ c ∈ d.children, resolver.pageOf owner.place = resolver.pageOf c.place) :
    EndsAlike (fun v v' => ∃ c ∈ d.children, Violation.Retold owner.name c.name v v')
      (fun s properties => properties = uniformProperties d.children s)
      (convertType resolver .elsewhere owner t).outcome
      (d.children.mapM (Answers.ofConversion resolver).property).outcome := by
  have each : ∀ c ∈ d.children, EndsAlike (Violation.Retold owner.name c.name)
      (fun s property => property = s.withName (some c.name))
      (convertType resolver .elsewhere owner t).outcome
      ((Answers.ofConversion resolver).property c).outcome := by
    intro c hc
    obtain ⟨ht, comment, flag⟩ := h.items c hc
    rw [property_bare ht comment flag, Journal.outcome_map]
    exact (convertType_retold (page c hc) .elsewhere t).outcome.map_right
      fun _ _ same => congrArg _ same.symm
  cases ho : (convertType resolver .elsewhere owner t).outcome with
  | ok s =>
    rw [ho] at each
    have all : (d.children.mapM (Answers.ofConversion resolver).property).outcome =
        .ok (uniformProperties d.children s) := by
      rw [Journal.outcome_mapM_eq_ok, uniformProperties, List.map_map]
      refine List.map_congr_left fun c hc => ?_
      obtain ⟨_, hp, rfl⟩ := (each c hc).exists_ok
      exact hp
    rw [all]
    exact .ok rfl
  | error v =>
    rw [ho] at each
    cases hp : (d.children.mapM (Answers.ofConversion resolver).property).outcome with
    | ok properties =>
      -- There is a property, and it has no shape.
      obtain ⟨c, hc⟩ := List.exists_mem_of_length_pos (h.length_children ▸ hn)
      obtain ⟨p, -, hp⟩ := Journal.exists_result (Journal.outcome_mapM_eq_ok.1 hp) hc
      obtain ⟨_, fails, -⟩ := (each c hc).exists_error
      rw [hp] at fails
      cases fails
    | error v' =>
      obtain ⟨c, hc, hv⟩ := Journal.outcome_mapM_eq_error hp
      obtain ⟨_, fails, told⟩ := (each c hc).exists_error
      cases hv.symm.trans fails
      exact .error ⟨c, hc, told⟩

/-- Properties that are one shape under the indices stand for an array. -/
theorem SpellsArray.standsForArray (h : SpellsArray t n d) (hn : 1 ≤ n) (label : s.label = {}) :
    Shape.StandsForArray s n (ownObject resolver d .literal (uniformProperties d.children s)) := by
  have length : (uniformProperties d.children s).length = n := by
    rw [uniformProperties, List.length_map, h.length_children]
  have names : ((uniformProperties d.children s).map Shape.name).Perm (Shape.indexNames n) := by
    simpa [uniformProperties, Shape.name, Shape.withName, Shape.indexNames, Function.comp_def]
      using h.names.map some
  have same : ∀ p ∈ uniformProperties d.children s, p.withName none = s := by
    intro p hp
    obtain ⟨c, -, rfl⟩ := mem_uniformProperties.1 hp
    rw [Shape.withName, Shape.withName, Shape.withLabel_withLabel, Shape.label_withLabel, label]
    exact label ▸ s.withLabel_label
  have stands : Shape.StandsForArray s (uniformProperties d.children s).length
      (ownObject resolver d .literal (uniformProperties d.children s)) :=
    .intro (List.ne_nil_of_length_pos (length ▸ hn)) (length ▸ names) same
  exact length ▸ stands

/-- Then the literal is replaced by the array. -/
theorem SpellsArray.objectShape_eq (h : SpellsArray t n d) (hn : 1 ≤ n) (label : s.label = {})
    (typed : Everywhere RefersByText s) :
    objectShape resolver d .literal (uniformProperties d.children s) =
      .array {} (some s) (some n) (some n) := by
  have everywhere : Everywhere RefersByText
      (ownObject resolver d .literal (uniformProperties d.children s)) := by
    refine .intro trivial fun p hp => ?_
    obtain ⟨c, -, rfl⟩ := mem_uniformProperties.1 hp
    exact typed.relabelled refersByText_kept (relabelled_withName _ _)
  have array := (Shape.fixedArray?_eq_some_iff everywhere).2
    ⟨n, s, h.standsForArray hn label, rfl⟩
  rw [objectShape_eq_getD, array, Option.getD_some]

end

/-- A tuple that repeats a plain type, and a literal whose properties have that type and are named by the
indices, are converted alike if the owner of the tuple and the properties are on one page: both become the array
of the shape of the type, of that one length, or both end in a violation. -/
theorem convertType_fixedLength (resolver : Resolver) {t : TypeNode} (plain : t.IsPlain) {n : Nat}
    (hn : 1 ≤ n) {d : Declaration} (spells : SpellsArray t n d) {owner : Declaration}
    (page : ∀ c ∈ d.children, resolver.pageOf owner.place = resolver.pageOf c.place)
    (position position' : Position) (owner' : Declaration) :
    EndsAlike (fun v v' => ∃ c ∈ d.children, Violation.Retold owner.name c.name v v')
      (fun tuple literal => tuple.strictEq literal ∧ literal = tuple ∧
        ∃ s, (convertType resolver .elsewhere owner t).outcome = .ok s ∧
          tuple = .array {} (some s) (some n) (some n))
      (convertType resolver position owner (.tuple (List.replicate n t))).outcome
      (convertType resolver position' owner' (.inline d)).outcome := by
  have hk : ObjectForm.ofKind? d.kind = some .literal := by
    rw [spells.kind]
    rfl
  rw [convertType_tuple_replicate plain hn,
    convertType_inline_object hk spells.type spells.signatures, Journal.outcome_map,
    Journal.outcome_map]
  have properties := spells.endsAlike hn page
  cases ho : (convertType resolver .elsewhere owner t).outcome with
  | error v =>
    rw [ho] at properties
    obtain ⟨_, hp, told⟩ := properties.exists_error
    rw [hp]
    exact .error told
  | ok s =>
    rw [ho] at properties
    obtain ⟨_, hp, rfl⟩ := properties.exists_ok
    have converts : Converts resolver .elsewhere (.type owner t) s := .type ho
    have label : s.label = {} := (converts.plain plain).1
    have typed : Everywhere RefersByText s := converts.refersByText plain
    have array : Everywhere RefersByText (.array {} (some s) (some n) (some n)) :=
      .intro trivial (List.forall_mem_singleton.2 typed)
    rw [hp]
    simp only [Except.map]
    rw [spells.objectShape_eq hn label typed]
    exact .ok ⟨(Shape.strictEq_iff_eq array array).2 rfl, rfl, s, rfl, rfl⟩

/-- A declaration inside `Y`, in the module that `onePage` is about. -/
private def partOfY (name : Text) (kind : Kind) (type : Option TypeNode) (children : List Declaration) :
    Declaration :=
  { memberOf name kind [⟨"Y", some .interface⟩, ⟨"a", some .module⟩, ⟨"p", some .global⟩] with
    type := type
    children := children }

theorem convertType_fixedLength_swappedX :
    let x : TypeNode := .reference "X" [] .null
      (some ⟨[], [⟨"X", some .interface⟩, ⟨"a", some .module⟩, ⟨"p", some .global⟩]⟩)
    let owner := partOfY "pair" .property none []
    let literal := partOfY "__type" .typeLiteral none
      [partOfY "1" .property (some x) [], partOfY "0" .property (some x) []]
    let pair : Shape := .array {} (some (.reference {} (some (.text "a.X")) (some "#type-X") none))
      (some 2) (some 2)
    x.IsPlain ∧ SpellsArray x 2 literal ∧
      (∀ c ∈ literal.children, onePage.pageOf owner.place = onePage.pageOf c.place) ∧
      (convertType onePage .elsewhere owner (.tuple [x, x])).outcome = .ok pair ∧
      (convertType onePage .elsewhere owner (.inline literal)).outcome = .ok pair := by
  intro x owner literal pair
  have plain : x.IsPlain := ⟨rfl, List.forall_mem_singleton.2 (Or.inl rfl)⟩
  have spells : SpellsArray x 2 literal := by
    refine ⟨rfl, rfl, rfl, ?_, ?_⟩
    · decide +kernel
    · exact List.forall_mem_cons.2 ⟨⟨rfl, rfl, rfl⟩, List.forall_mem_singleton.2 ⟨rfl, rfl, rfl⟩⟩
  have page : ∀ c ∈ literal.children, onePage.pageOf owner.place = onePage.pageOf c.place := by
    refine List.forall_mem_cons.2 ⟨?_, List.forall_mem_singleton.2 ?_⟩ <;> decide +kernel
  have tuple : (convertType onePage .elsewhere owner (.tuple [x, x])).outcome = .ok pair := rfl
  have both := convertType_fixedLength onePage plain (by decide) spells page .elsewhere .elsewhere owner
  rw [show List.replicate 2 x = [x, x] from rfl, tuple] at both
  obtain ⟨_, inline, -, rfl, -⟩ := both.exists_ok
  exact ⟨plain, spells, page, tuple, inline⟩

end DocShape
