import DocShape.Conversion.Converter
import DocShape.Proofs.Conversion.Overloads
import Mathlib.Logic.Relation

/-!
What a conversion enters. `Visits` is one step down: a declaration is entered by its type, else by the
first longest of its signatures, else by its children; mixed tuples, intersections of other than two
operands, other signatures and the targets of references are not entered. `Breaches` says where a
conversion must not succeed, and `Due` where that is below an entry.
-/

namespace DocShape

namespace TypeNode

/-- Names and literals, which have no parts. -/
def isLeaf : TypeNode → Bool
  | .intrinsic _ | .stringLiteral _ | .typeParameter _ => true
  | _ => false

/-- Types that have no shape: mixed and empty tuples, intersections of other than two operands, and types that
are not modelled. -/
def isRefused : TypeNode → Bool
  | .tuple [] => true
  | .tuple (first :: rest) => !rest.all fun t => t.sameAs first
  | .intersection [_, _] => false
  | .intersection _ => true
  | .unmodelled _ _ => true
  | _ => false

end TypeNode

/-- What is converted: a declaration without its own label, or a type that belongs to a declaration. -/
inductive Entry
  | declaration (d : Declaration)
  | type (owner : Declaration) (t : TypeNode)

/-- The signature that speaks for a declaration, which has no type of its own. -/
def SpeaksFor (s : Signature) (d : Declaration) : Prop :=
  d.type = none ∧ IsFirstLongest Signature.arity d.signatures s

section

variable {resolver : Link.Resolver}

theorem convertSignatures_length (resolver : Link.Resolver) (owner : Declaration)
    (l : List Signature) : (convertSignatures resolver owner l).length = l.length := by
  induction l with
  | nil => rfl
  | cons s rest ih =>
    obtain ⟨_, _, type, _⟩ := s
    rw [convertSignatures, List.length_cons, ih, List.length_cons]

theorem eq_nil_of_zip_eq_nil {owner : Declaration} {l : List Signature}
    (h : l.zip (convertSignatures resolver owner l) = []) : l = [] := by
  rcases List.zip_eq_nil_iff.1 h with h | h
  · exact h
  · rw [← List.length_eq_zero_iff, convertSignatures_length] at h
    exact List.length_eq_zero_iff.1 h

/-- The signature that is chosen for a function speaks for it. -/
theorem speaksFor_longest {d : Declaration} {first : Signature × Conversion SignatureShapes}
    {rest : List (Signature × Conversion SignatureShapes)} (hn : d.type = none)
    (hz : first :: rest = d.signatures.zip (convertSignatures resolver d d.signatures)) :
    SpeaksFor (extremes (fun x => x.1.arity) first rest).longest.1 d := by
  have hl : (first :: rest).map Prod.fst = d.signatures := by
    rw [hz]
    exact List.map_fst_zip (Nat.le_of_eq (convertSignatures_length ..).symm)
  have longest := (extremes_areExtremes (fun x => x.1.arity) first rest).longest
  refine ⟨hn, ?_⟩
  rw [← hl]
  exact longest.map

end

/-- One step down. -/
inductive Visits : Entry → Entry → Prop
  | ownType {d : Declaration} {t : TypeNode} : d.type = some t →
    Visits (.declaration d) (.type d t)
  | parameter {d : Declaration} {s : Signature} {p : Parameter} {t : TypeNode} :
    SpeaksFor s d → p ∈ s.parameters → p.type = some t → Visits (.declaration d) (.type d t)
  | returnType {d : Declaration} {s : Signature} {t : TypeNode} :
    SpeaksFor s d → s.type = some t → Visits (.declaration d) (.type d t)
  | child {d c : Declaration} : d.type = none → d.signatures = [] →
    (ObjectForm.ofKind? d.kind).isSome → c ∈ d.children →
    Visits (.declaration d) (.declaration c)
  | element {owner : Declaration} {t : TypeNode} :
    Visits (.type owner (.array t)) (.type owner t)
  | first {owner : Declaration} {t : TypeNode} {rest : List TypeNode} :
    (∀ t' ∈ rest, t'.sameAs t) → Visits (.type owner (.tuple (t :: rest))) (.type owner t)
  | operand {owner : Declaration} {a b t : TypeNode} : t ∈ [a, b] →
    Visits (.type owner (.intersection [a, b])) (.type owner t)
  | option {owner : Declaration} {t : TypeNode} {options : List TypeNode} : t ∈ options →
    Visits (.type owner (.union options)) (.type owner t)
  | argument {owner : Declaration} {name : Text} {t : TypeNode} {arguments : List TypeNode}
    {qualifiedName : Json.Value} {target : Option Site} : t ∈ arguments →
    Visits (.type owner (.reference name arguments qualifiedName target)) (.type owner t)
  | inline {owner d : Declaration} : Visits (.type owner (.inline d)) (.declaration d)

/-- A function has a parameter without a type, or an event does not have one argument. -/
inductive Breaches : Entry → Violation → Prop
  | untypedParameter {d : Declaration} {s : Signature} {p : Parameter} : SpeaksFor s d →
    p ∈ s.parameters → p.type = none →
    Breaches (.declaration d) (.untypedParameter p.name d.name)
  | noSingleListener {owner : Declaration} {name : Text} {arguments : List TypeNode}
    {qualifiedName : Json.Value} {target : Option Site} :
    TypeNode.referencedName name qualifiedName target = .text eventTypeName →
    arguments.length ≠ 1 →
    Breaches (.type owner (.reference name arguments qualifiedName target))
      (.noSingleListener owner.name)

/-- A violation at an entry, or at one that is visited below it. -/
def Due (e : Entry) (v : Violation) : Prop :=
  ∃ n, Relation.ReflTransGen Visits e n ∧ Breaches n v

variable {e : Entry} {v : Violation} {owner d : Declaration}

theorem due_iff : Due e v ↔ Breaches e v ∨ ∃ e', Visits e e' ∧ Due e' v := by
  constructor
  · rintro ⟨n, hr, hb⟩
    rcases Relation.ReflTransGen.cases_head hr with rfl | ⟨e', hv, hr⟩
    · exact Or.inl hb
    · exact Or.inr ⟨e', hv, n, hr, hb⟩
  · rintro (hb | ⟨e', hv, n, hr, hb⟩)
    · exact ⟨e, .refl, hb⟩
    · exact ⟨n, .head hv hr, hb⟩

/-! ## Types -/

/-- Nothing is due at leaves and at types that are refused: they are not entered, and are no breach. -/
theorem not_due {t : TypeNode} (ht : t.isLeaf || t.isRefused) : ¬ Due (.type owner t) v := by
  rw [due_iff]
  rintro (h | ⟨e', h, -⟩)
  · cases h
    cases ht
  · cases h with
    | first same => simp [TypeNode.isLeaf, TypeNode.isRefused, List.all_eq_true.2 same] at ht
    | _ => cases ht

theorem due_array {t : TypeNode} : Due (.type owner (.array t)) v ↔ Due (.type owner t) v := by
  rw [due_iff]
  constructor
  · rintro (h | ⟨e', hv, h⟩)
    · cases h
    · cases hv
      exact h
  · exact fun h => Or.inr ⟨_, .element, h⟩

theorem due_tuple {t : TypeNode} {rest : List TypeNode} (same : ∀ t' ∈ rest, t'.sameAs t) :
    Due (.type owner (.tuple (t :: rest))) v ↔ Due (.type owner t) v := by
  rw [due_iff]
  constructor
  · rintro (h | ⟨e', hv, h⟩)
    · cases h
    · cases hv
      exact h
  · exact fun h => Or.inr ⟨_, .first same, h⟩

theorem due_intersection {a b : TypeNode} : Due (.type owner (.intersection [a, b])) v ↔
    Due (.type owner a) v ∨ Due (.type owner b) v := by
  rw [due_iff]
  constructor
  · rintro (h | ⟨e', hv, h⟩)
    · cases h
    · cases hv with
      | operand ht =>
        simp only [List.mem_cons, List.not_mem_nil, or_false] at ht
        rcases ht with rfl | rfl
        · exact Or.inl h
        · exact Or.inr h
  · rintro (h | h)
    · exact Or.inr ⟨_, .operand (by simp), h⟩
    · exact Or.inr ⟨_, .operand (by simp), h⟩

theorem due_union {options : List TypeNode} : Due (.type owner (.union options)) v ↔
    ∃ t ∈ options, Due (.type owner t) v := by
  rw [due_iff]
  constructor
  · rintro (h | ⟨e', hv, h⟩)
    · cases h
    · cases hv with
      | option ht => exact ⟨_, ht, h⟩
  · rintro ⟨t, ht, h⟩
    exact Or.inr ⟨_, .option ht, h⟩

theorem due_reference {name : Text} {arguments : List TypeNode} {qualifiedName : Json.Value}
    {target : Option Site} :
    Due (.type owner (.reference name arguments qualifiedName target)) v ↔
      (∃ t ∈ arguments, Due (.type owner t) v) ∨
        (TypeNode.referencedName name qualifiedName target = .text eventTypeName ∧
          arguments.length ≠ 1 ∧ v = .noSingleListener owner.name) := by
  rw [due_iff]
  constructor
  · rintro (h | ⟨e', hv, h⟩)
    · cases h with
      | noSingleListener hn hl => exact Or.inr ⟨hn, hl, rfl⟩
    · cases hv with
      | argument ht => exact Or.inl ⟨_, ht, h⟩
  · rintro (⟨t, ht, h⟩ | ⟨hn, hl, rfl⟩)
    · exact Or.inr ⟨_, .argument ht, h⟩
    · exact Or.inl (.noSingleListener hn hl)

theorem due_inline : Due (.type owner (.inline d)) v ↔ Due (.declaration d) v := by
  rw [due_iff]
  constructor
  · rintro (h | ⟨e', hv, h⟩)
    · cases h
    · cases hv
      exact h
  · exact fun h => Or.inr ⟨_, .inline, h⟩

/-! ## Declarations -/

theorem due_ownType {t : TypeNode} (ht : d.type = some t) :
    Due (.declaration d) v ↔ Due (.type d t) v := by
  have silent : ∀ s, ¬ SpeaksFor s d := by
    rintro s ⟨hn, -⟩
    simp [ht] at hn
  rw [due_iff]
  constructor
  · rintro (h | ⟨e', hv, h⟩)
    · cases h with
      | untypedParameter hs => exact absurd hs (silent _)
    · cases hv with
      | ownType ht' =>
        cases ht.symm.trans ht'
        exact h
      | parameter hs => exact absurd hs (silent _)
      | returnType hs => exact absurd hs (silent _)
      | child hn => simp [ht] at hn
  · exact fun h => Or.inr ⟨_, .ownType ht, h⟩

/-- What is due at some parameters of a declaration. -/
def DueAtParameters (owner : Declaration) (parameters : List Parameter) (v : Violation) : Prop :=
  ∃ p ∈ parameters, (p.type = none ∧ v = .untypedParameter p.name owner.name) ∨
    ∃ t, p.type = some t ∧ Due (.type owner t) v

/-- What is due at a signature of a declaration. -/
def DueAtSignature (owner : Declaration) (s : Signature) (v : Violation) : Prop :=
  DueAtParameters owner s.parameters v ∨ ∃ t, s.type = some t ∧ Due (.type owner t) v

theorem due_signature {s : Signature} (hs : SpeaksFor s d) :
    Due (.declaration d) v ↔ DueAtSignature d s v := by
  have only : ∀ s', SpeaksFor s' d → s' = s := fun s' hs' => hs'.2.unique hs.2
  rw [due_iff]
  constructor
  · rintro (h | ⟨e', hv, h⟩)
    · cases h with
      | untypedParameter hs' hp ht =>
        cases only _ hs'
        exact Or.inl ⟨_, hp, Or.inl ⟨ht, rfl⟩⟩
    · cases hv with
      | ownType ht => simp [hs.1] at ht
      | parameter hs' hp ht =>
        cases only _ hs'
        exact Or.inl ⟨_, hp, Or.inr ⟨_, ht, h⟩⟩
      | returnType hs' ht =>
        cases only _ hs'
        exact Or.inr ⟨_, ht, h⟩
      | child _ hn =>
        have := hs.2.mem
        simp [hn] at this
  · rintro (⟨p, hp, ⟨ht, rfl⟩ | ⟨t, ht, h⟩⟩ | ⟨t, ht, h⟩)
    · exact Or.inl (.untypedParameter hs hp ht)
    · exact Or.inr ⟨_, .parameter hs hp ht, h⟩
    · exact Or.inr ⟨_, .returnType hs ht, h⟩

theorem due_children (hn : d.type = none) (hs : d.signatures = []) :
    Due (.declaration d) v ↔ (ObjectForm.ofKind? d.kind).isSome ∧
      ∃ c ∈ d.children, Due (.declaration c) v := by
  have silent : ∀ s, ¬ SpeaksFor s d := by
    rintro s ⟨-, h⟩
    have := h.mem
    simp [hs] at this
  rw [due_iff]
  constructor
  · rintro (h | ⟨e', hv, h⟩)
    · cases h with
      | untypedParameter hs' => exact absurd hs' (silent _)
    · cases hv with
      | ownType ht => simp [hn] at ht
      | parameter hs' => exact absurd hs' (silent _)
      | returnType hs' => exact absurd hs' (silent _)
      | child _ _ hk hc => exact ⟨hk, _, hc, h⟩
  · rintro ⟨hk, c, hc, h⟩
    exact Or.inr ⟨_, .child hn hs hk hc, h⟩

end DocShape
