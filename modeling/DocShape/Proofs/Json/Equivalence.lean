import DocShape.Proofs.Json.Equality
import DocShape.Proofs.Json.Keys

/-!
Strict equality as a relation between values. It is transitive, symmetric where no key is repeated, and a value
is equal to itself just if nothing in it is a float that is no number (`strictEq_self_iff`). All of this is
by induction on the values inside a value, which are compared in pairs.
-/

namespace DocShape

theorem Binary64.numericEq_iff {x y : Binary64} :
    x.numericEq y ↔ x = y ∧ x ≠ .nan ∨ x.isZero ∧ y.isZero := by
  cases x <;> cases y <;> simp [numericEq, isZero]

namespace Json.Value

/-! ## The values in a value -/

/-- The values right inside a value. -/
def parts : Value → List Value
  | .array items => items
  | .object members => members.map (·.2)
  | _ => []

theorem exists_mem_entries {p v : Value} (hp : p ∈ v.parts) : ∃ s, (s, p) ∈ v.entries := by
  cases v with
  | array items =>
    obtain ⟨i, hi⟩ := List.mem_iff_getElem?.1 hp
    exact ⟨.index i, List.mem_map.2 ⟨(p, i), List.mk_mem_zipIdx_iff_getElem?.2 hi, rfl⟩⟩
  | object members =>
    obtain ⟨⟨key, w⟩, hm, rfl⟩ := List.mem_map.1 hp
    exact ⟨.key key, List.mem_map.2 ⟨(key, w), hm, rfl⟩⟩
  | _ => cases hp

/-- Induction from the values inside a value. -/
theorem byParts {P : Value → Prop} (step : ∀ v, (∀ p ∈ v.parts, P p) → P v) (v : Value) : P v := by
  refine byEntries (fun v ih => step v fun p hp => ?_) v
  obtain ⟨s, hs⟩ := exists_mem_entries hp
  exact ih (s, p) hs

variable {a b c v w : Value}

/-- A value all of whose floats are numbers, and in which no key is repeated. -/
inductive Comparable : Value → Prop
  | scalar {v : Value} : v.isContainer = false → v ≠ .float .nan → Comparable v
  | array {items : List Value} : (∀ v ∈ items, v.Comparable) → Comparable (.array items)
  | object {members : Members} : (Table.keys members).Nodup → (∀ e ∈ members, e.2.Comparable) →
    Comparable (.object members)

theorem Comparable.hasDistinctKeys (h : v.Comparable) : v.hasDistinctKeys := by
  induction h with
  | @scalar v hv _ => cases v <;> first | rfl | cases hv
  | array _ ih => exact distinctKeysInItems_iff.2 ih
  | object nodup _ ih => exact distinctKeysInMembers_iff.2 ⟨nodup, ih⟩

/-! ## Containers that are equal -/

theorem strictEqItems_iff {l l' : List Value} :
    strictEqItems l l' ↔ List.Forall₂ (fun v w => v.strictEq w) l l' := by
  induction l generalizing l' with
  | nil => cases l' <;> simp [strictEqItems]
  | cons v l ih => cases l' <;> simp [strictEqItems, ih]

private theorem exists_items_of_strictEq {items : List Value} (h : (array items).strictEq w) :
    ∃ items', w = .array items' ∧ List.Forall₂ (fun v w => v.strictEq w) items items' := by
  cases w with
  | array items' =>
    rw [strictEq] at h
    exact ⟨items', rfl, strictEqItems_iff.1 h⟩
  | _ => simp [strictEq] at h

private theorem exists_members_of_strictEq {members : Members} (h : (object members).strictEq w) :
    ∃ members', w = .object members' := by
  cases w with
  | object members' => exact ⟨members', rfl⟩
  | _ => simp [strictEq] at h

/-- Scalars are equal that are the same, unless they are no number, and the two zeros. -/
private theorem strictEq_scalar_iff (hv : v.isContainer = false) : v.strictEq w ↔
    v = w ∧ v ≠ .float .nan ∨ ∃ x y : Binary64, v = .float x ∧ w = .float y ∧ x.isZero ∧ y.isZero := by
  cases v with
  | array | object => cases hv
  | float x => cases w <;> simp [strictEq, Binary64.numericEq_iff]
  | _ => cases w <;> simp [strictEq]

private theorem strictEq_self_scalar (hv : v.isContainer = false) : v.strictEq v ↔ v.Comparable := by
  rw [strictEq_scalar_iff hv]
  constructor
  · rintro (⟨-, number⟩ | ⟨x, y, rfl, -, zero, -⟩)
    · exact .scalar hv number
    · exact .scalar rfl (by rintro ⟨⟩; cases zero)
  · rintro (⟨-, number⟩ | _ | _)
    · exact Or.inl ⟨rfl, number⟩
    · cases hv
    · cases hv

private theorem strictEq_symm_scalar (hv : v.isContainer = false) (h : v.strictEq w) :
    w.strictEq v := by
  rcases (strictEq_scalar_iff hv).1 h with ⟨rfl, -⟩ | ⟨x, y, rfl, rfl, hx, hy⟩
  · exact h
  · exact (strictEq_scalar_iff rfl).2 (Or.inr ⟨y, x, rfl, rfl, hy, hx⟩)

private theorem strictEq_trans_scalar (ha : a.isContainer = false) (hab : a.strictEq b)
    (hbc : b.strictEq c) : a.strictEq c := by
  rcases (strictEq_scalar_iff ha).1 hab with ⟨rfl, -⟩ | ⟨x, y, rfl, rfl, hx, hy⟩
  · exact hbc
  · rcases (strictEq_scalar_iff rfl).1 hbc with ⟨rfl, -⟩ | ⟨_, z, -, rfl, -, hz⟩
    · exact hab
    · exact (strictEq_scalar_iff rfl).2 (Or.inr ⟨x, z, rfl, rfl, hx, hz⟩)

/-! ## Values that equal themselves -/

private theorem strictEq_object {members members' : Members} :
    (object members).strictEq (.object members') ↔ members.length = members'.length ∧
      ∀ e ∈ members, ∃ w, Table.get? members' e.1 = some w ∧ e.2.strictEq w := by
  rw [strictEq, Bool.and_eq_true, beq_iff_eq, strictEqMembers_iff]

theorem strictEq_self_iff (hv : v.hasDistinctKeys) : v.strictEq v ↔ v.Comparable := by
  induction v using byParts with
  | step v ih =>
    cases v with
    | array items =>
      have distinct := distinctKeysInItems_iff.1 hv
      rw [strictEq, strictEqItems_iff, List.forall₂_same]
      constructor
      · exact fun h => .array fun p hp => (ih p hp (distinct p hp)).1 (h p hp)
      · rintro (_ | h | _) p hp
        · contradiction
        · exact (ih p hp (distinct p hp)).2 (h p hp)
    | object members =>
      obtain ⟨nodup, distinct⟩ := distinctKeysInMembers_iff.1 hv
      have below : ∀ e ∈ members, e.2.strictEq e.2 ↔ e.2.Comparable := fun e he =>
        ih e.2 (List.mem_map.2 ⟨e, he, rfl⟩) (distinct e he)
      have found : ∀ e ∈ members, Table.get? members e.1 = some e.2 := fun e he =>
        Table.lookup_of_mem nodup he
      rw [strictEq_object]
      constructor
      · rintro ⟨-, h⟩
        refine .object nodup fun e he => (below e he).1 ?_
        obtain ⟨w, hw, same⟩ := h e he
        rw [found e he, Option.some.injEq] at hw
        rwa [← hw] at same
      · rintro (_ | _ | ⟨_, h⟩)
        · contradiction
        · exact ⟨rfl, fun e he => ⟨e.2, found e he, (below e he).2 (h e he)⟩⟩
    | _ => exact strictEq_self_scalar rfl

/-! ## Symmetry and transitivity -/

private theorem forall₂_symm {R : Value → Value → Prop} {l l' : List Value}
    (symm : ∀ x ∈ l, ∀ y ∈ l', R x y → R y x) (h : List.Forall₂ R l l') : List.Forall₂ R l' l := by
  induction h with
  | nil => exact .nil
  | cons hab _ ih =>
    refine .cons (symm _ (List.mem_cons_self ..) _ (List.mem_cons_self ..) hab) (ih ?_)
    exact fun x hx y hy => symm x (List.mem_cons_of_mem _ hx) y (List.mem_cons_of_mem _ hy)

theorem strictEq_symm (ha : a.hasDistinctKeys) (hb : b.hasDistinctKeys) (h : a.strictEq b) :
    b.strictEq a := by
  induction a using byParts generalizing b with
  | step a ih =>
    cases a with
    | array items =>
      obtain ⟨items', rfl, each⟩ := exists_items_of_strictEq h
      have left := distinctKeysInItems_iff.1 ha
      have right := distinctKeysInItems_iff.1 hb
      rw [strictEq, strictEqItems_iff]
      exact forall₂_symm (fun p hp q hq => ih p hp (left p hp) (right q hq)) each
    | object members =>
      obtain ⟨members', rfl⟩ := exists_members_of_strictEq h
      obtain ⟨nodup, left⟩ := distinctKeysInMembers_iff.1 ha
      obtain ⟨nodup', right⟩ := distinctKeysInMembers_iff.1 hb
      rw [strictEq_object_iff nodup nodup'] at h
      rw [strictEq_object_iff nodup' nodup]
      intro key
      have there := h key
      cases hv : Table.get? members key with
      | none =>
        rw [hv] at there
        rw [there.eq_none_iff.1 rfl]
        exact .none
      | some v =>
        rw [hv] at there
        obtain ⟨w, hw, same⟩ := there.exists_some
        have inside := Table.mem_of_get? hv
        rw [hw]
        exact .some (ih v (List.mem_map.2 ⟨_, inside, rfl⟩) (left _ inside)
          (right _ (Table.mem_of_get? hw)) same)
    | _ => exact strictEq_symm_scalar rfl h

private theorem forall₂_trans {R : Value → Value → Prop} {l l' l'' : List Value}
    (trans : ∀ x ∈ l, ∀ {y z}, R x y → R y z → R x z) (h : List.Forall₂ R l l')
    (h' : List.Forall₂ R l' l'') : List.Forall₂ R l l'' := by
  induction h generalizing l'' with
  | nil => exact h'
  | cons hab _ ih =>
    cases h' with
    | cons hbc h' =>
      obtain ⟨head, tail⟩ := List.forall_mem_cons.1 trans
      exact .cons (head hab hbc) (ih tail h')

theorem strictEq_trans (hab : a.strictEq b) (hbc : b.strictEq c) : a.strictEq c := by
  induction a using byParts generalizing b c with
  | step a ih =>
    cases a with
    | array items =>
      obtain ⟨items', rfl, each⟩ := exists_items_of_strictEq hab
      obtain ⟨items'', rfl, each'⟩ := exists_items_of_strictEq hbc
      rw [strictEq, strictEqItems_iff]
      exact forall₂_trans (fun p hp _ _ => ih p hp) each each'
    | object members =>
      obtain ⟨members', rfl⟩ := exists_members_of_strictEq hab
      obtain ⟨members'', rfl⟩ := exists_members_of_strictEq hbc
      rw [strictEq_object] at hab hbc ⊢
      refine ⟨hab.1.trans hbc.1, fun e he => ?_⟩
      obtain ⟨w, hw, same⟩ := hab.2 e he
      obtain ⟨u, hu, same'⟩ := hbc.2 _ (Table.mem_of_get? hw)
      exact ⟨u, hu, ih e.2 (List.mem_map.2 ⟨e, he, rfl⟩) same same'⟩
    | _ => exact strictEq_trans_scalar rfl hab hbc

end Json.Value

end DocShape
