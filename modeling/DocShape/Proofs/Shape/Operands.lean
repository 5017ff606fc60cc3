import DocShape.Proofs.Json.Equivalence
import DocShape.Proofs.Shape.Equality

/-!
Comparison of operands. Two operands are compared as the plain values that they stand for
(`strictEq_eq_plain`), in which lists and tuples are arrays and shapes are their JSON objects.
-/

namespace DocShape

open Json (Value)

/-! ## Shapes that can be compared -/

namespace Shape

open Json

/-- A property that objects have whose members have it can only fail in the fields of the tag. -/
private theorem holds_toJson_iff {P : Value → Prop} (text : ∀ t, P (.text t)) (flag : P (.bool true))
    (object : ∀ members, (Table.keys members).Nodup → (P (.object members) ↔ ∀ e ∈ members, P e.2))
    (s : Shape) : P s.toJson ↔ ∀ f ∈ s.ownFields, ∀ v ∈ f.2, P v := by
  have label : ∀ f ∈ labelFields s.tag s.label, ∀ v ∈ f.2, P v := by
    intro f hf v hv
    simp only [labelFields, List.mem_cons, List.not_mem_nil, or_false] at hf
    rcases hf with rfl | rfl | rfl | rfl
    · cases hv
      exact text _
    · obtain ⟨t, -, rfl⟩ := Option.mem_map.1 hv
      exact text t
    · obtain ⟨t, -, rfl⟩ := Option.mem_map.1 hv
      exact text t
    · dsimp only at hv
      split at hv <;> cases hv
      exact flag
  rw [toJson_eq, object _ ((nodup_keys s).sublist keys_present_sublist)]
  constructor
  · rintro members ⟨key, o⟩ hf v hv
    cases hv
    exact members _ (mem_present.2 (List.mem_append_right _ hf))
  · intro own e he
    rcases List.mem_append.1 (mem_present.1 he) with hf | hf
    · exact label _ hf _ rfl
    · exact own _ hf _ rfl

theorem hasDistinctKeys_toJson_iff (s : Shape) :
    s.toJson.hasDistinctKeys ↔ ∀ f ∈ s.ownFields, ∀ v ∈ f.2, v.hasDistinctKeys := by
  refine holds_toJson_iff (P := (·.hasDistinctKeys)) (fun _ => rfl) rfl (fun members nodup => ?_) s
  exact distinctKeysInMembers_iff.trans (and_iff_right nodup)

private theorem comparable_text (t : Text) : (Value.text t).Comparable :=
  .scalar rfl nofun

theorem comparable_toJson_iff (s : Shape) :
    s.toJson.Comparable ↔ ∀ f ∈ s.ownFields, ∀ v ∈ f.2, v.Comparable := by
  refine holds_toJson_iff (P := Value.Comparable) comparable_text (.scalar rfl nofun)
    (fun members nodup => ⟨?_, .object nodup⟩) s
  rintro (_ | _ | ⟨-, each⟩)
  · contradiction
  · exact each

private theorem comparable_toJsonOption {o : Option Shape} (h : ∀ p ∈ o.toList, p.toJson.Comparable) :
    ∀ v ∈ toJsonOption o, v.Comparable := by
  intro v hv
  rw [toJsonOption_eq_map] at hv
  obtain ⟨p, hp, rfl⟩ := Option.mem_map.1 hv
  exact h p (Option.mem_toList.2 hp)

private theorem comparable_toJsonList? {o : Option (List Shape)}
    (h : ∀ p ∈ o.getD [], p.toJson.Comparable) : ∀ v ∈ toJsonList? o, v.Comparable := by
  intro v hv
  rw [toJsonList?_eq_map] at hv
  obtain ⟨l, hl, rfl⟩ := Option.mem_map.1 hv
  cases hl
  refine .array fun w hw => ?_
  obtain ⟨p, hp, rfl⟩ := List.mem_map.1 hw
  exact h p hp

/-- Shapes that refer by text can be compared. -/
theorem comparable_toJson {s : Shape} (h : Everywhere RefersByText s) : s.toJson.Comparable := by
  induction h with
  | @intro s here _ ih =>
    rw [comparable_toJson_iff]
    have scalar : ∀ {α : Type} {o : Option α} {f : α → Value}, (∀ x, (f x).Comparable) →
        ∀ v ∈ o.map f, v.Comparable := by
      intro α o f each v hv
      obtain ⟨x, -, rfl⟩ := Option.mem_map.1 hv
      exact each x
    have text : ∀ o : Option Text, ∀ v ∈ o.map Value.text, v.Comparable := fun _ =>
      scalar comparable_text
    have int : ∀ o : Option Int, ∀ v ∈ o.map Value.int, v.Comparable := fun _ =>
      scalar fun _ => .scalar rfl nofun
    cases s
    all_goals simp only [ownFields, List.forall_mem_cons]
    case primitive => exact ⟨text _, text _, List.forall_mem_nil _⟩
    case array =>
      exact ⟨comparable_toJsonOption ih, int _, int _, List.forall_mem_nil _⟩
    case object =>
      refine ⟨comparable_toJsonList? ih, scalar fun l => .array fun v hv => ?_, List.forall_mem_nil _⟩
      obtain ⟨t, -, rfl⟩ := List.mem_map.1 hv
      exact comparable_text t
    case reference =>
      refine ⟨fun v hv => ?_, text _, comparable_toJsonList? ih, List.forall_mem_nil _⟩
      obtain ⟨t, rfl⟩ := here v hv
      exact comparable_text t
    case function =>
      exact ⟨comparable_toJsonList? fun p hp => ih p (List.mem_append_left _ hp),
        comparable_toJsonOption fun p hp => ih p (List.mem_append_right _ hp), List.forall_mem_nil _⟩
    case union =>
      exact ⟨comparable_toJsonList? ih, scalar fun b => .scalar rfl (by simp), List.forall_mem_nil _⟩
    case unknown => exact List.forall_mem_nil _

end Shape

namespace Operand

/-! ## Plain values -/

mutual

/-- An operand as a plain value. -/
def plain : Operand → Value
  | .value v => v
  | .list items => .array (plainItems items)
  | .tuple items => .array (plainItems items)
  | .object members => .object (plainMembers members)
  | .shape s => s.toJson

def plainItems : List Operand → List Value
  | [] => []
  | item :: rest => plain item :: plainItems rest

def plainMembers : List (Text × Operand) → List (Text × Value)
  | [] => []
  | (key, v) :: rest => (key, plain v) :: plainMembers rest

end

/-- The plain value that is viewed. -/
def View.plain : View → Value
  | .scalar v => v
  | .listed l => .array (plainItems l)
  | .keyed l => .object (plainMembers l)

private theorem View.plain_ofValue (v : Value) : (View.ofValue v).plain = v := by
  cases v with
  | array items =>
    have same : ∀ l : List Value, plainItems (l.map .value) = l := by
      intro l
      induction l with
      | nil => rfl
      | cons v rest ih => rw [List.map_cons, plainItems, ih, Operand.plain]
    exact congrArg Value.array (same items)
  | object members =>
    have same : ∀ l : List (Text × Value), plainMembers (l.map fun m => (m.1, .value m.2)) = l := by
      intro l
      induction l with
      | nil => rfl
      | cons m rest ih => rw [List.map_cons, plainMembers, ih, Operand.plain]
    exact congrArg Value.object (same members)
  | _ => rfl

theorem plain_view (a : Operand) : a.view.plain = a.plain := by
  cases a with
  | value v => exact View.plain_ofValue v
  | shape s => exact View.plain_ofValue s.toJson
  | list | tuple | object => rfl

/-- What is viewed as a scalar holds nothing. -/
private theorem isContainer_of_view {a : Operand} {v : Value} (h : a.view = .scalar v) :
    v.isContainer = false := by
  have ofValue : ∀ w : Value, View.ofValue w = .scalar v → v.isContainer = false := by
    intro w hw
    cases w <;> cases hw <;> rfl
  cases a with
  | value w => exact ofValue w h
  | shape s => exact ofValue s.toJson h
  | list | tuple | object => cases h

private theorem plainMembers_length (l : List (Text × Operand)) : (plainMembers l).length = l.length := by
  induction l with
  | nil => rfl
  | cons m rest ih => rw [plainMembers, List.length_cons, ih, List.length_cons]

private theorem lookup_plainMembers (key : Text) (l : List (Text × Operand)) :
    (plainMembers l).lookup key = (l.lookup key).map plain := by
  induction l with
  | nil => rfl
  | cons m rest ih =>
    rw [plainMembers, List.lookup_cons, List.lookup_cons, ih]
    cases key == m.1 <;> rfl

private theorem strictEq_eq_false {v w : Value} (h : v.isContainer ≠ w.isContainer) :
    v.strictEq w = false := by
  cases v <;> cases w <;> first | rfl | exact absurd rfl h

/-- Views of two sorts are never equal. -/
private theorem View.strictEq_plain {x y : View} (hx : ∀ v, x = .scalar v → v.isContainer = false)
    (hy : ∀ v, y = .scalar v → v.isContainer = false)
    (sorts : x.ctorIdx ≠ y.ctorIdx) : x.plain.strictEq y.plain = false := by
  cases x with
  | scalar v =>
    have hv := hx v rfl
    cases y with
    | scalar w => exact absurd rfl sorts
    | listed | keyed => exact strictEq_eq_false (hv ▸ Bool.false_ne_true)
  | listed l =>
    cases y with
    | scalar w =>
      have hw := hy w rfl
      exact strictEq_eq_false (hw ▸ Bool.false_ne_true.symm)
    | listed l' => exact absurd rfl sorts
    | keyed l' => rfl
  | keyed l =>
    cases y with
    | scalar w =>
      have hw := hy w rfl
      exact strictEq_eq_false (hw ▸ Bool.false_ne_true.symm)
    | listed l' => rfl
    | keyed l' => exact absurd rfl sorts

mutual

/-- Operands are compared as the values that they stand for. -/
theorem strictEq_eq_plain (a b : Operand) : a.strictEq b = a.plain.strictEq b.plain := by
  rw [strictEq, ← plain_view a, ← plain_view b]
  split
  · rename_i as bs ha hb
    have below := itemsSize_lt_of_view ha
    rw [ha, hb, View.plain, View.plain, Value.strictEq, strictEqItems_eq_plain]
  · rename_i as bs ha hb
    have below := membersSize_lt_of_view ha
    rw [ha, hb, View.plain, View.plain, Value.strictEq, strictEqMembers_eq_plain, plainMembers_length,
      plainMembers_length]
  · rename_i v w ha hb
    rw [ha, hb, View.plain, View.plain]
  · rename_i listed keyed scalar
    refine (View.strictEq_plain (fun _ => isContainer_of_view) (fun _ => isContainer_of_view) ?_).symm
    intro sorts
    cases ha : a.view <;> cases hb : b.view <;> rw [ha, hb] at sorts
    case scalar.scalar => exact scalar _ _ ha hb
    case listed.listed => exact listed _ _ ha hb
    case keyed.keyed => exact keyed _ _ ha hb
    all_goals cases sorts
termination_by a.size

theorem strictEqItems_eq_plain (as bs : List Operand) :
    strictEqItems as bs = Value.strictEqItems (plainItems as) (plainItems bs) := by
  match as, bs with
  | [], [] => rw [strictEqItems, plainItems, Value.strictEqItems]
  | a :: as, b :: bs =>
    rw [strictEqItems, plainItems, plainItems, Value.strictEqItems, strictEq_eq_plain,
      strictEqItems_eq_plain]
  | [], b :: bs => rw [strictEqItems, plainItems, plainItems, Value.strictEqItems] <;> simp
  | a :: as, [] => rw [strictEqItems, plainItems, plainItems, Value.strictEqItems] <;> simp
termination_by itemsSize as
decreasing_by
  all_goals
    simp only [itemsSize]
    omega

theorem strictEqMembers_eq_plain (as bs : List (Text × Operand)) :
    strictEqMembers as bs = Value.strictEqMembers (plainMembers as) (plainMembers bs) := by
  match as with
  | [] => rw [strictEqMembers, plainMembers, Value.strictEqMembers]
  | (key, a) :: rest =>
    rw [strictEqMembers, plainMembers, Value.strictEqMembers, lookup_plainMembers]
    cases bs.lookup key with
    | none => rfl
    | some b =>
      dsimp only [Option.map_some]
      rw [strictEq_eq_plain, strictEqMembers_eq_plain]
termination_by membersSize as
decreasing_by
  all_goals
    simp only [membersSize]
    omega

end

/-! ## Operands that can be compared -/

/-- What is built from numbers that are numbers, and from objects that repeat no key. -/
inductive Comparable : Operand → Prop
  | value {v : Value} : v.Comparable → Comparable (.value v)
  | list {items : List Operand} : (∀ x ∈ items, x.Comparable) → Comparable (.list items)
  | tuple {items : List Operand} : (∀ x ∈ items, x.Comparable) → Comparable (.tuple items)
  | object {members : List (Text × Operand)} : (members.map (·.1)).Nodup →
    (∀ m ∈ members, m.2.Comparable) → Comparable (.object members)
  | shape {s : Shape} : s.toJson.Comparable → Comparable (.shape s)

private theorem plainItems_eq_map (l : List Operand) : plainItems l = l.map plain := by
  induction l with
  | nil => rfl
  | cons x rest ih => rw [plainItems, ih, List.map_cons]

private theorem plainMembers_eq_map (l : List (Text × Operand)) :
    plainMembers l = l.map fun m => (m.1, m.2.plain) := by
  induction l with
  | nil => rfl
  | cons m rest ih => rw [plainMembers, ih, List.map_cons]

theorem Comparable.plain {a : Operand} (h : a.Comparable) : a.plain.Comparable := by
  induction h with
  | value h | shape h => exact h
  | list _ ih | tuple _ ih =>
    rw [Operand.plain, plainItems_eq_map]
    refine .array fun v hv => ?_
    obtain ⟨x, hx, rfl⟩ := List.mem_map.1 hv
    exact ih x hx
  | object nodup _ ih =>
    rw [Operand.plain, plainMembers_eq_map]
    refine .object ?_ fun e he => ?_
    · simpa [Table.keys, Function.comp_def] using nodup
    · obtain ⟨m, hm, rfl⟩ := List.mem_map.1 he
      exact ih m hm

variable {a b c : Operand}

theorem strictEq_refl (h : a.Comparable) : a.strictEq a := by
  have := h.plain
  rw [strictEq_eq_plain]
  exact (Value.strictEq_self_iff this.hasDistinctKeys).2 this

theorem strictEq_symm (ha : a.Comparable) (hb : b.Comparable) (h : a.strictEq b) : b.strictEq a := by
  rw [strictEq_eq_plain] at h ⊢
  exact Value.strictEq_symm ha.plain.hasDistinctKeys hb.plain.hasDistinctKeys h

theorem strictEq_trans (hab : a.strictEq b) (hbc : b.strictEq c) : a.strictEq c := by
  rw [strictEq_eq_plain] at hab hbc ⊢
  exact Value.strictEq_trans hab hbc

theorem strictEq_shape_iff {s t : Shape} : (Operand.shape s).strictEq (.shape t) ↔ s.strictEq t := by
  rw [strictEq_eq_plain]
  rfl

theorem strictEq_list_tuple {items : List Operand} (h : ∀ x ∈ items, x.Comparable) :
    (Operand.list items).strictEq (.tuple items) := by
  have same := strictEq_refl (.list h)
  rwa [strictEq_eq_plain] at same ⊢

theorem strictEq_toJson {s : Shape} (h : s.toJson.Comparable) :
    (Operand.shape s).strictEq (.value s.toJson) := by
  have same := strictEq_refl (.shape h)
  rwa [strictEq_eq_plain] at same ⊢

/-- Comparison is an equivalence of all that can be compared. It cannot tell a list from a tuple, nor a
shape from its JSON object; and shapes that refer by text can be compared, and are equal only if they
are the same. -/
theorem strictEq_structural :
    Equivalence (fun a b : {a : Operand // a.Comparable} => a.1.strictEq b.1 = true) ∧
      (∀ items : List Operand, (∀ x ∈ items, x.Comparable) →
        (Operand.list items).strictEq (.tuple items)) ∧
      (∀ s : Shape, s.toJson.Comparable → (Operand.shape s).strictEq (.value s.toJson)) ∧
      (∀ s : Shape, (∀ n, s.IsNode n → n.RefersByText) → s.toJson.Comparable) ∧
      ∀ s t : Shape, (∀ n, s.IsNode n → n.RefersByText) → (∀ n, t.IsNode n → n.RefersByText) →
        ((Operand.shape s).strictEq (.shape t) ↔ s = t) ∧ (s.toJson = t.toJson ↔ s = t) := by
  refine ⟨⟨fun a => strictEq_refl a.2, fun {a b} => strictEq_symm a.2 b.2, strictEq_trans⟩,
    fun _ => strictEq_list_tuple, fun _ => strictEq_toJson,
    fun s typed => Shape.comparable_toJson (Shape.everywhere_of_isNode typed), ?_⟩
  intro s t typed typed'
  have same : s.strictEq t ↔ s = t :=
    Shape.strictEq_iff_eq (Shape.everywhere_of_isNode typed) (Shape.everywhere_of_isNode typed')
  refine ⟨strictEq_shape_iff.trans same, fun json => same.1 ?_, congrArg Shape.toJson⟩
  have self : s.strictEq s :=
    (Shape.strictEq_iff_eq (Shape.everywhere_of_isNode typed) (Shape.everywhere_of_isNode typed)).2 rfl
  rwa [Shape.strictEq, json] at self ⊢

/-- An array of references by text. -/
def tabs (optional : Bool) : Shape :=
  .array { optional } (some (.reference {} (some (.text "Tab")) none none)) (some 1) none

theorem strictEq_structural_tabs :
    (tabs true).toJson.Comparable ∧
      (Operand.list [.shape (tabs true)]).strictEq (.tuple [.shape (tabs true)]) ∧
      (Operand.shape (tabs true)).strictEq (.value (tabs true).toJson) ∧
      ¬ (Operand.shape (tabs true)).strictEq (.shape (tabs false)) := by
  obtain ⟨-, tuple, json, comparable, same⟩ := strictEq_structural
  have typed : ∀ optional n, (tabs optional).IsNode n → n.RefersByText := fun optional n hn =>
    Shape.Everywhere.of_isNode (.intro trivial (by
      simp only [tabs, Shape.parts, Option.toList_some, List.forall_mem_singleton]
      exact .intro (by simp [Shape.RefersByText]) (by simp [Shape.parts]))) hn
  have inside := comparable (tabs true) (typed true)
  refine ⟨inside, tuple _ (List.forall_mem_singleton.2 (.shape inside)), json _ inside, fun equal => ?_⟩
  cases (same _ _ (typed true) (typed false)).1.1 equal

end Operand

end DocShape
