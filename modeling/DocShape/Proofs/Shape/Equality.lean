import DocShape.Proofs.Json.Equality
import DocShape.Proofs.Shape.Parts
import DocShape.Shape.Equality

/-!
Shapes whose references go by text are equal as JSON objects only if they are one shape
(`strictEq_iff_eq`). Any other value can name a reference, too, and those are compared as values.
-/

namespace DocShape.Shape

open Json

/-! ## Fields -/

/-- The fields that every shape has. -/
def labelFields (tag : Text) (label : Label) : List (Text × Option Value) :=
  [("type", some (.text tag)), ("name", label.name.map .text),
    ("comment", label.comment.map .text),
    ("optional", if label.optional then some (.bool true) else none)]

/-- The fields that belong to the tag of a shape. -/
def ownFields : Shape → List (Text × Option Value)
  | primitive _ type value =>
    [("primitiveType", type.map .text), ("literalValue", value.map .text)]
  | array _ element low high =>
    [("elementType", toJsonOption element), ("minLength", low.map .int),
      ("maxLength", high.map .int)]
  | object _ _ properties templates =>
    [("properties", toJsonList? properties),
      ("templates", templates.map fun l => .array (l.map .text))]
  | reference _ type link templates =>
    [("referenceType", type), ("referenceLink", link.map .text),
      ("referenceTemplates", toJsonList? templates)]
  | function _ parameters returnType =>
    [("parameters", toJsonList? parameters), ("returnType", toJsonOption returnType)]
  | union _ options isEnum => [("options", toJsonList? options), ("isEnum", isEnum.map .bool)]
  | unknown _ => []

theorem toJsonOption_eq_map (o : Option Shape) : toJsonOption o = o.map toJson := by
  cases o <;> rfl

theorem toJsonList?_eq_map (o : Option (List Shape)) :
    toJsonList? o = o.map fun l => .array (l.map toJson) := by
  have each : ∀ l, toJsonList l = l.map toJson := by
    intro l
    induction l with
    | nil => rfl
    | cons s rest ih => rw [toJsonList, ih, List.map_cons]
  cases o with
  | none => rfl
  | some l => rw [toJsonList?, each, Option.map_some]

private theorem present_eq_foldl (fields : List (Text × Option Value)) :
    present fields = fields.foldl (fun members f => members ++ match f.2 with
      | none => []
      | some v => [(f.1, v)]) [] := by
  rw [present, List.filterMap_eq_flatMap_toList, List.flatMap_eq_foldl]
  congr
  funext members f
  cases f.2 <;> rfl

/-- A shape is written as the fields that it has, in one order for each tag. -/
theorem toJson_eq (s : Shape) :
    s.toJson = .object (present (labelFields s.tag s.label ++ s.ownFields)) := by
  rw [present_eq_foldl]
  cases s with
  | object _ form => cases form <;> rfl
  | _ => rfl

theorem nodup_keys (s : Shape) :
    ((labelFields s.tag s.label ++ s.ownFields).map (·.1)).Nodup := by
  cases s <;> exact of_decide_eq_true rfl

theorem tag_eq_of_strictEq {a b : Shape} (h : a.strictEq b) : a.tag = b.tag := by
  rw [strictEq, toJson_eq, toJson_eq, strictEq_object_iff
    ((nodup_keys a).sublist keys_present_sublist) ((nodup_keys b).sublist keys_present_sublist)] at h
  have tags := h "type"
  rw [get?_present (nodup_keys a) (List.mem_cons_self ..),
    get?_present (nodup_keys b) (List.mem_cons_self ..)] at tags
  cases tags with
  | some same => simpa [Value.strictEq] using same

/-! ## Fields that are equal -/

private theorem alike_map_iff {α : Type} {f : α → Value} {o o' : Option α}
    (h : ∀ a ∈ o, ∀ b ∈ o', (f a).strictEq (f b) ↔ a = b) :
    AlikeFields (o.map f) (o'.map f) ↔ o = o' := by
  cases o <;> cases o' <;> simp_all [AlikeFields]

private theorem strictEq_map_iff {α : Type} {f : α → Value} {l l' : List α}
    (h : ∀ a ∈ l, ∀ b ∈ l', (f a).strictEq (f b) ↔ a = b) :
    (Value.array (l.map f)).strictEq (.array (l'.map f)) ↔ l = l' := by
  rw [Value.strictEq]
  induction l generalizing l' with
  | nil => cases l' <;> simp [Value.strictEqItems]
  | cons a l ih =>
    cases l' with
    | nil => simp [Value.strictEqItems]
    | cons b l' =>
      rw [List.map_cons, List.map_cons, Value.strictEqItems, Bool.and_eq_true,
        h a (List.mem_cons_self ..) b (List.mem_cons_self ..),
        ih fun a ha b hb => h a (List.mem_cons_of_mem _ ha) b (List.mem_cons_of_mem _ hb),
        List.cons.injEq]

private theorem alike_text_iff {o o' : Option Text} :
    AlikeFields (o.map .text) (o'.map .text) ↔ o = o' :=
  alike_map_iff fun a _ b _ => by simp [Value.strictEq]

private theorem alike_texts_iff {o o' : Option (List Text)} :
    AlikeFields (o.map fun l => .array (l.map .text)) (o'.map fun l => .array (l.map .text)) ↔
      o = o' :=
  alike_map_iff fun _ _ _ _ => strictEq_map_iff fun a _ b _ => by simp [Value.strictEq]

private theorem alike_int_iff {o o' : Option Int} :
    AlikeFields (o.map .int) (o'.map .int) ↔ o = o' :=
  alike_map_iff fun a _ b _ => by simp [Value.strictEq]

private theorem alike_bool_iff {o o' : Option Bool} :
    AlikeFields (o.map .bool) (o'.map .bool) ↔ o = o' :=
  alike_map_iff fun a _ b _ => by simp [Value.strictEq]

private theorem alike_option_iff {o o' : Option Shape}
    (h : ∀ p ∈ o.toList, ∀ q ∈ o'.toList, p.strictEq q ↔ p = q) :
    AlikeFields (toJsonOption o) (toJsonOption o') ↔ o = o' := by
  rw [toJsonOption_eq_map, toJsonOption_eq_map]
  exact alike_map_iff fun p hp q hq => h p (by simpa using hp) q (by simpa using hq)

private theorem alike_list_iff {o o' : Option (List Shape)}
    (h : ∀ p ∈ o.getD [], ∀ q ∈ o'.getD [], p.strictEq q ↔ p = q) :
    AlikeFields (toJsonList? o) (toJsonList? o') ↔ o = o' := by
  rw [toJsonList?_eq_map, toJsonList?_eq_map]
  refine alike_map_iff fun l hl l' hl' => strictEq_map_iff fun p hp q hq => ?_
  cases hl
  cases hl'
  exact h p hp q hq

/-- Of two shapes with the same fields, all fields have to be equal. -/
private theorem strictEq_iff {a b : Shape} (keys : a.ownFields.map (·.1) = b.ownFields.map (·.1)) :
    a.strictEq b ↔ a.tag = b.tag ∧ a.label = b.label ∧
      List.Forall₂ (fun f g => AlikeFields f.2 g.2) a.ownFields b.ownFields := by
  have optional : ∀ x y : Bool, AlikeFields (if x then some (.bool true) else none)
      (if y then some (.bool true) else none) ↔ x = y := by
    rintro (_ | _) (_ | _) <;> simp [AlikeFields, Value.strictEq]
  rw [strictEq, toJson_eq, toJson_eq, strictEq_present_iff (by simp [labelFields, keys]) (nodup_keys a)]
  simp only [labelFields, List.cons_append, List.nil_append, List.forall₂_cons, alike_text_iff,
    optional]
  obtain ⟨_, _, _⟩ := a.label
  obtain ⟨_, _, _⟩ := b.label
  simp [AlikeFields, Value.strictEq, and_assoc]

theorem strictEq_array_iff {label label' : Label} {element element' : Option Shape}
    {low low' high high' : Option Int} :
    (array label element low high).strictEq (array label' element' low' high') ↔
      label = label' ∧ strictEqOption element element' ∧ low = low' ∧ high = high' := by
  have elements : AlikeFields (toJsonOption element) (toJsonOption element') ↔
      strictEqOption element element' := by
    cases element <;> cases element' <;> simp [AlikeFields, toJsonOption, strictEqOption, strictEq]
  rw [strictEq_iff (by rfl)]
  simp [ownFields, elements, alike_int_iff, Shape.label, tag]

/-! ## Equal shapes -/

/-- What a reference refers to is text. -/
def RefersByText : Shape → Prop
  | reference _ type _ _ => ∀ v ∈ type, ∃ t : Text, v = .text t
  | _ => True

private theorem alike_reference_iff {type type' : Option Value} (h : ∀ v ∈ type, ∃ t : Text, v = .text t)
    (h' : ∀ v ∈ type', ∃ t : Text, v = .text t) : AlikeFields type type' ↔ type = type' := by
  have texts : ∀ o : Option Value, (∀ v ∈ o, ∃ t : Text, v = .text t) →
      ∃ t : Option Text, o = t.map .text := by
    rintro (_ | v) hv
    · exact ⟨none, rfl⟩
    · obtain ⟨t, rfl⟩ := hv v rfl
      exact ⟨some t, rfl⟩
  obtain ⟨t, rfl⟩ := texts type h
  obtain ⟨t', rfl⟩ := texts type' h'
  rw [alike_text_iff, (Option.map_injective fun _ _ => Value.text.inj).eq_iff]

/-- The kind of shape that a tag belongs to. -/
private def sortOfTag? (tag : Text) : Option Nat :=
  List.lookup tag [("primitive", 0), ("array", 1), ("object", 2), ("type", 2), ("reference", 3),
    ("function", 4), ("union", 5), ("?", 6)]

private theorem sortOfTag?_tag (s : Shape) : sortOfTag? s.tag = some s.ctorIdx := by
  cases s with
  | object _ form => cases form <;> rfl
  | _ => rfl

private theorem ctorIdx_eq_of_strictEq {a b : Shape} (h : a.strictEq b) : a.ctorIdx = b.ctorIdx := by
  have sorts := congrArg sortOfTag? (tag_eq_of_strictEq h)
  rwa [sortOfTag?_tag, sortOfTag?_tag, Option.some.injEq] at sorts

/-- Two shapes are equal whose fields are, as the parts of both are equal only if they are the same. -/
private theorem strictEq_iff_eq_of_parts {a b : Shape} (ha : a.RefersByText) (hb : b.RefersByText)
    (parts : ∀ p ∈ a.parts, ∀ q ∈ b.parts, p.strictEq q ↔ p = q) : a.strictEq b ↔ a = b := by
  cases a <;> cases b
  case primitive.primitive =>
    rw [strictEq_iff (by rfl)]
    simp [ownFields, alike_text_iff, label, tag]
  case array.array =>
    rw [strictEq_iff (by rfl)]
    simp [ownFields, alike_option_iff parts, alike_int_iff, label, tag]
  case object.object label form properties templates label' form' properties' templates' =>
    have forms : (object label form properties templates).tag =
        (object label' form' properties' templates').tag ↔ form = form' := by
      cases form <;> cases form' <;> simp [tag] <;> decide
    rw [strictEq_iff (by rfl), forms]
    simp [ownFields, alike_list_iff parts, alike_texts_iff, Shape.label, and_left_comm]
  case reference.reference =>
    rw [strictEq_iff (by rfl)]
    simp [ownFields, alike_list_iff parts, alike_reference_iff ha hb, alike_text_iff, label, tag]
  case function.function =>
    have parameters := fun p hp q hq => parts p (List.mem_append_left _ hp) q (List.mem_append_left _ hq)
    have returnType := fun p hp q hq =>
      parts p (List.mem_append_right _ hp) q (List.mem_append_right _ hq)
    rw [strictEq_iff (by rfl)]
    simp [ownFields, alike_list_iff parameters, alike_option_iff returnType, label, tag]
  case union.union =>
    rw [strictEq_iff (by rfl)]
    simp [ownFields, alike_list_iff parts, alike_bool_iff, label, tag]
  case unknown.unknown =>
    rw [strictEq_iff (by rfl)]
    simp [ownFields, label, tag]
  all_goals
    constructor
    · intro h
      cases ctorIdx_eq_of_strictEq h
    · rintro ⟨⟩

/-- Shapes that refer by text are equal only if they are the same, by recursion on their parts. -/
theorem strictEq_iff_eq {a b : Shape} (ha : Everywhere RefersByText a)
    (hb : Everywhere RefersByText b) : a.strictEq b ↔ a = b :=
  strictEq_iff_eq_of_parts ha.here hb.here fun p hp q hq =>
    strictEq_iff_eq (ha.parts p hp) (hb.parts q hq)
termination_by sizeOf a
decreasing_by exact sizeOf_lt_of_mem_parts hp

end DocShape.Shape
