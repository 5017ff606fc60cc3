import DocShape.Shape.Draft

/-!
The nodes of a shape. `Shape.Everywhere` says something of all of them, from the top to the parts, and
`Everywhere.of_isNode` reads it at each node.
-/

namespace DocShape.Shape

/-- The shapes right inside a shape. -/
def parts : Shape → List Shape
  | primitive .. | unknown _ => []
  | array _ element _ _ => element.toList
  | object _ _ properties _ => properties.getD []
  | reference _ _ _ templates => templates.getD []
  | function _ parameters returnType => parameters.getD [] ++ returnType.toList
  | union _ options _ => options.getD []

/-- A node of a shape: the shape itself, or a part of one of its nodes. -/
inductive IsNode (root : Shape) : Shape → Prop
  | root : IsNode root root
  | part {s p : Shape} : IsNode root s → p ∈ s.parts → IsNode root p

/-- All nodes of a shape have a property. -/
inductive Everywhere (P : Shape → Prop) : Shape → Prop
  | intro {s : Shape} : P s → (∀ p ∈ s.parts, Everywhere P p) → Everywhere P s

variable {P : Shape → Prop} {s : Shape}

theorem Everywhere.here (h : Everywhere P s) : P s := by
  cases h
  assumption

theorem Everywhere.parts (h : Everywhere P s) : ∀ p ∈ s.parts, Everywhere P p := by
  cases h
  assumption

theorem Everywhere.of_isNode (h : Everywhere P s) {n : Shape} (hn : IsNode s n) : P n := by
  suffices Everywhere P n from this.here
  induction hn with
  | root => exact h
  | part _ hp ih => exact ih.parts _ hp

theorem IsNode.of_part {p n : Shape} (hp : p ∈ s.parts) (hn : p.IsNode n) : s.IsNode n := by
  induction hn with
  | root => exact .part .root hp
  | part _ hp' ih => exact .part ih hp'

theorem sizeOf_lt_of_mem_parts {p : Shape} (hp : p ∈ s.parts) : sizeOf p < sizeOf s := by
  have below : ∀ l : Option (List Shape), p ∈ l.getD [] → sizeOf p < sizeOf l := by
    rintro (_ | l) hp
    · cases hp
    · rw [Option.getD_some] at hp
      have := List.sizeOf_lt_of_mem hp
      simp only [Option.some.sizeOf_spec]
      omega
  have within : ∀ o : Option Shape, p ∈ o.toList → sizeOf p < sizeOf o := by
    rintro o hp
    cases Option.mem_toList.1 hp
    simp
  cases s with
  | primitive | unknown => cases hp
  | array label element low high =>
    have := within element hp
    simp only [array.sizeOf_spec]
    omega
  | object label form properties templates =>
    have := below properties hp
    simp only [object.sizeOf_spec]
    omega
  | reference label type link templates =>
    have := below templates hp
    simp only [reference.sizeOf_spec]
    omega
  | function label parameters returnType =>
    simp only [function.sizeOf_spec]
    rcases List.mem_append.1 hp with hp | hp
    · have := below parameters hp
      omega
    · have := within returnType hp
      omega
  | union label options isEnum =>
    have := below options hp
    simp only [union.sizeOf_spec]
    omega

theorem everywhere_of_isNode {s : Shape} (h : ∀ n, IsNode s n → P n) : Everywhere P s :=
  .intro (h s .root) fun p hp => everywhere_of_isNode fun n hn => h n (.of_part hp hn)
termination_by sizeOf s
decreasing_by exact sizeOf_lt_of_mem_parts hp

/-! ## Labels -/

@[simp] theorem label_withLabel (l : Label) (s : Shape) : (s.withLabel l).label = l := by
  cases s <;> rfl

@[simp] theorem parts_withLabel (l : Label) (s : Shape) : (s.withLabel l).parts = s.parts := by
  cases s <;> rfl

@[simp] theorem withLabel_withLabel (l l' : Label) (s : Shape) :
    (s.withLabel l).withLabel l' = s.withLabel l' := by
  cases s <;> rfl

theorem withLabel_label (s : Shape) : s.withLabel s.label = s := by
  cases s <;> rfl

theorem withLabel_withoutReturn (l : Label) (s : Shape) :
    s.withoutReturn.withLabel l = (s.withLabel l).withoutReturn := by
  cases s <;> rfl

@[simp] theorem withoutReturn_withoutReturn (s : Shape) :
    s.withoutReturn.withoutReturn = s.withoutReturn := by
  cases s <;> rfl

@[simp] theorem label_withoutReturn (s : Shape) : s.withoutReturn.label = s.label := by
  cases s <;> rfl

theorem mem_parts_withoutReturn {p : Shape} (h : p ∈ s.withoutReturn.parts) : p ∈ s.parts := by
  cases s <;> try exact h
  simp only [withoutReturn, Shape.parts, Option.toList_none, List.append_nil] at h
  exact List.mem_append_left _ h

end DocShape.Shape
