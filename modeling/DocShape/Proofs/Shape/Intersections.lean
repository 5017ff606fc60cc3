import DocShape.Proofs.Shape.FixedArray
import DocShape.Proofs.Shape.Operands

/-!
Laws of intersections. Where it is defined, the intersection of two arrays allows the lengths that both
allow; as a partial operation it is commutative and associative, and it is idempotent just at the arrays
that equal themselves (`intersect?_laws`).
-/

namespace DocShape.Shape

open Json

/-! ## Elements -/

/-- The shape of the items of an array. -/
def element? : Shape → Option Shape
  | array _ element .. => element
  | _ => none

/-- An array whose bounds are absent or at least one, and whose JSON object repeats no key. -/
structure BoundedArray (s : Shape) : Prop where
  tag : s.tag = ("array" : Text)
  bounds : s.BoundsPositive
  distinct : s.toJson.hasDistinctKeys

section

variable {o o' o'' : Option Shape}

private theorem strictEqOption_iff :
    strictEqOption o o' ↔ Option.Rel (fun s t => s.strictEq t = true) o o' := by
  cases o <;> cases o' <;> simp [strictEqOption]

theorem strictEqOption_symm (h : ∀ s ∈ o, s.toJson.hasDistinctKeys)
    (h' : ∀ s ∈ o', s.toJson.hasDistinctKeys) (same : strictEqOption o o') :
    strictEqOption o' o := by
  rw [strictEqOption_iff] at same ⊢
  cases same with
  | none => exact .none
  | some same => exact .some (Value.strictEq_symm (h _ rfl) (h' _ rfl) same)

theorem strictEqOption_trans (same : strictEqOption o o') (same' : strictEqOption o' o'') :
    strictEqOption o o'' := by
  rw [strictEqOption_iff] at same same' ⊢
  cases same with
  | none => exact same'
  | some same =>
    cases same' with
    | some same' => exact .some (Value.strictEq_trans same same')

theorem strictEqOption_self_iff (h : ∀ s ∈ o, s.toJson.hasDistinctKeys) :
    strictEqOption o o ↔ ∀ s ∈ o, s.toJson.Comparable := by
  cases o with
  | none => simp [strictEqOption]
  | some s =>
    simp only [Option.mem_def, Option.some.injEq, forall_eq']
    exact Value.strictEq_self_iff (h s rfl)

end

variable {label : Label} {element : Option Shape} {low high : Option Int} {a b c s : Shape}

/-- Of the fields of an array, only the shape of its items is no number. -/
private theorem forall_ownFields_array {P : Value → Prop} (int : ∀ n, P (.int n)) :
    (∀ f ∈ (array label element low high).ownFields, ∀ v ∈ f.2, P v) ↔
      ∀ s ∈ element, P s.toJson := by
  have ints : ∀ o : Option Int, ∀ v ∈ o.map Value.int, P v := by
    intro o v hv
    obtain ⟨n, -, rfl⟩ := Option.mem_map.1 hv
    exact int n
  simp only [ownFields, List.forall_mem_cons]
  rw [toJsonOption_eq_map]
  constructor
  · rintro ⟨h, -⟩ s hs
    exact h _ (Option.mem_map_of_mem _ hs)
  · refine fun h => ⟨fun v hv => ?_, ints low, ints high, List.forall_mem_nil _⟩
    obtain ⟨s, hs, rfl⟩ := Option.mem_map.1 hv
    exact h s hs

theorem boundedArray_iff : (array label element low high).BoundedArray ↔
    ((∀ n ∈ low, 1 ≤ n) ∧ ∀ n ∈ high, 1 ≤ n) ∧ ∀ s ∈ element, s.toJson.hasDistinctKeys := by
  have distinct : (array label element low high).toJson.hasDistinctKeys ↔
      ∀ s ∈ element, s.toJson.hasDistinctKeys :=
    (hasDistinctKeys_toJson_iff _).trans (forall_ownFields_array fun _ => rfl)
  exact ⟨fun h => ⟨h.bounds, distinct.1 h.distinct⟩, fun h => ⟨rfl, h.1, distinct.2 h.2⟩⟩

theorem comparable_array_iff : (array label element low high).toJson.Comparable ↔
    ∀ s ∈ element, s.toJson.Comparable :=
  (comparable_toJson_iff _).trans (forall_ownFields_array fun _ => .scalar rfl nofun)

theorem BoundedArray.exists_eq (h : a.BoundedArray) :
    ∃ label element low high, a = array label element low high := by
  have tag := h.tag
  cases a with
  | array label element low high => exact ⟨label, element, low, high, rfl⟩
  | object _ form => cases form <;> cases tag
  | _ => cases tag

/-! ## Bounds -/

section

variable {x y : Option Int}

theorem greaterBound_eq_merge (hx : ∀ n ∈ x, 1 ≤ n) (hy : ∀ n ∈ y, 1 ≤ n) :
    greaterBound x y = x.merge max y := by
  unfold greaterBound
  cases x with
  | none =>
    cases y with
    | none => rfl
    | some n =>
      have pos := hy n rfl
      rw [Option.getD_none, Option.getD_some, Int.max_eq_right (by omega), bound_of_pos pos]
      rfl
  | some m =>
    have pos := hx m rfl
    cases y with
    | none =>
      rw [Option.getD_none, Option.getD_some, Int.max_eq_left (by omega), bound_of_pos pos]
      rfl
    | some n => exact bound_of_pos (by rw [Option.getD_some, Option.getD_some]; omega)

theorem smallerBound_eq_merge (hx : ∀ n ∈ x, 1 ≤ n) (hy : ∀ n ∈ y, 1 ≤ n) :
    smallerBound x y = x.merge min y := by
  cases x with
  | none =>
    cases y with
    | none => rfl
    | some n => exact bound_of_pos (hy n rfl)
  | some m =>
    have posX := hx m rfl
    cases y with
    | none => exact bound_of_pos posX
    | some n =>
      have posY := hy n rfl
      exact bound_of_pos (by omega)

end

/-! ## Laws -/

/-- The intersection of arrays with positive bounds, by the bounds that are not absent. -/
theorem intersect?_eq {label' : Label} {element' : Option Shape} {low' high' : Option Int}
    (h : (array label element low high).BoundedArray)
    (h' : (array label' element' low' high').BoundedArray) :
    (array label element low high).intersect? (array label' element' low' high') =
      if strictEqOption element element' then
        some (array {} element (low.merge max low') (high.merge min high'))
      else none := by
  rw [intersect?, greaterBound_eq_merge h.bounds.1 h'.bounds.1,
    smallerBound_eq_merge h.bounds.2 h'.bounds.2]

theorem BoundedArray.intersect? (ha : a.BoundedArray) (hb : b.BoundedArray)
    (h : a.intersect? b = some s) : s.BoundedArray := by
  obtain ⟨_, _, _, _, lowA, highA, lowB, highB, rfl, rfl, -, rfl⟩ := intersect?_eq_some h
  rw [boundedArray_iff] at ha ⊢
  exact ⟨⟨greaterBound_pos ha.1.1 hb.bounds.1, smallerBound_pos ha.1.2 hb.bounds.2⟩, ha.2⟩

theorem isSome_intersect?_iff (ha : a.BoundedArray) (hb : b.BoundedArray) :
    (a.intersect? b).isSome ↔ strictEqOption a.element? b.element? := by
  obtain ⟨_, _, _, _, rfl⟩ := ha.exists_eq
  obtain ⟨_, _, _, _, rfl⟩ := hb.exists_eq
  simp [Shape.intersect?, element?]

theorem intersect?_comm (ha : a.BoundedArray) (hb : b.BoundedArray) :
    strictEqOption (a.intersect? b) (b.intersect? a) := by
  obtain ⟨_, elementA, lowA, highA, rfl⟩ := ha.exists_eq
  obtain ⟨_, elementB, lowB, highB, rfl⟩ := hb.exists_eq
  have distinctA := (boundedArray_iff.1 ha).2
  have distinctB := (boundedArray_iff.1 hb).2
  rw [intersect?_eq ha hb, intersect?_eq hb ha]
  by_cases same : strictEqOption elementA elementB
  · have same' := strictEqOption_symm distinctA distinctB same
    rw [if_pos same, if_pos same', strictEqOption, strictEq_array_iff]
    exact ⟨rfl, same, Std.Commutative.comm .., Std.Commutative.comm ..⟩
  · have other : ¬ strictEqOption elementB elementA := fun same' =>
      same (strictEqOption_symm distinctB distinctA same')
    rw [if_neg same, if_neg other]
    rfl

theorem intersect?_assoc (ha : a.BoundedArray) (hb : b.BoundedArray) (hc : c.BoundedArray) :
    strictEqOption ((a.intersect? b).bind (·.intersect? c))
      ((b.intersect? c).bind (a.intersect? ·)) := by
  obtain ⟨_, elementA, lowA, highA, rfl⟩ := ha.exists_eq
  obtain ⟨_, elementB, lowB, highB, rfl⟩ := hb.exists_eq
  obtain ⟨_, elementC, lowC, highC, rfl⟩ := hc.exists_eq
  have symm : strictEqOption elementA elementB → strictEqOption elementB elementA :=
    strictEqOption_symm (boundedArray_iff.1 ha).2 (boundedArray_iff.1 hb).2
  rw [intersect?_eq ha hb, intersect?_eq hb hc]
  by_cases sameAB : strictEqOption elementA elementB
  · have left := ha.intersect? hb ((intersect?_eq ha hb).trans (if_pos sameAB))
    rw [if_pos sameAB, Option.bind_some, intersect?_eq left hc]
    by_cases sameBC : strictEqOption elementB elementC
    · have right := hb.intersect? hc ((intersect?_eq hb hc).trans (if_pos sameBC))
      rw [if_pos sameBC, Option.bind_some, intersect?_eq ha right, if_pos sameAB,
        if_pos (strictEqOption_trans sameAB sameBC), strictEqOption, strictEq_array_iff]
      exact ⟨rfl, strictEqOption_trans sameAB (symm sameAB), Std.Associative.assoc ..,
        Std.Associative.assoc ..⟩
    · have other : ¬ strictEqOption elementA elementC := fun sameAC =>
        sameBC (strictEqOption_trans (symm sameAB) sameAC)
      rw [if_neg sameBC, if_neg other]
      rfl
  · rw [if_neg sameAB, Option.bind_none]
    by_cases sameBC : strictEqOption elementB elementC
    · have right := hb.intersect? hc ((intersect?_eq hb hc).trans (if_pos sameBC))
      rw [if_pos sameBC, Option.bind_some, intersect?_eq ha right, if_neg sameAB]
      rfl
    · rw [if_neg sameBC]
      rfl

theorem intersect?_self_iff (ha : a.BoundedArray) :
    a.intersect? a = some (a.withLabel {}) ↔ a.toJson.Comparable := by
  obtain ⟨label, element, low, high, rfl⟩ := ha.exists_eq
  rw [comparable_array_iff, ← strictEqOption_self_iff (boundedArray_iff.1 ha).2, intersect?_eq ha ha,
    (Option.idempotentOp_merge max).idempotent, (Option.idempotentOp_merge min).idempotent, withLabel]
  simp

/-- The intersection of two arrays with positive bounds is defined just if their elements are equal. It
has positive bounds and allows the lengths that both allow, and up to equality it does not depend on order
or grouping. An array with itself gives the array without its label, just if the array equals itself. -/
theorem intersect?_laws (ha : a.BoundedArray) (hb : b.BoundedArray) (hc : c.BoundedArray) :
    ((a.intersect? b).isSome ↔ strictEqOption a.element? b.element?) ∧
      (∀ s ∈ a.intersect? b, s.BoundedArray ∧
        ∀ length, s.Allows length ↔ a.Allows length ∧ b.Allows length) ∧
      strictEqOption (a.intersect? b) (b.intersect? a) ∧
      strictEqOption ((a.intersect? b).bind (·.intersect? c))
        ((b.intersect? c).bind (a.intersect? ·)) ∧
      (a.intersect? a = some (a.withLabel {}) ↔ a.toJson.Comparable) :=
  ⟨isSome_intersect?_iff ha hb,
    fun _ hs => ⟨ha.intersect? hb hs, allows_of_intersect? ha.bounds hb.bounds hs⟩,
    intersect?_comm ha hb, intersect?_assoc ha hb hc, intersect?_self_iff ha⟩

/-- An array of texts. -/
def textArray (label : Label) (low high : Option Int) : Shape :=
  .array label (some (.primitive {} (some "string") none)) low high

theorem intersect?_laws_textArray :
    let a := textArray { optional := true } (some 2) none
    let b := textArray {} none (some 3)
    a.BoundedArray ∧ b.BoundedArray ∧
      (∀ length, (textArray {} (some 2) (some 3)).Allows length ↔ a.Allows length ∧ b.Allows length) ∧
      a.intersect? a = some (textArray {} (some 2) none) := by
  intro a b
  have texts : ∀ s ∈ some (Shape.primitive {} (some "string") none), s.toJson.hasDistinctKeys := by
    rintro _ ⟨⟩
    rfl
  have ha : a.BoundedArray := boundedArray_iff.2 ⟨by simp, texts⟩
  have hb : b.BoundedArray := boundedArray_iff.2 ⟨by simp, texts⟩
  obtain ⟨-, meet, -, -, self⟩ := intersect?_laws ha hb ha
  exact ⟨ha, hb, (meet _ rfl).2, self.2 ((Value.strictEq_self_iff ha.distinct).1 rfl)⟩

/-- An array of references to what is no number, which has no intersection with itself. -/
def unequalArray : Shape :=
  .array {} (some (.reference {} (some (.float .nan)) none none)) none none

theorem intersect?_unequalArray :
    unequalArray.BoundedArray ∧ unequalArray.intersect? unequalArray ≠ some (unequalArray.withLabel {}) := by
  refine ⟨boundedArray_iff.2 ⟨by simp, ?_⟩, ?_⟩
  · rintro _ ⟨⟩
    rfl
  · intro same
    cases same.symm.trans (show unequalArray.intersect? unequalArray = none from rfl)

end DocShape.Shape
