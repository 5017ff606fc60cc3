import DocShape.Proofs.Shape.Equality
import DocShape.Proofs.Shape.FixedArray

/-!
Just the object literals that stand for an array of fixed length become one, in whatever order their
properties come (`fixedArray?_iff_standsForArray`). Properties are compared with the first one only, which is
enough since shapes that refer by text are equal only if they are the same.
-/

namespace DocShape.Shape

/-- An object literal stands for an array of `element`s: its properties are named `0`, `1`, … in some order,
and each of them is the element but for its name. -/
inductive StandsForArray (element : Shape) : Nat → Shape → Prop
  | intro {label : Label} {properties : List Shape} {templates : Option (List Text)} :
    properties ≠ [] → (properties.map name).Perm (indexNames properties.length) →
    (∀ p ∈ properties, p.withName none = element) →
    StandsForArray element properties.length (object label .literal (some properties) templates)

variable {c s element : Shape} {length : Nat} {label : Label} {form : ObjectForm}
  {properties properties' : List Shape} {templates : Option (List Text)}

private theorem everywhere_withName (h : Everywhere RefersByText s) (name : Option Text) :
    Everywhere RefersByText (s.withName name) := by
  refine .intro ?_ fun p hp => h.parts p (by simpa [withName] using hp)
  have here := h.here
  cases s <;> exact here

theorem fixedArray?_of_strictEq {first : Shape} {rest : List Shape}
    (names : ((first :: rest).map name).Perm (indexNames (rest.length + 1)))
    (same : ∀ p ∈ rest, (first.withName none).strictEq (p.withName none)) :
    (object label .literal (some (first :: rest)) templates).fixedArray? =
      some (array {} (some (first.withName none)) (some (rest.length + 1 : Nat))
        (some (rest.length + 1 : Nat))) := by
  unfold fixedArray?
  dsimp only
  rw [if_pos (Bool.and_eq_true_iff.2 ⟨List.isPerm_iff.2 names, by simpa using same⟩)]

theorem fixedArray?_eq_some_iff (typed : Everywhere RefersByText c) :
    c.fixedArray? = some s ↔ ∃ length element, StandsForArray element length c ∧
      s = array {} (some element) (some length) (some length) := by
  constructor
  · intro h
    obtain ⟨label, first, rest, templates, rfl, names, same, rfl⟩ := fixedArray?_eq_some h
    have typed' := fun p hp => everywhere_withName (typed.parts p hp) none
    refine ⟨_, first.withName none, .intro (by simp) (List.isPerm_iff.1 names) ?_, rfl⟩
    refine List.forall_mem_cons.2 ⟨rfl, fun p hp => ?_⟩
    exact ((strictEq_iff_eq (typed' first (List.mem_cons_self ..))
      (typed' p (List.mem_cons_of_mem _ hp))).1 (same p hp)).symm
  · rintro ⟨_, element, ⟨nonempty, names, same⟩, rfl⟩
    rename_i properties _
    obtain ⟨first, rest, rfl⟩ := List.exists_cons_of_ne_nil nonempty
    obtain ⟨rfl, same⟩ := List.forall_mem_cons.1 same
    have typed' := everywhere_withName (typed.parts first (List.mem_cons_self ..)) none
    refine fixedArray?_of_strictEq names fun p hp => ?_
    rw [same p hp, strictEq_iff_eq typed' typed']

/-! ## The order of the properties -/

private theorem StandsForArray.of_perm (perm : properties.Perm properties')
    (h : StandsForArray element length (object label form (some properties) templates)) :
    StandsForArray element length (object label form (some properties') templates) := by
  cases h with
  | intro nonempty names same =>
    rw [perm.length_eq] at names ⊢
    refine .intro (fun h => nonempty (List.perm_nil.1 (h ▸ perm))) ((perm.map name).symm.trans names) ?_
    exact fun p hp => same p (perm.mem_iff.2 hp)

private theorem everywhere_of_perm (perm : properties.Perm properties')
    (h : Everywhere RefersByText (object label form (some properties) templates)) :
    Everywhere RefersByText (object label form (some properties') templates) :=
  .intro trivial fun p hp => h.parts p (perm.mem_iff.2 hp)

private theorem fixedArray?_of_perm (perm : properties.Perm properties')
    (h : Everywhere RefersByText (object label form (some properties) templates)) :
    (object label form (some properties') templates).fixedArray? =
      (object label form (some properties) templates).fixedArray? := by
  refine Option.ext fun s => ?_
  have same : ∀ length element, StandsForArray element length
      (object label form (some properties') templates) ↔ StandsForArray element length
      (object label form (some properties) templates) :=
    fun _ _ => ⟨.of_perm perm.symm, .of_perm perm⟩
  simp only [fixedArray?_eq_some_iff h, fixedArray?_eq_some_iff (everywhere_of_perm perm h), same]

/-- Of the shapes that refer by text, just those that stand for an array become one, the array of as many
items that are the nameless element; and the order of the properties does not matter. -/
theorem fixedArray?_iff_standsForArray (typed : ∀ n, c.IsNode n → n.RefersByText) :
    (∀ s, c.fixedArray? = some s ↔ ∃ length element, StandsForArray element length c ∧
      s = array {} (some element) (some length) (some length)) ∧
    ∀ label form properties properties' templates, c = object label form (some properties) templates →
      properties.Perm properties' →
      (object label form (some properties') templates).fixedArray? = c.fixedArray? := by
  have everywhere := everywhere_of_isNode typed
  refine ⟨fun s => fixedArray?_eq_some_iff everywhere, ?_⟩
  rintro label form properties properties' templates rfl perm
  exact fixedArray?_of_perm perm everywhere

/-- A reference as a property. -/
def tabNamed (name : Option Text) : Shape := .reference { name } (some (.text "Tab")) none none

/-- A pair of references, the second item first. -/
def swappedPair : Shape := .object {} .literal (some [tabNamed "1", tabNamed "0"]) none

theorem fixedArray?_iff_standsForArray_swappedPair :
    (∀ n, swappedPair.IsNode n → n.RefersByText) ∧ StandsForArray (tabNamed none) 2 swappedPair ∧
      swappedPair.fixedArray? = some (.array {} (some (tabNamed none)) (some 2) (some 2)) ∧
      (object {} .literal (some [tabNamed "0", tabNamed "1"]) none).fixedArray? =
        swappedPair.fixedArray? := by
  have item : ∀ name, Everywhere RefersByText (tabNamed name) := fun name =>
    .intro (by simp [RefersByText, tabNamed]) (by simp [parts, tabNamed])
  have typed : Everywhere RefersByText swappedPair :=
    .intro trivial (by simp [swappedPair, parts, item])
  have names : indexNames 2 = [tabNamed "0", tabNamed "1"].map name := by
    have digits : ∀ n < 10, Text.decimal n = [Fin.ofNat _ (0x30 + n)] := fun n hn => by
      rw [Text.decimal, if_pos hn]
      rfl
    rw [indexNames, show List.range 2 = [0, 1] from rfl, List.map_cons, List.map_singleton,
      digits 0 (by decide), digits 1 (by decide)]
    rfl
  have stands : StandsForArray (tabNamed none) [tabNamed "1", tabNamed "0"].length swappedPair := by
    refine .intro (List.cons_ne_nil _ _) (names ▸ .swap _ _ _) ?_
    exact List.forall_mem_cons.2 ⟨rfl, List.forall_mem_singleton.2 rfl⟩
  have nodes := fun n (hn : swappedPair.IsNode n) => typed.of_isNode hn
  have detected := fixedArray?_iff_standsForArray nodes
  exact ⟨nodes, stands, (detected.1 _).2 ⟨2, tabNamed none, stands, rfl⟩,
    detected.2 _ _ _ _ _ rfl (.swap _ _ _)⟩

end DocShape.Shape
