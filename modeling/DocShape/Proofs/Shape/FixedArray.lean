import DocShape.Shape.FixedArray
import Mathlib.Tactic.Tauto

/-!
When object literals become arrays (`fixedArray?_eq_some`) and when two arrays intersect
(`intersect?_eq_some`), that merged bounds are never zero, and that they allow just the lengths that both
arrays allow (`allows_of_intersect?`).
-/

namespace DocShape.Shape

theorem fixedArray?_eq_some {s t : Shape} (h : s.fixedArray? = some t) :
    ∃ label first rest templates, s = object label .literal (some (first :: rest)) templates ∧
      ((first :: rest).map name).isPerm (indexNames (rest.length + 1)) ∧
      (∀ p ∈ rest, (first.withName none).strictEq (p.withName none)) ∧
      t = array {} (some (first.withName none)) (some (rest.length + 1 : Nat))
        (some (rest.length + 1 : Nat)) := by
  unfold fixedArray? at h
  split at h
  · rename_i label first rest templates
    dsimp only at h
    split at h
    · rename_i hc
      obtain ⟨hn, he⟩ := Bool.and_eq_true_iff.1 hc
      cases h
      exact ⟨label, first, rest, templates, rfl, hn, by simpa using he, rfl⟩
    · cases h
  · cases h

theorem intersect?_eq_some {a b s : Shape} (h : a.intersect? b = some s) :
    ∃ labelA labelB elementA elementB lowA highA lowB highB,
      a = array labelA elementA lowA highA ∧ b = array labelB elementB lowB highB ∧
      strictEqOption elementA elementB ∧
      s = array {} elementA (greaterBound lowA lowB) (smallerBound highA highB) := by
  unfold intersect? at h
  split at h
  · rename_i labelA elementA lowA highA labelB elementB lowB highB
    split at h
    · rename_i he
      cases h
      exact ⟨labelA, labelB, elementA, elementB, lowA, highA, lowB, highB, rfl, rfl, he, rfl⟩
    · cases h
  · cases h

theorem exists_array_of_intersect? {a b s : Shape} (h : a.intersect? b = some s) :
    ∃ element low high, s = array {} element low high := by
  obtain ⟨_, _, _, _, _, _, _, _, -, -, -, rfl⟩ := intersect?_eq_some h
  exact ⟨_, _, _, rfl⟩

/-! ## Bounds -/

private theorem pos_of_bound {m n : Int} (hm : 0 ≤ m) (h : n ∈ bound m) : 1 ≤ n := by
  unfold bound at h
  split at h
  · cases h
  · cases h
    omega

private theorem getD_nonneg {a : Option Int} (ha : ∀ n ∈ a, 1 ≤ n) : 0 ≤ a.getD 0 := by
  cases a with
  | none => exact Int.le_refl 0
  | some m =>
    have := ha m rfl
    simp only [Option.getD_some]
    omega

theorem greaterBound_pos {a b : Option Int} (ha : ∀ n ∈ a, 1 ≤ n) (hb : ∀ n ∈ b, 1 ≤ n) :
    ∀ n ∈ greaterBound a b, 1 ≤ n := by
  intro n hn
  have h₁ := getD_nonneg ha
  have h₂ := getD_nonneg hb
  exact pos_of_bound (by omega) hn

theorem smallerBound_pos {a b : Option Int} (ha : ∀ n ∈ a, 1 ≤ n) (hb : ∀ n ∈ b, 1 ≤ n) :
    ∀ n ∈ smallerBound a b, 1 ≤ n := by
  intro n hn
  unfold smallerBound at hn
  split at hn
  · rename_i a b
    have h₁ := ha a rfl
    have h₂ := hb b rfl
    exact pos_of_bound (by omega) hn
  · rename_i a
    have h₁ := ha a rfl
    exact pos_of_bound (by omega) hn
  · rename_i b
    have h₂ := hb b rfl
    exact pos_of_bound (by omega) hn
  · cases hn

/-! ## Lengths -/

/-- Bounds that are absent or at least one. -/
def BoundsPositive : Shape → Prop
  | array _ _ low high => (∀ n ∈ low, 1 ≤ n) ∧ ∀ n ∈ high, 1 ≤ n
  | _ => True

/-- An array may have a length; an absent bound allows all. -/
def Allows (length : Nat) : Shape → Prop
  | array _ _ low high => (∀ n ∈ low, n ≤ length) ∧ ∀ n ∈ high, (length : Int) ≤ n
  | _ => False

private theorem le_of_bound {m : Int} {length : Nat} :
    (∀ n ∈ bound m, n ≤ length) ↔ m ≤ length := by
  unfold bound
  split
  · simp
    omega
  · simp

private theorem greaterBound_le {a b : Option Int} {length : Nat} :
    (∀ n ∈ greaterBound a b, n ≤ length) ↔ (∀ n ∈ a, n ≤ length) ∧ ∀ n ∈ b, n ≤ length := by
  have most : ∀ x y : Int, max x y ≤ length ↔ x ≤ length ∧ y ≤ length := fun x y => by omega
  rw [greaterBound, le_of_bound, most]
  cases a <;> cases b <;> simp

theorem bound_of_pos {m : Int} (h : 1 ≤ m) : bound m = some m := if_neg (by omega)

private theorem le_smallerBound {a b : Option Int} {length : Nat} (ha : ∀ n ∈ a, 1 ≤ n)
    (hb : ∀ n ∈ b, 1 ≤ n) :
    (∀ n ∈ smallerBound a b, (length : Int) ≤ n) ↔
      (∀ n ∈ a, (length : Int) ≤ n) ∧ ∀ n ∈ b, (length : Int) ≤ n := by
  cases a with
  | none =>
    cases b with
    | none => simp [smallerBound]
    | some b => simp [smallerBound, bound_of_pos (hb b rfl)]
  | some a =>
    have posA := ha a rfl
    cases b with
    | none => simp [smallerBound, bound_of_pos posA]
    | some b =>
      have posB := hb b rfl
      have posMin : 1 ≤ min a b := by omega
      simp only [smallerBound, bound_of_pos posMin, Option.mem_some_iff, forall_eq', Int.le_min]

/-- An intersection of two arrays may have just the lengths that both may have. -/
theorem allows_of_intersect? {a b s : Shape} (ha : a.BoundsPositive) (hb : b.BoundsPositive)
    (h : a.intersect? b = some s) (length : Nat) :
    s.Allows length ↔ a.Allows length ∧ b.Allows length := by
  obtain ⟨_, _, _, _, lowA, highA, lowB, highB, rfl, rfl, -, rfl⟩ := intersect?_eq_some h
  simp only [Allows, greaterBound_le, le_smallerBound ha.2 hb.2]
  tauto

/-- No length lies between bounds that are the wrong way round, and only then. -/
theorem lt_iff_not_allows (label : Label) (element : Option Shape) {low high : Int}
    (hl : 1 ≤ low) :
    high < low ↔ ∀ length, ¬ (array label element (some low) (some high)).Allows length := by
  simp only [Allows, Option.mem_def, Option.some.injEq, forall_eq']
  constructor
  · intro h length allowed
    omega
  · intro h
    have := h low.toNat
    omega

end DocShape.Shape
