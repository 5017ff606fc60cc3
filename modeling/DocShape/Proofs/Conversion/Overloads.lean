import DocShape.Conversion.Function
import Mathlib.Data.List.Basic

/-!
The signatures that count of all overloads of a function: `IsFirstLongest` and `IsFirstShortest` say which
ones they are. One pass finds both (`extremes_areExtremes`), since every step keeps them found.
-/

namespace DocShape

variable {α : Type}

/-! ## Best elements -/

/-- An element of a list is longer than all before it, and no shorter than all after it. -/
def IsFirstLongest (size : α → Nat) (l : List α) (a : α) : Prop :=
  ∃ before after, l = before ++ a :: after ∧ (∀ b ∈ before, size b < size a) ∧
    ∀ b ∈ after, size b ≤ size a

/-- An element of a list is shorter than all before it, and no longer than all after it. -/
def IsFirstShortest (size : α → Nat) (l : List α) (a : α) : Prop :=
  ∃ before after, l = before ++ a :: after ∧ (∀ b ∈ before, size a < size b) ∧
    ∀ b ∈ after, size a ≤ size b

/-- The same of any key: the longest are the best by size, and the shortest by its negative. -/
def IsFirstBest (key : α → Int) (l : List α) (a : α) : Prop :=
  ∃ before after, l = before ++ a :: after ∧ (∀ b ∈ before, key b < key a) ∧
    ∀ b ∈ after, key b ≤ key a

namespace IsFirstBest

variable {key : α → Int} {l : List α} {a b x : α}

theorem mem (h : IsFirstBest key l a) : a ∈ l := by
  obtain ⟨before, after, rfl, -⟩ := h
  simp

theorem le (h : IsFirstBest key l a) (hb : b ∈ l) : key b ≤ key a := by
  obtain ⟨before, after, rfl, worse, noBetter⟩ := h
  rcases List.mem_append.1 hb with hb | hb
  · exact Int.le_of_lt (worse b hb)
  · rcases List.mem_cons.1 hb with rfl | hb
    · exact Int.le_refl _
    · exact noBetter b hb

theorem singleton (key : α → Int) (a : α) : IsFirstBest key [a] a :=
  ⟨[], [], rfl, by simp, by simp⟩

/-- A better element is the best of all. -/
theorem replace (h : IsFirstBest key l a) (better : key a < key x) :
    IsFirstBest key (l ++ [x]) x :=
  ⟨l, [], rfl, fun _ hb => Int.lt_of_le_of_lt (h.le hb) better, by simp⟩

/-- An element that is no better changes nothing. -/
theorem keep (h : IsFirstBest key l a) (noBetter : key x ≤ key a) :
    IsFirstBest key (l ++ [x]) a := by
  obtain ⟨before, after, rfl, hb, ha⟩ := h
  refine ⟨before, after ++ [x], by simp, hb, fun b hm => ?_⟩
  rcases List.mem_append.1 hm with hm | hm
  · exact ha b hm
  · rw [List.mem_singleton.1 hm]
    exact noBetter

private theorem eq_of_append {before c after after' : List α}
    (hl : a :: after = c ++ b :: after') (ha : ∀ x ∈ after, key x ≤ key a)
    (hb : ∀ x ∈ before ++ c, key x < key b) : a = b := by
  cases c with
  | nil => exact (List.cons.inj hl).1
  | cons x c =>
    obtain ⟨rfl, rfl⟩ := List.cons.inj hl
    have h₁ := hb a (by simp)
    have h₂ := ha b (by simp)
    omega

theorem unique (ha : IsFirstBest key l a) (hb : IsFirstBest key l b) : a = b := by
  obtain ⟨before, after, rfl, hba, haa⟩ := ha
  obtain ⟨before', after', hl, hbb, hab⟩ := hb
  rcases List.append_eq_append_iff.1 hl with ⟨c, rfl, hc⟩ | ⟨c, rfl, hc⟩
  · exact eq_of_append hc haa hbb
  · exact (eq_of_append hc hab hba).symm

end IsFirstBest

section

variable {size : α → Nat} {l : List α} {a b : α}

theorem isFirstLongest_iff : IsFirstLongest size l a ↔ IsFirstBest (fun x => (size x : Int)) l a := by
  simp only [IsFirstLongest, IsFirstBest, Int.ofNat_lt, Int.ofNat_le]

theorem isFirstShortest_iff : IsFirstShortest size l a ↔ IsFirstBest (fun x => -(size x : Int)) l a := by
  simp only [IsFirstShortest, IsFirstBest, Int.neg_lt_neg_iff, Int.neg_le_neg_iff, Int.ofNat_lt,
    Int.ofNat_le]

theorem IsFirstLongest.mem (h : IsFirstLongest size l a) : a ∈ l := (isFirstLongest_iff.1 h).mem

/-- Elements that are measured by what they are mapped to. -/
theorem IsFirstLongest.map {β : Type} {f : β → α} {l : List β} {b : β}
    (h : IsFirstLongest (fun b => size (f b)) l b) : IsFirstLongest size (l.map f) (f b) := by
  obtain ⟨before, after, rfl, hb, ha⟩ := h
  refine ⟨before.map f, after.map f, by simp, fun a hm => ?_, fun a hm => ?_⟩
  · obtain ⟨x, hx, rfl⟩ := List.mem_map.1 hm
    exact hb x hx
  · obtain ⟨x, hx, rfl⟩ := List.mem_map.1 hm
    exact ha x hx

theorem IsFirstLongest.unique (ha : IsFirstLongest size l a) (hb : IsFirstLongest size l b) :
    a = b := (isFirstLongest_iff.1 ha).unique (isFirstLongest_iff.1 hb)

theorem IsFirstShortest.unique (ha : IsFirstShortest size l a) (hb : IsFirstShortest size l b) :
    a = b := (isFirstShortest_iff.1 ha).unique (isFirstShortest_iff.1 hb)

end

/-! ## One pass -/

/-- What has been found in a list. -/
structure AreExtremes (size : α → Nat) (l : List α) (found : Extremes α) : Prop where
  longest : IsFirstLongest size l found.longest
  shortest : IsFirstShortest size l found.shortest

variable {size : α → Nat}

theorem AreExtremes.step {l : List α} {found : Extremes α} (h : AreExtremes size l found) (x : α) :
    AreExtremes size (l ++ [x]) (found.step size x) := by
  have longest := isFirstLongest_iff.1 h.longest
  have shortest := isFirstShortest_iff.1 h.shortest
  -- The shortest is no longer than the longest, so no new longest is a new shortest.
  have ordered : size found.shortest ≤ size found.longest := by
    have := shortest.le longest.mem
    omega
  unfold Extremes.step
  split
  · exact ⟨isFirstLongest_iff.2 (longest.replace (by omega)),
      isFirstShortest_iff.2 (shortest.keep (by omega))⟩
  · split
    · exact ⟨isFirstLongest_iff.2 (longest.keep (by omega)),
        isFirstShortest_iff.2 (shortest.replace (by omega))⟩
    · exact ⟨isFirstLongest_iff.2 (longest.keep (by omega)),
        isFirstShortest_iff.2 (shortest.keep (by omega))⟩

theorem extremes_areExtremes (size : α → Nat) (first : α) (rest : List α) :
    AreExtremes size (first :: rest) (extremes size first rest) := by
  -- The elements that have been looked at, and what has been found among them.
  suffices ∀ (seen : List α) (found : Extremes α), AreExtremes size seen found →
      AreExtremes size (seen ++ rest) (rest.foldl (Extremes.step size) found) from
    this [first] ⟨first, first⟩
      ⟨isFirstLongest_iff.2 (.singleton _ first), isFirstShortest_iff.2 (.singleton _ first)⟩
  induction rest with
  | nil =>
    intro seen found h
    rwa [List.append_nil]
  | cons x rest ih =>
    intro seen found h
    have := ih (seen ++ [x]) _ (h.step x)
    rwa [List.append_assoc] at this

/-! ## Mapped signatures -/

def Extremes.map {β : Type} (g : α → β) (found : Extremes α) : Extremes β :=
  ⟨g found.longest, g found.shortest⟩

theorem extremes_map {β : Type} (size : α → Nat) {size' : β → Nat} {g : α → β}
    (h : ∀ a, size' (g a) = size a) (first : α) (rest : List α) :
    extremes size' (g first) (rest.map g) = (extremes size first rest).map g := by
  have step : ∀ (found : Extremes α) (x : α),
      (found.map g).step size' (g x) = (found.step size x).map g := by
    intro found x
    simp only [Extremes.step, Extremes.map, h]
    split
    · rfl
    · split <;> rfl
  suffices ∀ found : Extremes α, (rest.map g).foldl (Extremes.step size') (found.map g) =
      (rest.foldl (Extremes.step size) found).map g from this ⟨first, first⟩
  induction rest with
  | nil => exact fun _ => rfl
  | cons a rest ih =>
    intro found
    rw [List.map_cons, List.foldl_cons, List.foldl_cons, step, ih]

end DocShape
