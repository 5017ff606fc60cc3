import DocShape.Document.Inline
import DocShape.Proofs.Json.Keys
import Mathlib.Data.List.Pairwise

/-!
Addresses that do not lie inside each other. `Apart` is kept by everything further inside, and the
outermost inline declarations of a document without repeated keys are pairwise apart. `Covers` says
that some addresses are distinct and lie below given ones.
-/

namespace DocShape.Document

open Json

/-! ## Apart -/

/-- Neither of two addresses lies inside the other. -/
def Apart (p q : Pointer) : Prop := ¬ p <:+ q ∧ ¬ q <:+ p

theorem Apart.symm {p q : Pointer} (h : Apart p q) : Apart q p := ⟨h.2, h.1⟩

theorem Apart.below {p q p' q' : Pointer} (h : Apart p q) (hp : p <:+ p') (hq : q <:+ q') :
    Apart p' q' := by
  constructor
  · intro hs
    rcases List.suffix_or_suffix_of_suffix (hp.trans hs) hq with h' | h'
    · exact h.1 h'
    · exact h.2 h'
  · intro hs
    rcases List.suffix_or_suffix_of_suffix hp (hq.trans hs) with h' | h'
    · exact h.1 h'
    · exact h.2 h'

theorem Apart.ne {p q : Pointer} (h : Apart p q) : p ≠ q := by
  rintro rfl
  exact h.1 List.suffix_rfl

theorem apart_of_step_ne {s t : Step} (base : Pointer) (h : s ≠ t) :
    Apart (s :: base) (t :: base) := by
  constructor
  · intro hs
    have := hs.eq_of_length (by simp)
    exact h (List.cons.inj this).1
  · intro hs
    have := hs.eq_of_length (by simp)
    exact h (List.cons.inj this).1.symm

theorem apart_of_steps {s t : Step} {base p q : Pointer} (h : s ≠ t) (hp : s :: base <:+ p)
    (hq : t :: base <:+ q) : Apart p q :=
  (apart_of_step_ne base h).below hp hq

theorem apart_of_mem {α : Type} {address : α → Pointer} {l : List α}
    (h : l.Pairwise fun a b => Apart (address a) (address b)) {a b : α} (ha : a ∈ l) (hb : b ∈ l) :
    a = b ∨ Apart (address a) (address b) := by
  have : Std.Symm fun a b => Apart (address a) (address b) := ⟨fun _ _ hab => hab.symm⟩
  by_cases hab : a = b
  · exact Or.inl hab
  · exact Or.inr (h.forall ha hb hab)

theorem not_suffix_of_cons {s : Step} {base p : Pointer} (h : s :: base <:+ p) : ¬ p <:+ base := by
  intro hp
  have h₁ := h.length_le
  have h₂ := hp.length_le
  simp only [List.length_cons] at h₁
  omega

/-! ## Inline declarations -/

theorem suffix_of_mem_inlineIn {address p : Pointer} {m : Members} (v : Value)
    (h : (p, m) ∈ inlineIn address v) : address <:+ p := by
  refine inlineIn_induction (P := fun address _ e => address <:+ e.1) ?_ ?_ h
  · intro address node declaration _
    exact List.suffix_cons ..
  · intro address v step w e _ below
    exact (List.suffix_cons ..).trans below

theorem inlineIn_pairwise (address : Pointer) (v : Value) (h : v.hasDistinctKeys) :
    (inlineIn address v).Pairwise fun a b => Apart a.1 b.1 := by
  induction v using Value.byEntries generalizing address with
  | step v ih =>
    rw [inlineIn_eq]
    cases inlineAt? address v with
    | some d => exact List.pairwise_singleton ..
    | none =>
      have steps : v.entries.Pairwise fun a b => a.1 ≠ b.1 := List.pairwise_map.1 (Value.nodup_steps h)
      refine List.pairwise_flatMap.2 ⟨fun e he => ?_, steps.imp fun {a b} hab p hp q hq => ?_⟩
      · exact ih e he _ (Value.hasDistinctKeys_of_mem_entries h he)
      · exact apart_of_steps hab (suffix_of_mem_inlineIn a.2 hp) (suffix_of_mem_inlineIn b.2 hq)

/-- The inline declarations of values that are apart are apart. -/
theorem inlineInRoots_pairwise {roots : List (Pointer × Value)}
    (apart : roots.Pairwise fun a b => Apart a.1 b.1)
    (distinct : ∀ root ∈ roots, root.2.hasDistinctKeys) :
    (inlineInRoots roots).Pairwise fun a b => Apart a.1 b.1 := by
  have hr : roots.reverse.Pairwise fun a b => Apart a.1 b.1 :=
    List.pairwise_reverse.2 (apart.imp fun hab => hab.symm)
  rw [inlineInRoots_eq]
  refine List.pairwise_flatMap.2 ⟨?_, hr.imp fun {a b} hab => ?_⟩
  · rintro ⟨p, v⟩ hp
    exact inlineIn_pairwise p v (distinct _ (List.mem_reverse.1 hp))
  · rintro ⟨p, m⟩ hp ⟨q, n⟩ hq
    exact hab.below (suffix_of_mem_inlineIn a.2 hp) (suffix_of_mem_inlineIn b.2 hq)

/-! ## Distinct addresses below given ones -/

/-- Some addresses are distinct, and each lies below one of the given roots. -/
def Covers (roots ps : List Pointer) : Prop := ps.Nodup ∧ ∀ p ∈ ps, ∃ a ∈ roots, a <:+ p

theorem covers_nil (roots : List Pointer) : Covers roots [] := ⟨List.nodup_nil, by simp⟩

theorem Covers.append {roots roots' ps qs : List Pointer} (hp : Covers roots ps)
    (hq : Covers roots' qs) (h : ∀ a ∈ roots, ∀ b ∈ roots', Apart a b) :
    Covers (roots ++ roots') (ps ++ qs) := by
  constructor
  · refine List.nodup_append.2 ⟨hp.1, hq.1, ?_⟩
    intro p hmp q hmq
    obtain ⟨a, ha, hap⟩ := hp.2 p hmp
    obtain ⟨b, hb, hbq⟩ := hq.2 q hmq
    exact ((h a ha b hb).below hap hbq).ne
  · intro p hm
    rcases List.mem_append.1 hm with hm | hm
    · obtain ⟨a, ha, hap⟩ := hp.2 p hm
      exact ⟨a, List.mem_append_left _ ha, hap⟩
    · obtain ⟨b, hb, hbp⟩ := hq.2 p hm
      exact ⟨b, List.mem_append_right _ hb, hbp⟩

theorem Covers.weaken {roots roots' ps : List Pointer} (hp : Covers roots ps)
    (h : ∀ a ∈ roots, ∃ b ∈ roots', b <:+ a) : Covers roots' ps := by
  refine ⟨hp.1, fun p hm => ?_⟩
  obtain ⟨a, ha, hap⟩ := hp.2 p hm
  obtain ⟨b, hb, hba⟩ := h a ha
  exact ⟨b, hb, hba.trans hap⟩

/-- An address in front of addresses that lie properly inside it. -/
theorem Covers.cons {origin : Pointer} {roots ps : List Pointer} (hp : Covers roots ps)
    (h : ∀ a ∈ roots, ∃ s, s :: origin <:+ a) : Covers [origin] (origin :: ps) := by
  constructor
  · refine List.nodup_cons.2 ⟨fun hm => ?_, hp.1⟩
    obtain ⟨a, ha, hap⟩ := hp.2 origin hm
    obtain ⟨s, hs⟩ := h a ha
    exact not_suffix_of_cons (hs.trans hap) List.suffix_rfl
  · intro p hm
    refine ⟨origin, by simp, ?_⟩
    rcases List.mem_cons.1 hm with rfl | hm
    · exact List.suffix_rfl
    · obtain ⟨a, ha, hap⟩ := hp.2 p hm
      obtain ⟨s, hs⟩ := h a ha
      exact (List.suffix_cons ..).trans (hs.trans hap)

theorem covers_flatMap {α : Type} {address : α → Pointer} {f : α → List Pointer} {l : List α}
    (apart : l.Pairwise fun a b => Apart (address a) (address b))
    (h : ∀ a ∈ l, Covers [address a] (f a)) : Covers (l.map address) (l.flatMap f) := by
  induction l with
  | nil => exact covers_nil _
  | cons a l ih =>
    rw [List.pairwise_cons] at apart
    have hl := ih apart.2 fun b hb => h b (List.mem_cons_of_mem _ hb)
    refine (h a (List.mem_cons_self ..)).append hl ?_
    intro p hp q hq
    obtain rfl := List.mem_singleton.1 hp
    obtain ⟨b, hb, rfl⟩ := List.mem_map.1 hq
    exact apart.1 b hb

end DocShape.Document
