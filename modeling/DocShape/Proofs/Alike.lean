import DocShape.Journal
import Mathlib.Data.List.Forall2
import Mathlib.Data.List.Perm.Basic

/-!
Two computations side by side. `Alike R` relates two outcomes: both are results, which `R` relates, or
both are one error. There is one rule for each way of composing, so that two runs of one algorithm are
compared step by step.
-/

namespace DocShape

variable {ε α β α' β' : Type}

/-- Two outcomes are related results, or one error. -/
inductive Alike (R : α → α' → Prop) : Except ε α → Except ε α' → Prop
  | ok {a : α} {a' : α'} : R a a' → Alike R (.ok a) (.ok a')
  | error (e : ε) : Alike R (.error e) (.error e)

variable {R : α → α' → Prop} {S : β → β' → Prop}

namespace Alike

theorem mono {R' : α → α' → Prop} {x : Except ε α} {x' : Except ε α'} (h : Alike R x x')
    (sub : ∀ a a', R a a' → R' a a') : Alike R' x x' := by
  cases h with
  | ok h => exact .ok (sub _ _ h)
  | error e => exact .error e

theorem refl {R : α → α → Prop} (h : ∀ a, R a a) : ∀ x : Except ε α, Alike R x x
  | .ok a => .ok (h a)
  | .error e => .error e

theorem of_eq {x x' : Except ε α} (h : x' = x) :
    Alike (fun a a' => a' = a) x x' := by
  subst h
  exact refl (R := fun a a' => a' = a) (fun _ => rfl) x'

theorem eq {x x' : Except ε α} (h : Alike (fun a a' => a' = a) x x') : x' = x := by
  cases h with
  | ok h => rw [h]
  | error e => rfl

theorem of_map {g : α → α'} {x : Except ε α} {x' : Except ε α'} (h : x' = x.map g) :
    Alike (fun a a' => a' = g a) x x' := by
  subst h
  cases x with
  | ok a => exact .ok rfl
  | error e => exact .error e

theorem map {x : Except ε α} {x' : Except ε α'} (h : Alike R x x') {f : α → β} {f' : α' → β'}
    (step : ∀ a a', R a a' → S (f a) (f' a')) : Alike S (x.map f) (x'.map f') := by
  cases h with
  | ok h => exact .ok (step _ _ h)
  | error e => exact .error e

theorem bind {x : Except ε α} {x' : Except ε α'} {f : α → Except ε β} {f' : α' → Except ε β'}
    (h : Alike R x x') (step : ∀ a a', x = .ok a → R a a' → Alike S (f a) (f' a')) :
    Alike S (x >>= f) (x' >>= f') := by
  cases h with
  | ok h => exact step _ _ rfl h
  | error e => exact .error e

theorem and_right {x : Except ε α} {x' : Except ε α'} (h : Alike R x x') :
    Alike (fun a a' => R a a' ∧ x' = .ok a') x x' := by
  cases h with
  | ok h => exact .ok ⟨h, rfl⟩
  | error e => exact .error e

/-- A result on the left has its related result on the right. -/
theorem exists_ok {x : Except ε α} {x' : Except ε α'} (h : Alike R x x') {a : α}
    (hx : x = .ok a) : ∃ a', x' = .ok a' ∧ R a a' := by
  subst hx
  cases h with
  | ok h => exact ⟨_, rfl, h⟩

end Alike

namespace Journal

variable {ν ν' : Type}

/-- The outcomes of two journals are alike; their notes do not count. -/
abbrev Alike (R : α → α' → Prop) (x : Journal ν ε α) (x' : Journal ν' ε α') : Prop :=
  DocShape.Alike R x.outcome x'.outcome

theorem alike_pure {a : α} {a' : α'} (h : R a a') :
    Alike R (pure a : Journal ν ε α) (pure a' : Journal ν' ε α') := .ok h

theorem alike_fail (e : ε) : Alike R (fail e : Journal ν ε α) (fail e : Journal ν' ε α') := .error e

theorem alike_note (n : ν) (n' : ν') :
    Alike (fun _ _ => True) (note n : Journal ν ε Unit) (note n' : Journal ν' ε Unit) := .ok trivial

theorem Alike.bind {x : Journal ν ε α} {x' : Journal ν' ε α'} {f : α → Journal ν ε β}
    {f' : α' → Journal ν' ε β'} (h : Alike R x x')
    (step : ∀ a a', x.outcome = .ok a → R a a' → Alike S (f a) (f' a')) :
    Alike S (x >>= f) (x' >>= f') := by
  cases hx : x.outcome with
  | error e =>
    rw [Alike, hx] at h
    cases hx' : x'.outcome with
    | error e' =>
      rw [hx'] at h
      cases h
      rw [Alike, bind_of_error hx, bind_of_error hx']
      exact .error e
    | ok a' =>
      rw [hx'] at h
      cases h
  | ok a =>
    obtain ⟨a', hx', ha⟩ := DocShape.Alike.exists_ok h hx
    rw [Alike, bind_of_ok hx, bind_of_ok hx']
    exact step a a' hx ha

theorem Alike.map {x : Journal ν ε α} {x' : Journal ν' ε α'} (h : Alike R x x') {f : α → β}
    {f' : α' → β'} (step : ∀ a a', R a a' → S (f a) (f' a')) : Alike S (f <$> x) (f' <$> x') := by
  rw [Alike, outcome_map, outcome_map]
  exact DocShape.Alike.map h step

/-- Two lists of journals, related pairwise. -/
theorem alike_mapM {Q : α → α' → Prop} {l : List α} {l' : List α'} {f : α → Journal ν ε β}
    {f' : α' → Journal ν' ε β'} (h : List.Forall₂ Q l l')
    (step : ∀ a ∈ l, ∀ a', Q a a' → Alike S (f a) (f' a')) :
    Alike (List.Forall₂ S) (l.mapM f) (l'.mapM f') := by
  induction h with
  | nil => exact alike_pure .nil
  | @cons a a' l l' ha _ ih =>
    rw [List.mapM_cons, List.mapM_cons]
    refine (step a (List.mem_cons_self ..) a' ha).bind fun b b' _ hb => ?_
    refine (ih fun a ha => step a (List.mem_cons_of_mem _ ha)).bind fun bs bs' _ hbs => ?_
    exact alike_pure (.cons hb hbs)

/-- What is there in both or in neither. -/
theorem alike_mapM_option {Q : α → α' → Prop} {o : Option α} {o' : Option α'}
    {f : α → Journal ν ε β} {f' : α' → Journal ν' ε β'} (h : Option.Rel Q o o')
    (step : ∀ a ∈ o, ∀ a', Q a a' → Alike S (f a) (f' a')) :
    Alike (Option.Rel S) (o.mapM f) (o'.mapM f') := by
  cases h with
  | none => exact alike_pure .none
  | @some a a' ha => exact (step a rfl a' ha).map fun _ _ hb => .some hb

/-! ## Results alone -/

/-- A result on the left has a related one on the right. -/
def Follows (R : α → α' → Prop) (x : Journal ν ε α) (x' : Journal ν' ε α') : Prop :=
  ∀ a, x.outcome = .ok a → ∃ a', x'.outcome = .ok a' ∧ R a a'

theorem Alike.follows {x : Journal ν ε α} {x' : Journal ν' ε α'} (h : Alike R x x') :
    Follows R x x' := fun _ ha => DocShape.Alike.exists_ok h ha

theorem follows_pure {a : α} {a' : α'} (h : R a a') :
    Follows R (pure a : Journal ν ε α) (pure a' : Journal ν' ε α') := by
  rintro _ ⟨⟩
  exact ⟨a', rfl, h⟩

theorem Follows.bind {x : Journal ν ε α} {x' : Journal ν' ε α'} {f : α → Journal ν ε β}
    {f' : α' → Journal ν' ε β'} (h : Follows R x x')
    (step : ∀ a a', x.outcome = .ok a → R a a' → Follows S (f a) (f' a')) :
    Follows S (x >>= f) (x' >>= f') := by
  intro b hb
  obtain ⟨a, ha, hb⟩ := outcome_bind_eq_ok.1 hb
  obtain ⟨a', ha', hr⟩ := h a ha
  obtain ⟨b', hb', hs⟩ := step a a' ha hr b hb
  exact ⟨b', outcome_bind_eq_ok.2 ⟨a', ha', hb'⟩, hs⟩

/-- Two runs that begin with the same step. -/
theorem follows_bind_self {x : Journal ν ε α} {f : α → Journal ν ε β} {f' : α → Journal ν ε β'}
    (step : ∀ a, x.outcome = .ok a → Follows S (f a) (f' a)) : Follows S (x >>= f) (x >>= f') := by
  intro b hb
  obtain ⟨a, ha, hb⟩ := outcome_bind_eq_ok.1 hb
  obtain ⟨b', hb', hs⟩ := step a ha b hb
  exact ⟨b', outcome_bind_eq_ok.2 ⟨a, ha, hb'⟩, hs⟩

/-- Two runs through one list. -/
theorem follows_mapM {l : List α} {f : α → Journal ν ε β} {f' : α → Journal ν' ε β'}
    (step : ∀ a ∈ l, Alike S (f a) (f' a)) :
    Follows (List.Forall₂ S) (l.mapM f) (l.mapM f') := by
  refine (alike_mapM (List.forall₂_same.2 fun a _ => rfl) ?_).follows
  rintro a ha _ rfl
  exact step a ha

theorem Follows.mono {R' : α → α' → Prop} {x : Journal ν ε α} {x' : Journal ν' ε α'}
    (h : Follows R x x') (sub : ∀ a a', R a a' → R' a a') : Follows R' x x' := by
  intro a ha
  obtain ⟨a', ha', hr⟩ := h a ha
  exact ⟨a', ha', sub a a' hr⟩

/-- Two lists of journals, each in two parts. -/
theorem Follows.append {γ γ' : Type} {P Q T : List β → List β' → Prop} {l m : List γ}
    {l' m' : List γ'} {f : γ → Journal ν ε β} {f' : γ' → Journal ν' ε β'}
    (hl : Follows P (l.mapM f) (l'.mapM f')) (hm : Follows Q (m.mapM f) (m'.mapM f'))
    (join : ∀ bs bs' cs cs', P bs bs' → Q cs cs' → T (bs ++ cs) (bs' ++ cs')) :
    Follows T ((l ++ m).mapM f) ((l' ++ m').mapM f') := by
  rw [List.mapM_append, List.mapM_append]
  refine hl.bind fun bs bs' _ hb => hm.bind fun cs cs' _ hc => ?_
  exact follows_pure (join _ _ _ _ hb hc)

/-- Where all of a list succeed, so do all of it in another order. -/
theorem follows_mapM_perm {γ : Type} {l l' : List γ} (h : l.Perm l') (f : γ → Journal ν ε β) :
    Follows List.Perm (l.mapM f) (l'.mapM f) := by
  intro bs hbs
  have each : List.Forall₂ (fun c b => (f c).outcome = .ok b) l bs := by
    have outcomes := outcome_mapM_eq_ok.1 hbs
    rwa [← List.forall₂_eq_eq_eq, List.forall₂_map_left_iff, List.forall₂_map_right_iff] at outcomes
  obtain ⟨bs', each', perm⟩ := List.perm_comp_forall₂ h.symm each
  refine ⟨bs', outcome_mapM_eq_ok.2 ?_, perm.symm⟩
  rwa [← List.forall₂_eq_eq_eq, List.forall₂_map_left_iff, List.forall₂_map_right_iff]

end Journal

end DocShape
