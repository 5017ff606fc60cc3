import DocShape.Document.Reading
import Mathlib.Data.List.Basic

/-!
What a reading that ends well has filled: exactly the declarations of its result, in their order, and
each at the site where the outline has created it (`readDeclaration_filled`).
-/

namespace DocShape

/-! ## Lists of declarations -/

theorem Declaration.all_eq (d : Declaration) :
    d.all = d :: (TypeNode.declarationsInside d.type ++ Signature.declarationsIn d.signatures ++
      Declaration.allIn d.children) := by
  cases d
  rw [Declaration.all]

/-- A list function that goes from element to element. -/
private theorem eq_flatMap {α β : Type} {g : List α → List β} {f : α → List β} (nil : g [] = [])
    (cons : ∀ a rest, g (a :: rest) = f a ++ g rest) (l : List α) : g l = l.flatMap f := by
  induction l with
  | nil => exact nil
  | cons a rest ih => rw [cons, ih, List.flatMap_cons]

theorem Declaration.allIn_eq_flatMap (l : List Declaration) :
    Declaration.allIn l = l.flatMap Declaration.all :=
  eq_flatMap rfl (fun _ _ => rfl) l

theorem Signature.declarations_eq (s : Signature) :
    s.declarations =
      Parameter.declarationsIn s.parameters ++ TypeNode.declarationsInside s.type := by
  cases s
  rw [Signature.declarations]

theorem Signature.declarationsIn_eq_flatMap (l : List Signature) :
    Signature.declarationsIn l = l.flatMap Signature.declarations :=
  eq_flatMap rfl (fun _ _ => rfl) l

theorem Parameter.declarationsIn_eq_flatMap (l : List Parameter) :
    Parameter.declarationsIn l = l.flatMap fun p => TypeNode.declarationsInside p.type :=
  eq_flatMap rfl (fun p _ => by cases p; rfl) l

theorem TypeNode.declarationsIn_eq_flatMap (l : List TypeNode) :
    TypeNode.declarationsIn l = l.flatMap TypeNode.declarations :=
  eq_flatMap rfl (fun _ _ => rfl) l

namespace Document

open Json

/-! ## Filled sites -/

section

variable {α β : Type} {setting : Setting}

/-- The declaration that has been created at the address of a site has this site. -/
def IsSite (setting : Setting) (s : Site) : Prop :=
  (setting.created? s.origin).map (·.site) = some s

/-- After the sites `before` have been filled, a reading that ends well has filled the sites that its
result holds. -/
def FillsAfter (setting : Setting) (before : List Site) (x : Filling α) (held : α → List Site) :
    Prop :=
  (∀ s ∈ before, IsSite setting s) → ∀ a, x.outcome = .ok a →
    before.map (·.origin) ++ x.notes = (held a).map (·.origin) ∧ ∀ s ∈ held a, IsSite setting s

/-- A reading that ends well fills the sites that its result holds. -/
abbrev Fills (setting : Setting) (x : Filling α) (held : α → List Site) : Prop :=
  FillsAfter setting [] x held

private theorem fillsAfter_pure {before : List Site} {held : α → List Site} {a : α}
    (h : held a = before) : FillsAfter setting before (pure a) held := by
  rintro hb a' ⟨⟩
  rw [h]
  exact ⟨by simp, hb⟩

private theorem FillsAfter.bind {before : List Site} {x : Filling α} {f : α → Filling β}
    {held : α → List Site} {held' : β → List Site} (hx : Fills setting x held)
    (hf : ∀ a, FillsAfter setting (before ++ held a) (f a) held') :
    FillsAfter setting before (x >>= f) held' := by
  intro hb b h
  obtain ⟨a, ha, h⟩ := Journal.outcome_bind_eq_ok.1 h
  obtain ⟨hn, hs⟩ := hx (by simp) a ha
  obtain ⟨hn', hs'⟩ := hf a (fun s hm => (List.mem_append.1 hm).elim (hb s) (hs s)) b h
  refine ⟨?_, hs'⟩
  rw [Journal.bind_of_ok ha, ← hn', List.map_append, ← hn]
  simp

private theorem FillsAfter.after_liftM {before : List Site} {x : Except Fault α}
    {f : α → Filling β} {held : β → List Site}
    (hf : ∀ a, FillsAfter setting before (f a) held) :
    FillsAfter setting before (liftM x >>= f) held := by
  intro hb b h
  obtain ⟨a, ha, h⟩ := Journal.outcome_bind_eq_ok.1 h
  rw [Journal.bind_of_ok ha]
  exact hf a hb b h

private theorem Fills.map {x : Filling α} {held : α → List Site} {held' : β → List Site}
    (g : α → β) (hx : Fills setting x held) (hg : ∀ a, held' (g a) = held a) :
    Fills setting (g <$> x) held' := by
  intro hb b h
  obtain ⟨a, ha, rfl⟩ := Journal.outcome_map_eq_ok.1 h
  rw [Journal.notes_map, hg]
  exact hx hb a ha

private theorem fills_mapM {f : α → Filling β} {l : List α} {held : β → List Site}
    (hf : ∀ a ∈ l, Fills setting (f a) held) :
    Fills setting (l.mapM f) fun bs => bs.flatMap held := by
  induction l with
  | nil => exact fillsAfter_pure rfl
  | cons a l ih =>
    rw [List.mapM_cons]
    refine FillsAfter.bind (hf a (List.mem_cons_self ..)) fun b hb bs h => ?_
    obtain ⟨bs', hbs, h⟩ := Journal.outcome_bind_eq_ok.1 h
    cases h
    have ⟨hn, hs⟩ := ih (fun a ha => hf a (List.mem_cons_of_mem _ ha)) (by simp) bs' hbs
    rw [Journal.bind_of_ok hbs, List.flatMap_cons]
    refine ⟨?_, fun s hm => (List.mem_append.1 hm).elim (hb s) (hs s)⟩
    rw [List.map_append, List.map_append, ← hn]
    simp

private def sitesInside (t : Option TypeNode) : List Site :=
  (TypeNode.declarationsInside t).map (·.site)

private theorem fills_type {f : α → Filling TypeNode} {o : Option α}
    (hf : ∀ a ∈ o, Fills setting (f a) fun t => t.declarations.map (·.site)) :
    Fills setting (o.mapM f) sitesInside := by
  cases o with
  | none => exact fillsAfter_pure rfl
  | some a => exact (hf a rfl).map some fun _ => rfl

private theorem fills_fail {e : Fault} {held : α → List Site} :
    Fills setting (Journal.fail e) held := by
  rintro - a ⟨⟩

private theorem fills_enter {origin : Pointer} {f : Declaration → Filling β}
    {held : β → List Site} (hf : ∀ d, FillsAfter setting [d.site] (f d) held)
    (origins : ∀ p d, setting.created? p = some d → d.origin = p) :
    Fills setting (enter setting origin >>= f) held := by
  rintro - b h
  cases hd : setting.created? origin with
  | none => simp [enter, hd, Journal.outcome_bind_eq_ok] at h
  | some d =>
    have he : enter setting origin = ⟨[origin], .ok d⟩ := by
      simp only [enter, hd]
      rfl
    have ho : d.site.origin = origin := origins _ _ hd
    rw [he, Journal.bind_ok] at h ⊢
    have hs : ∀ s ∈ [d.site], IsSite setting s := by
      intro s hs
      rw [List.mem_singleton.1 hs, IsSite, ho, hd]
      rfl
    have := hf d hs b h
    rwa [List.map_singleton, ho] at this

end

/-! ## What readings fill -/

/-- The addresses at which declarations have been created are those that they carry. -/
def Setting.Keyed (setting : Setting) : Prop :=
  ∀ p d, setting.created? p = some d → d.origin = p

mutual

theorem readDeclaration_filled {setting : Setting} (keyed : setting.Keyed) (origin : Pointer)
    (raw : Members) :
    Fills setting (readDeclaration setting origin raw) fun d => d.all.map (·.site) := by
  rw [readDeclaration]
  refine fills_enter (fun d => FillsAfter.after_liftM fun comment => ?_) keyed
  refine FillsAfter.bind
    (fills_type fun ⟨node, _⟩ _ => readType_filled keyed _ node) fun type => ?_
  refine FillsAfter.after_liftM fun typeParameters => FillsAfter.after_liftM fun signatures => ?_
  refine FillsAfter.bind
    (fills_mapM fun ⟨i, m, _⟩ _ => readSignature_filled keyed _ m) fun signatures => ?_
  refine FillsAfter.after_liftM fun children => ?_
  refine FillsAfter.bind
    (fills_mapM fun ⟨i, m, _⟩ _ => readDeclaration_filled keyed _ m) fun children => ?_
  refine fillsAfter_pure ?_
  rw [Declaration.all_eq, Signature.declarationsIn_eq_flatMap, Declaration.allIn_eq_flatMap]
  simp [List.map_flatMap, Declaration.site, Declaration.place, sitesInside]
termination_by sizeOf raw

theorem readSignature_filled {setting : Setting} (keyed : setting.Keyed) (address : Pointer)
    (raw : Members) :
    Fills setting (readSignature setting address raw) fun s => s.declarations.map (·.site) := by
  rw [readSignature]
  refine FillsAfter.after_liftM fun elements => ?_
  refine FillsAfter.bind (?_ : Fills setting _ fun l =>
    (Parameter.declarationsIn l).map (·.site)) fun parameters => ?_
  · simp only [Parameter.declarationsIn_eq_flatMap, List.map_flatMap]
    refine fills_mapM fun e _ => ?_
    rcases e with ⟨_ | ⟨m, _⟩, i⟩
    · exact fills_fail
    · exact readParameter_filled keyed _ m
  refine FillsAfter.bind
    (fills_type fun ⟨node, _⟩ _ => readType_filled keyed _ node) fun type => ?_
  refine FillsAfter.after_liftM fun comment => fillsAfter_pure ?_
  simp [Signature.declarations_eq, sitesInside]
termination_by sizeOf raw

theorem readParameter_filled {setting : Setting} (keyed : setting.Keyed) (address : Pointer)
    (raw : Members) :
    Fills setting (readParameter setting address raw) fun p =>
      (TypeNode.declarationsInside p.type).map (·.site) := by
  rw [readParameter]
  refine FillsAfter.bind
    (fills_type fun ⟨node, _⟩ _ => readType_filled keyed _ node) fun type => ?_
  refine FillsAfter.after_liftM fun comment => FillsAfter.after_liftM fun isOptional => ?_
  exact fillsAfter_pure (by simp [sitesInside])
termination_by sizeOf raw

theorem readType_filled {setting : Setting} (keyed : setting.Keyed) (address : Pointer)
    (node : Members) :
    Fills setting (readType setting address node) fun t => t.declarations.map (·.site) := by
  have hlist : ∀ key, Fills setting (do
      (← liftM (childNodes node key)).mapM fun c =>
        readType setting (.index c.1 :: .key key :: address) c.2.1) fun l =>
          (TypeNode.declarationsIn l).map (·.site) := by
    intro key
    simp only [TypeNode.declarationsIn_eq_flatMap, List.map_flatMap]
    exact FillsAfter.after_liftM fun list => fills_mapM fun c _ => readType_filled keyed _ c.2.1
  have hpure : ∀ t : TypeNode, t.declarations = [] →
      Fills setting (pure t) fun t => t.declarations.map (·.site) :=
    fun t ht => fillsAfter_pure (by rw [ht, List.map_nil])
  rw [readType]
  split
  · exact hpure _ rfl
  split
  · exact hpure _ rfl
  split
  · split
    · exact (readType_filled keyed _ _).map _ fun t => by rw [TypeNode.declarations]
    · exact hpure _ rfl
  split
  · exact (hlist _).map _ fun l => by rw [TypeNode.declarations]
  split
  · exact (hlist _).map _ fun l => by rw [TypeNode.declarations]
  split
  · exact (hlist _).map _ fun l => by rw [TypeNode.declarations]
  split
  · exact hpure _ rfl
  split
  · refine FillsAfter.bind (hlist _) fun l => fillsAfter_pure ?_
    rw [TypeNode.declarations, List.nil_append]
  split
  · split
    · exact (readDeclaration_filled keyed _ _).map _ fun d => by rw [TypeNode.declarations]
    · exact hpure _ rfl
  · exact hpure _ rfl
termination_by sizeOf node
decreasing_by
  · exact c.2.2
  · assumption
  · assumption

end

end Document

end DocShape
