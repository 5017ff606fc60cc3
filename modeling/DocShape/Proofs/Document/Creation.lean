import DocShape.Document.Outline
import DocShape.Proofs.Document.Address
import DocShape.Proofs.Document.Node
import Mathlib.Logic.Relation

/-!
What the outline of a document creates. `outline_notes` says all that an outline notes, also one that
fails half-way; from it follows by induction that no declaration is created twice and that each is
created in the innermost declaration around it (`outline_nested`).
-/

namespace DocShape.Document

open Json

/-! ## The types of a declaration -/

private theorem suffix_of_mem_signatureRoots {address p : Pointer} {signature : Members} {v : Value}
    {roots : List (Pointer × Value)} (h : signatureRoots address signature = .ok roots)
    (hm : (p, v) ∈ roots) : address <:+ p := by
  obtain ⟨parameters, -, rfl⟩ := signatureRoots_ok h
  rcases List.mem_cons.1 hm with hm | hm
  · rw [(Prod.mk.inj hm).1]
    exact List.suffix_cons ..
  · obtain ⟨e, -, he⟩ := List.mem_map.1 hm
    rw [← (Prod.mk.inj he).1]
    exact ⟨[.key "type", .index e.1, .key "parameters"], rfl⟩

private theorem signatureRoots_pairwise {address : Pointer} {signature : Members}
    {roots : List (Pointer × Value)} (h : signatureRoots address signature = .ok roots) :
    roots.Pairwise fun a b => Apart a.1 b.1 := by
  obtain ⟨parameters, hp, rfl⟩ := signatureRoots_ok h
  refine List.pairwise_cons.2 ⟨?_, ?_⟩
  · intro b hb
    obtain ⟨e, -, rfl⟩ := List.mem_map.1 hb
    exact apart_of_steps (s := .key "type") (t := .key "parameters") (by decide) List.suffix_rfl
      ⟨[.key "type", .index e.1], rfl⟩
  · rw [List.pairwise_map]
    refine (nodes_pairwise hp).imp fun {a b} hab => ?_
    refine apart_of_steps (s := .index a.1) (t := .index b.1) ?_ (List.suffix_cons ..)
      (List.suffix_cons ..)
    exact fun he => hab (Step.index.inj he)

private theorem suffix_of_mem_signaturesRoots {address p : Pointer} {v : Value}
    {signatures : List (Nat × Members)} {roots : List (Pointer × Value)}
    (h : signaturesRoots address signatures = .ok roots) (hm : (p, v) ∈ roots) :
    ∃ s ∈ signatures, .index s.1 :: .key "signatures" :: address <:+ p := by
  induction signatures generalizing roots with
  | nil =>
    cases h
    simp at hm
  | cons entry rest ih =>
    obtain ⟨first, others, hf, ho, rfl⟩ := signaturesRoots_ok h
    rcases List.mem_append.1 hm with hm | hm
    · exact ⟨entry, List.mem_cons_self .., suffix_of_mem_signatureRoots hf hm⟩
    · obtain ⟨s, hs, hp⟩ := ih ho hm
      exact ⟨s, List.mem_cons_of_mem _ hs, hp⟩

private theorem signaturesRoots_pairwise {address : Pointer} {signatures : List (Nat × Members)}
    {roots : List (Pointer × Value)} (hs : signatures.Pairwise fun a b => a.1 ≠ b.1)
    (h : signaturesRoots address signatures = .ok roots) :
    roots.Pairwise fun a b => Apart a.1 b.1 := by
  induction signatures generalizing roots with
  | nil =>
    cases h
    exact List.Pairwise.nil
  | cons entry rest ih =>
    obtain ⟨first, others, hf, ho, rfl⟩ := signaturesRoots_ok h
    rw [List.pairwise_cons] at hs
    refine List.pairwise_append.2 ⟨signatureRoots_pairwise hf, ih hs.2 ho, ?_⟩
    rintro ⟨p, v⟩ hp ⟨q, w⟩ hq
    obtain ⟨s, hsm, hsq⟩ := suffix_of_mem_signaturesRoots ho hq
    refine apart_of_steps ?_ (suffix_of_mem_signatureRoots hf hp) hsq
    exact fun he => hs.1 s hsm (Step.index.inj he)

/-- The types of a declaration stand below its own type or its signatures. -/
theorem suffix_of_mem_typeRoots {address p : Pointer} {raw : Members} {v : Value}
    {roots : List (Pointer × Value)} (h : typeRoots address raw = .ok roots)
    (hm : (p, v) ∈ roots) :
    .key "type" :: address <:+ p ∨ .key "signatures" :: address <:+ p := by
  obtain ⟨signatures, others, -, ho, rfl⟩ := typeRoots_ok h
  rcases List.mem_cons.1 hm with hm | hm
  · rw [(Prod.mk.inj hm).1]
    exact Or.inl List.suffix_rfl
  · obtain ⟨s, -, hs⟩ := suffix_of_mem_signaturesRoots ho hm
    exact Or.inr ((List.suffix_cons ..).trans hs)

theorem typeRoots_pairwise {address : Pointer} {raw : Members} {roots : List (Pointer × Value)}
    (h : typeRoots address raw = .ok roots) : roots.Pairwise fun a b => Apart a.1 b.1 := by
  obtain ⟨signatures, others, hs, ho, rfl⟩ := typeRoots_ok h
  refine List.pairwise_cons.2 ⟨?_, signaturesRoots_pairwise (nodes_pairwise hs) ho⟩
  rintro ⟨p, v⟩ hp
  obtain ⟨s, -, hsp⟩ := suffix_of_mem_signaturesRoots ho hp
  exact apart_of_steps (s := .key "type") (t := .key "signatures") (by decide) List.suffix_rfl
    ((List.suffix_cons ..).trans hsp)

private theorem distinctKeys_of_mem_signaturesRoots {address p : Pointer} {v : Value}
    {signatures : List (Nat × Members)} {roots : List (Pointer × Value)}
    (distinct : ∀ s ∈ signatures, Value.distinctKeysInMembers s.2)
    (h : signaturesRoots address signatures = .ok roots) (hm : (p, v) ∈ roots) :
    v.hasDistinctKeys := by
  induction signatures generalizing roots with
  | nil =>
    cases h
    simp at hm
  | cons entry rest ih =>
    obtain ⟨first, others, hf, ho, rfl⟩ := signaturesRoots_ok h
    have he := distinct entry (List.mem_cons_self ..)
    rcases List.mem_append.1 hm with hm | hm
    · obtain ⟨parameters, hp, rfl⟩ := signatureRoots_ok hf
      rcases List.mem_cons.1 hm with hm | hm
      · rw [(Prod.mk.inj hm).2]
        exact distinctKeys_member he _
      · obtain ⟨e, hem, heq⟩ := List.mem_map.1 hm
        rw [← (Prod.mk.inj heq).2]
        exact distinctKeys_member
          (distinctKeys_of_mem_nodes (i := e.1) hp hem (distinctKeys_member he _)) _
    · exact ih (fun s hs => distinct s (List.mem_cons_of_mem _ hs)) ho hm

theorem distinctKeys_of_mem_typeRoots {address p : Pointer} {raw : Members} {v : Value}
    {roots : List (Pointer × Value)} (distinct : Value.distinctKeysInMembers raw)
    (h : typeRoots address raw = .ok roots) (hm : (p, v) ∈ roots) : v.hasDistinctKeys := by
  obtain ⟨signatures, others, hs, ho, rfl⟩ := typeRoots_ok h
  rcases List.mem_cons.1 hm with hm | hm
  · rw [(Prod.mk.inj hm).2]
    exact distinctKeys_member distinct _
  · refine distinctKeys_of_mem_signaturesRoots (fun s hsm => ?_) ho hm
    exact distinctKeys_of_mem_nodes (i := s.1) hs hsm (distinctKeys_member distinct _)


/-! ## One declaration -/

/-- Declarations right inside the one at an address: they are apart from each other, properly inside
it, and smaller. -/
structure Inner (origin : Pointer) (raw : Members) (inner : List (Pointer × Members)) : Prop where
  apart : inner.Pairwise fun a b => Apart a.1 b.1
  inside : ∀ c ∈ inner, ∃ s, s :: origin <:+ c.1
  smaller : ∀ c ∈ inner, sizeOf c.2 < sizeOf raw
  distinct : ∀ c ∈ inner, Value.distinctKeysInMembers c.2

private theorem Inner.of_sublist {origin : Pointer} {raw : Members}
    {inner inner' : List (Pointer × Members)} (h : Inner origin raw inner)
    (hs : inner'.Sublist inner) : Inner origin raw inner' where
  apart := h.apart.sublist hs
  inside c hc := h.inside c (hs.subset hc)
  smaller c hc := h.smaller c (hs.subset hc)
  distinct c hc := h.distinct c (hs.subset hc)

private theorem inner_children (origin : Pointer) {raw : Members}
    {children : List (Nat × Smaller raw)} (distinct : Value.distinctKeysInMembers raw)
    (hc : childNodes raw "children" = .ok children) :
    Inner origin raw
      (children.map fun e => (Step.index e.1 :: .key "children" :: origin, e.2.1)) := by
  have hn := childNodes_ok hc
  refine ⟨?_, ?_, ?_, ?_⟩
  · have := nodes_pairwise hn
    rw [List.pairwise_map] at this ⊢
    exact this.imp fun {a b} hab => apart_of_step_ne _ fun he => hab (Step.index.inj he)
  · intro c hm
    obtain ⟨e, -, rfl⟩ := List.mem_map.1 hm
    exact ⟨.key "children", List.suffix_cons ..⟩
  · intro c hm
    obtain ⟨e, -, rfl⟩ := List.mem_map.1 hm
    exact e.2.2
  · intro c hm
    obtain ⟨e, he, rfl⟩ := List.mem_map.1 hm
    exact distinctKeys_of_mem_nodes (i := e.1) hn (List.mem_map.2 ⟨e, he, rfl⟩)
      (distinctKeys_member distinct _)

private theorem inner_inlined {origin : Pointer} {raw : Members}
    {inlined : List (Pointer × Smaller raw)} (distinct : Value.distinctKeysInMembers raw)
    (hi : inlineNodes origin raw = .ok inlined) :
    Inner origin raw (inlined.map fun e => (e.1, e.2.1)) ∧
      ∀ e ∈ inlined, .key "type" :: origin <:+ e.1 ∨ .key "signatures" :: origin <:+ e.1 := by
  obtain ⟨roots, hr, hl⟩ := inlineNodes_ok hi
  have hside : ∀ e ∈ inlined,
      .key "type" :: origin <:+ e.1 ∨ .key "signatures" :: origin <:+ e.1 := by
    intro e he
    have hm : (e.1, e.2.1) ∈ inlineInRoots roots := by
      rw [hl]
      exact List.mem_map.2 ⟨e, he, rfl⟩
    obtain ⟨⟨p, v⟩, hv, hp⟩ := mem_inlineInRoots_iff.1 hm
    have hs := suffix_of_mem_inlineIn v hp
    exact (suffix_of_mem_typeRoots hr hv).imp (·.trans hs) (·.trans hs)
  have apart := inlineInRoots_pairwise (typeRoots_pairwise hr) fun root hroot =>
    distinctKeys_of_mem_typeRoots (p := root.1) distinct hr hroot
  refine ⟨⟨hl ▸ apart, ?_, ?_, ?_⟩, hside⟩
  · intro c hm
    obtain ⟨e, he, rfl⟩ := List.mem_map.1 hm
    rcases hside e he with h | h
    · exact ⟨_, h⟩
    · exact ⟨_, h⟩
  · intro c hm
    obtain ⟨e, -, rfl⟩ := List.mem_map.1 hm
    exact e.2.2
  · intro c hm
    rw [← hl] at hm
    obtain ⟨⟨p, v⟩, hv, hp⟩ := mem_inlineInRoots_iff.1 hm
    exact distinctKeys_of_mem_inlineIn (m := c.2) v hp (distinctKeys_of_mem_typeRoots distinct hr hv)

private theorem Inner.append {origin : Pointer} {raw : Members}
    {inner inner' : List (Pointer × Members)} (h : Inner origin raw inner)
    (h' : Inner origin raw inner') (ha : ∀ a ∈ inner, ∀ b ∈ inner', Apart a.1 b.1) :
    Inner origin raw (inner ++ inner') where
  apart := List.pairwise_append.2 ⟨h.apart, h'.apart, ha⟩
  inside c hc := (List.mem_append.1 hc).elim (h.inside c) (h'.inside c)
  smaller c hc := (List.mem_append.1 hc).elim (h.smaller c) (h'.smaller c)
  distinct c hc := (List.mem_append.1 hc).elim (h.distinct c) (h'.distinct c)

private theorem notes_mapM_pure {ν ε α β γ : Type} (f : α → Journal ν ε β) (l : List α)
    (g : List β → γ) : ∃ done, done <+: l ∧
      (l.mapM f >>= fun bs => pure (g bs)).notes = done.flatMap fun a => (f a).notes := by
  rcases Journal.notes_mapM_bind f l fun bs => pure (g bs) with h | ⟨bs, -, h⟩
  · exact h
  · exact ⟨l, List.prefix_rfl, by rw [h, Journal.notes_pure, List.append_nil]⟩

/-- What an outline notes: nothing where the header cannot be read, and else the declaration and, one
after the other, what the outlines of the declarations right inside it note. -/
theorem outline_notes (numbering : Numbering) (parent : Option Site) (origin : Pointer)
    {raw : Members} (distinct : Value.distinctKeysInMembers raw) :
    (outline numbering parent origin raw).notes = [] ∨
      ∃ segment : Segment, ∃ inner, Inner origin raw inner ∧
        (outline numbering parent origin raw).notes =
          ⟨⟨origin, segment :: Creation.placeIn parent⟩, parent⟩ :: inner.flatMap fun c =>
            (outline numbering (some ⟨origin, segment :: Creation.placeIn parent⟩) c.1 c.2).notes := by
  rw [outline]
  cases hh : Header.read numbering raw with
  | error e =>
    left
    simp [Journal.bind_of_error]
  | ok header =>
    right
    refine ⟨header.segment, ?_⟩
    generalize hs : (⟨origin, header.segment :: Creation.placeIn parent⟩ : Site) = site
    rw [Journal.bind_of_ok (Journal.outcome_liftM _)]
    dsimp only
    rw [hs, Journal.bind_of_ok (Journal.outcome_note _)]
    simp only [Journal.notes_liftM, Journal.notes_note, List.nil_append, List.singleton_append,
      List.cons.injEq, true_and]
    cases hc : childNodes raw "children" with
    | error e => exact ⟨[], ⟨.nil, by simp, by simp, by simp⟩, by simp [Journal.bind_of_error]⟩
    | ok children =>
      rw [Journal.bind_of_ok (Journal.outcome_liftM _)]
      have hinner := inner_children origin distinct hc
      simp only [Journal.notes_liftM, List.nil_append]
      rcases Journal.notes_mapM_bind (fun x : Nat × Smaller raw =>
          outline numbering (some site) (.index x.1 :: .key "children" :: origin) x.2.1) children _
        with ⟨done, hd, hn⟩ | ⟨cs, -, hn⟩
      · refine ⟨_, hinner.of_sublist (hd.sublist.map _), ?_⟩
        rw [hn, List.flatMap_map]
      · rw [hn]
        cases hi : inlineNodes origin raw with
        | error e =>
          refine ⟨_, hinner, ?_⟩
          simp [Journal.bind_of_error, List.flatMap_map]
        | ok inlined =>
          obtain ⟨hinner', hside⟩ := inner_inlined distinct hi
          obtain ⟨done, hd, hn'⟩ := notes_mapM_pure (fun x : Pointer × Smaller raw =>
            outline numbering (some site) x.1 x.2.1) inlined _
          refine ⟨_, hinner.append (hinner'.of_sublist (hd.sublist.map _)) ?_, ?_⟩
          · intro a ha b hb
            obtain ⟨e, -, rfl⟩ := List.mem_map.1 ha
            obtain ⟨f, hf, rfl⟩ := List.mem_map.1 hb
            rcases hside f (hd.subset hf) with h | h
            · exact apart_of_steps (by decide) (List.suffix_cons ..) h
            · exact apart_of_steps (by decide) (List.suffix_cons ..) h
          · rw [Journal.bind_of_ok (Journal.outcome_liftM _), List.flatMap_append, List.flatMap_map,
              List.flatMap_map]
            exact congrArg _ hn'

/-! ## All declarations -/

/-- One address lies properly inside another one. -/
def Encloses (p q : Pointer) : Prop := p <:+ q ∧ p ≠ q

theorem encloses_of_cons {s : Step} {p q : Pointer} (h : s :: p <:+ q) : Encloses p q :=
  ⟨(List.suffix_cons ..).trans h, fun he => not_suffix_of_cons h (he ▸ List.suffix_rfl)⟩

theorem Encloses.trans_suffix {p q r : Pointer} (h : Encloses p q) (hr : q <:+ r) : Encloses p r := by
  refine ⟨h.1.trans hr, ?_⟩
  rintro rfl
  exact h.2 (h.1.eq_of_length_le hr.length_le)

/-- Of some created declarations, `p` is the innermost one around `c`. -/
def IsInnermost (created : List Creation) (c p : Creation) : Prop :=
  p ∈ created ∧ Encloses p.origin c.origin ∧
    ∀ q ∈ created, Encloses q.origin c.origin → q.origin <:+ p.origin

/-- What is created at an address and inside it: every declaration once, and each in the innermost
one around it. -/
structure Nested (parent : Option Site) (origin : Pointer) (created : List Creation) : Prop where
  covers : Covers [origin] (created.map Creation.origin)
  place : ∀ c ∈ created, c.site.place.tail = Creation.placeIn c.parent
  parents : ∀ c ∈ created, (c.origin = origin ∧ c.parent = parent) ∨
    ∃ p, IsInnermost created c p ∧ c.parent = some p.site

theorem Nested.below {parent : Option Site} {origin : Pointer} {created : List Creation}
    (h : Nested parent origin created) {c : Creation} (hc : c ∈ created) :
    origin <:+ c.origin := by
  obtain ⟨a, ha, hs⟩ := h.covers.2 c.origin (List.mem_map.2 ⟨c, hc, rfl⟩)
  exact List.mem_singleton.1 ha ▸ hs

/-- A declaration is created, and then, in it, what is created at addresses that are apart. -/
private theorem nested_cons (site : Site) {parent : Option Site} {raw : Members}
    {inner : List (Pointer × Members)} {created : Pointer × Members → List Creation}
    (hi : Inner site.origin raw inner) (place : site.place.tail = Creation.placeIn parent)
    (h : ∀ c ∈ inner, Nested (some site) c.1 (created c)) :
    Nested parent site.origin (⟨site, parent⟩ :: inner.flatMap created) := by
  refine ⟨?_, ?_, ?_⟩
  · rw [List.map_cons, List.map_flatMap]
    refine (covers_flatMap hi.apart fun c hc => (h c hc).covers).cons fun a ha => ?_
    obtain ⟨c, hc, rfl⟩ := List.mem_map.1 ha
    exact hi.inside c hc
  · intro c hc
    rcases List.mem_cons.1 hc with rfl | hc
    · exact place
    · obtain ⟨e, he, hc⟩ := List.mem_flatMap.1 hc
      exact (h e he).place c hc
  · intro c hc
    rcases List.mem_cons.1 hc with rfl | hc
    · exact Or.inl ⟨rfl, rfl⟩
    right
    obtain ⟨e, he, hc⟩ := List.mem_flatMap.1 hc
    obtain ⟨s, hs⟩ := hi.inside e he
    have hec := (h e he).below hc
    -- What encloses `c` is the declaration itself or has been created at the same inner address.
    have around : ∀ q ∈ inner.flatMap created, q.origin <:+ c.origin → q ∈ created e := by
      intro q hq hqc
      obtain ⟨f, hf, hq⟩ := List.mem_flatMap.1 hq
      rcases apart_of_mem hi.apart he hf with rfl | ha
      · exact hq
      · exact absurd hqc (ha.below hec ((h f hf).below hq)).2
    rcases (h e he).parents c hc with ⟨heq, hp⟩ | ⟨p, ⟨hpm, hpc, hin⟩, hp⟩
    · refine ⟨⟨site, parent⟩, ⟨List.mem_cons_self .., encloses_of_cons (hs.trans hec), ?_⟩, hp⟩
      · intro q hq hqc
        rcases List.mem_cons.1 hq with rfl | hq
        · exact List.suffix_rfl
        · have := (h e he).below (around q hq hqc.1)
          exact absurd (hqc.1.eq_of_length_le (heq ▸ this.length_le)) hqc.2
    · refine ⟨p, ⟨List.mem_cons_of_mem _ (List.mem_flatMap.2 ⟨e, he, hpm⟩), hpc, ?_⟩, hp⟩
      intro q hq hqc
      rcases List.mem_cons.1 hq with rfl | hq
      · exact (List.suffix_cons ..).trans (hs.trans ((h e he).below hpm))
      · exact hin q (around q hq hqc.1) hqc

/-- An outline, finished or not, creates every declaration once, and each in the innermost declaration
around it. -/
theorem outline_nested (numbering : Numbering) (parent : Option Site) (origin : Pointer)
    (raw : Members) (distinct : Value.distinctKeysInMembers raw) :
    Nested parent origin (outline numbering parent origin raw).notes := by
  rcases outline_notes numbering parent origin distinct with h | ⟨segment, inner, hi, h⟩
  · rw [h]
    exact ⟨covers_nil _, by simp, by simp⟩
  · rw [h]
    refine nested_cons ⟨origin, segment :: Creation.placeIn parent⟩ hi rfl fun c hc => ?_
    have := hi.smaller c hc
    exact outline_nested numbering _ c.1 c.2 (hi.distinct c hc)
termination_by sizeOf raw

/-! ## Outlines that are finished -/

theorem flatMap_congr_map {α β γ ε : Type} {f : α → Except ε β} {g : α → List γ}
    {g' : β → List γ} {l : List α} {bs : List β} (h : l.map f = bs.map .ok)
    (step : ∀ a ∈ l, ∀ b, f a = .ok b → g a = g' b) : l.flatMap g = bs.flatMap g' := by
  induction l generalizing bs with
  | nil =>
    cases bs with
    | nil => rfl
    | cons b bs => simp at h
  | cons a l ih =>
    cases bs with
    | nil => simp at h
    | cons b bs =>
      rw [List.map_cons, List.map_cons, List.cons.injEq] at h
      rw [List.flatMap_cons, List.flatMap_cons, step a (List.mem_cons_self ..) b h.1,
        ih h.2 fun a ha => step a (List.mem_cons_of_mem _ ha)]

theorem allIn_eq_flatMap (l : List Outline) : Outline.allIn l = l.flatMap Outline.all := by
  induction l with
  | nil => rfl
  | cons o rest ih => rw [Outline.allIn, ih, List.flatMap_cons]

theorem all_eq (o : Outline) :
    o.all = o :: (o.children.flatMap Outline.all ++ o.inlined.flatMap Outline.all) := by
  cases o
  rw [Outline.all, allIn_eq_flatMap, allIn_eq_flatMap]

/-- An outline is finished when the outlines of its children and inline declarations are. -/
theorem outline_ok {numbering : Numbering} {parent : Option Site} {origin : Pointer}
    {raw : Members} {o : Outline} (h : (outline numbering parent origin raw).outcome = .ok o) :
    ∃ children inlined, childNodes raw "children" = .ok children ∧
      inlineNodes origin raw = .ok inlined ∧ o.origin = origin ∧
      (outline numbering parent origin raw).notes = o.creation ::
        (children.flatMap (fun c => (outline numbering (some o.site)
            (.index c.1 :: .key "children" :: origin) c.2.1).notes) ++
          inlined.flatMap fun c => (outline numbering (some o.site) c.1 c.2.1).notes) ∧
      children.map (fun c => (outline numbering (some o.site)
        (.index c.1 :: .key "children" :: origin) c.2.1).outcome) = o.children.map .ok ∧
      inlined.map (fun c => (outline numbering (some o.site) c.1 c.2.1).outcome) =
        o.inlined.map .ok := by
  rw [outline] at h ⊢
  simp only [Journal.outcome_bind_eq_ok, Journal.outcome_liftM, Journal.outcome_pure,
    Except.ok.injEq] at h
  obtain ⟨header, hh, ⟨⟩, -, children, hc, cs, hcs, inlined, hi, is, his, rfl⟩ := h
  refine ⟨children, inlined, hc, hi, rfl, ?_, Journal.outcome_mapM_eq_ok.1 hcs,
    Journal.outcome_mapM_eq_ok.1 his⟩
  have hn := Journal.notes_mapM_of_ok hcs
  have hn' := Journal.notes_mapM_of_ok his
  rw [Journal.bind_of_ok (a := header) (by simpa using hh)]
  dsimp only
  rw [Journal.bind_of_ok (Journal.outcome_note _), Journal.bind_of_ok (a := children) (by simpa using hc),
    Journal.bind_of_ok hcs, Journal.bind_of_ok (a := inlined) (by simpa using hi), Journal.bind_of_ok his]
  simp [hn, hn', Outline.site]

/-- Every outline inside a finished one is finished. -/
theorem outline_of_mem_all {numbering : Numbering} {parent : Option Site} {origin : Pointer}
    {raw : Members} {o o' : Outline} (h : (outline numbering parent origin raw).outcome = .ok o)
    (hm : o' ∈ o.all) :
    ∃ parent' origin' raw', (outline numbering parent' origin' raw').outcome = .ok o' := by
  obtain ⟨children, inlined, -, -, -, -, hc, hi⟩ := outline_ok h
  rw [all_eq] at hm
  rcases List.mem_cons.1 hm with rfl | hm
  · exact ⟨parent, origin, raw, h⟩
  rcases List.mem_append.1 hm with hm | hm
  · obtain ⟨inner, hin, hm⟩ := List.mem_flatMap.1 hm
    obtain ⟨c, -, ho⟩ := Journal.exists_of_result hc hin
    have := c.2.2
    exact outline_of_mem_all ho hm
  · obtain ⟨inner, hin, hm⟩ := List.mem_flatMap.1 hm
    obtain ⟨c, -, ho⟩ := Journal.exists_of_result hi hin
    have := c.2.2
    exact outline_of_mem_all ho hm
termination_by sizeOf raw

/-- A declaration that has been created is at the site that its outline tells. -/
theorem bare_site {numbering : Numbering} {parent : Option Site} {origin : Pointer} {raw : Members}
    {o : Outline} (h : (outline numbering parent origin raw).outcome = .ok o) :
    o.bare.site = o.site := by
  rw [outline] at h
  simp only [Journal.outcome_bind_eq_ok, Journal.outcome_liftM, Journal.outcome_pure,
    Except.ok.injEq] at h
  obtain ⟨header, hh, ⟨⟩, -, children, hc, cs, hcs, inlined, hi, is, his, rfl⟩ := h
  simp [Outline.bare, Outline.site, Declaration.site, Declaration.place, Creation.origin]

/-- A finished outline lists exactly what it has created. -/
theorem outline_creations {numbering : Numbering} {parent : Option Site} {origin : Pointer}
    {raw : Members} {o : Outline} (h : (outline numbering parent origin raw).outcome = .ok o) :
    (outline numbering parent origin raw).notes = o.all.map (·.creation) := by
  obtain ⟨children, inlined, -, -, -, hn, hc, hi⟩ := outline_ok h
  have step : ∀ (c : Pointer × Smaller raw) (o' : Outline),
      (outline numbering (some o.site) c.1 c.2.1).outcome = .ok o' →
        (outline numbering (some o.site) c.1 c.2.1).notes = o'.all.map (·.creation) := by
    intro c o' ho
    have := c.2.2
    exact outline_creations ho
  rw [hn, all_eq, List.map_cons, List.map_append, List.map_flatMap, List.map_flatMap]
  congr 2
  · exact flatMap_congr_map hc fun c _ o' ho => step (_, c.2) o' ho
  · exact flatMap_congr_map hi fun c _ o' ho => step c o' ho
termination_by sizeOf raw

end DocShape.Document
