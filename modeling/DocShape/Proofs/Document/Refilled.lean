import DocShape.Proofs.Document.Moves
import DocShape.Proofs.Table

/-!
Documents that differ in one list of children. `Refilled` changes the children of the project or of one
of its namespaces; what comes of both passes is followed from the list up to the root
(`outline_refilled`, `readDeclaration_refilled`).
-/

namespace DocShape.Document

open Json Journal

/-! ## One list of children -/

/-- The address of the children at the end of a path of positions. -/
def childrenAt : List Nat → Pointer → Pointer
  | [], p => .key "children" :: p
  | i :: path, p => childrenAt path (.index i :: .key "children" :: p)

/-- A node that groups other declarations. -/
def IsNamespace (numbering : Numbering) (m : Members) : Prop :=
  ∃ kind, Kind.read numbering (member m "kind") (member m "kindString") = .ok kind ∧
    Kind.groups kind

/-- The children at the end of a path through namespaces are changed, and nothing else. -/
inductive Refilled (numbering : Numbering) (change : List Value → List Value → Prop) :
    List Nat → Members → Members → Prop
  | here {raw : Members} {items items' : List Value} :
    member raw "children" = .array items → change items items' →
    Refilled numbering change [] raw (Table.put raw "children" (.array items'))
  | inside {path : List Nat} {raw m m' : Members} {before after : List Value} :
    member raw "children" = .array (before ++ .object m :: after) → IsNamespace numbering m →
    Refilled numbering change path m m' →
    Refilled numbering change (before.length :: path) raw
      (Table.put raw "children" (.array (before ++ .object m' :: after)))

/-- Of a change that happens in some way, the way is the same at the end of the path. -/
theorem Refilled.witness {ι : Type} {numbering : Numbering}
    {change : List Value → List Value → Prop} {change' : ι → List Value → List Value → Prop}
    {path : List Nat} {raw raw' : Members} (h : Refilled numbering change path raw raw')
    (ways : ∀ items items', change items items' → ∃ x, change' x items items') :
    ∃ x, Refilled numbering (change' x) path raw raw' := by
  induction h with
  | here hitems hchange =>
    obtain ⟨x, hx⟩ := ways _ _ hchange
    exact ⟨x, .here hitems hx⟩
  | inside hitems hm _ ih =>
    obtain ⟨x, hx⟩ := ih
    exact ⟨x, .inside hitems hm hx⟩

theorem childrenAt_suffix (path : List Nat) (p : Pointer) :
    .key "children" :: p <:+ childrenAt path p := by
  induction path generalizing p with
  | nil => exact List.suffix_rfl
  | cons i path ih =>
    exact (List.suffix_cons ..).trans ((List.suffix_cons ..).trans (ih _))

/-- Two nodes have the same members apart from their children. -/
def SameButChildren (raw raw' : Members) : Prop :=
  ∀ key : Text, key ≠ "children" → member? raw' key = member? raw key

private theorem sameButChildren_put (raw : Members) (v : Value) :
    SameButChildren raw (Table.put raw "children" v) := by
  intro key hkey
  unfold member?
  rw [Table.get?_put, if_neg hkey]

theorem member_put_children (raw : Members) (v : Value) :
    member (Table.put raw "children" v) "children" = v := by
  unfold member member?
  rw [Table.get?_put, if_pos rfl]
  rfl

theorem Refilled.sameButChildren {numbering : Numbering} {change : List Value → List Value → Prop}
    {path : List Nat} {raw raw' : Members} (h : Refilled numbering change path raw raw') :
    SameButChildren raw raw' := by
  cases h with
  | here => exact sameButChildren_put _ _
  | inside => exact sameButChildren_put _ _

namespace SameButChildren

variable {raw raw' : Members} (h : SameButChildren raw raw')

include h

theorem member_eq {key : Text} (hkey : key ≠ "children") : member raw' key = member raw key := by
  unfold member
  rw [h key hkey]

theorem header_eq (numbering : Numbering) : Header.read numbering raw' = Header.read numbering raw := by
  unfold Header.read readOptional
  rw [h.member_eq (by decide), h.member_eq (by decide), h.member_eq (by decide),
    h.member_eq (by decide), h.member_eq (by decide)]

theorem inlineAt_eq (p : Pointer) : inlineAt p raw' = inlineAt p raw := by
  unfold inlineAt typeRoots
  rw [h.member_eq (by decide), h.member_eq (by decide)]

theorem numberingOf_eq : Project.numberingOf raw' = Project.numberingOf raw := by
  unfold Project.numberingOf
  rw [h _ (by decide), h.member_eq (by decide)]

end SameButChildren

/-! ## What does not move -/

/-- An address below an item of a list. -/
def Below (base p : Pointer) : Prop := ∃ i, .index i :: base <:+ p

theorem Below.cons {base p : Pointer} (s : Step) (h : Below base p) : Below base (s :: p) :=
  h.imp fun _ hi => hi.trans (List.suffix_cons ..)

theorem Below.ne {base p : Pointer} (h : Below base p) : p ≠ base := by
  rintro rfl
  obtain ⟨i, hi⟩ := h
  exact not_suffix_of_cons hi List.suffix_rfl

theorem relocate_of_not_below {base p : Pointer} {code : Nat → Pointer} (h : ¬ Below base p) :
    relocate base code p = p :=
  relocate_elsewhere fun _ i hp => h ⟨i, hp ▸ List.suffix_append ..⟩

/-- A renaming changes nothing but what is below the items of one list. -/
structure MovesBelow (r : Renaming) (base : Pointer) : Prop where
  ids : r.id = id
  sources : r.unmodelled = id
  address : ∀ p, ¬ Below base p → r.address p = p
  around : ∀ p, ¬ Below base p → ∀ place, r.around p place = place

private theorem not_below_of_apart {base p : Pointer} (h : Apart p base) : ¬ Below base p :=
  fun ⟨_, hi⟩ => h.2 ((List.suffix_cons ..).trans hi)

private theorem not_below_of_suffix {base p : Pointer} (h : p <:+ base) : ¬ Below base p :=
  fun ⟨_, hi⟩ => not_suffix_of_cons hi h

section

variable {r : Renaming} {base : Pointer} (moves : MovesBelow r base)

include moves

/-- What is apart from the list stays where it is. -/
def MovesBelow.outside : Region r where
  inside p := Apart p base
  deep _ := True
  inside_cons s h := h.below (List.suffix_cons ..) List.suffix_rfl
  deep_cons _ _ := trivial
  address_cons s h := by
    rw [moves.address _ (not_below_of_apart h),
      moves.address _ (not_below_of_apart (h.below (List.suffix_cons ..) List.suffix_rfl))]
  around_cons s h hpq _ := by
    rw [moves.around _ (not_below_of_apart h),
      moves.around _ (not_below_of_apart (h.below hpq List.suffix_rfl))]

/-- A document as its own twin, apart from the list. -/
def MovesBelow.twins (numbering : Numbering) : Twins r moves.outside.zone numbering numbering :=
  Twins.same moves.outside moves.ids moves.sources numbering

private theorem outline_outside (numbering : Numbering) {p : Pointer} (hp : Apart p base)
    (parent : Option Site) (m : Members) :
    Journal.Alike (StemsRenamed r) (outline numbering parent p m)
      (outline numbering parent p m) := by
  have still := not_below_of_apart hp
  have twin : Journal.Alike (StemsRenamed r) (outline numbering parent p m)
      (outline numbering parent (r.address p) m) :=
    outline_twin (moves.twins numbering) hp trivial (moves.around p still _).symm rfl
  rwa [moves.address p still] at twin

end

/-! ## The first pass -/

/-- The outlines of the objects among some values, numbered from `i`. -/
def outlines (numbering : Numbering) (parent : Site) (base : Pointer) (i : Nat)
    (items : List Value) : Journal Creation Fault (List Outline) :=
  (objectsFrom i items).mapM fun c =>
    outline numbering (some parent) (.index c.1 :: base) c.2

theorem eachNode_of_array {ν α : Type} {raw : Members} {key : Text} {items : List Value}
    (h : member raw key = .array items) (f : Nat → Members → Journal ν Fault α) :
    eachNode raw key f = (objectsFrom 0 items).mapM fun c => f c.1 c.2 := by
  unfold eachNode
  rw [h]
  rfl

theorem objectsFrom_append (i : Nat) (items others : List Value) :
    objectsFrom i (items ++ others) =
      objectsFrom i items ++ objectsFrom (i + items.length) others := by
  induction items generalizing i with
  | nil => rfl
  | cons item rest ih =>
    rw [List.cons_append, objectsFrom_cons, objectsFrom_cons, ih, List.append_assoc,
      List.length_cons, Nat.add_assoc, Nat.add_comm 1]

/-- Two runs through a list in which one object is changed. -/
private theorem follows_middle {ν α α' : Type} {R Q : α → α' → Prop} {T : List α → List α' → Prop}
    {f : Nat × Members → Journal ν Fault α} {f' : Nat × Members → Journal ν Fault α'}
    {before after : List Value} {m m' : Members}
    (first : Follows (List.Forall₂ R) ((objectsFrom 0 before).mapM f)
      ((objectsFrom 0 before).mapM f'))
    (middle : Follows Q (f (before.length, m)) (f' (before.length, m')))
    (last : Follows (List.Forall₂ R) ((objectsFrom (before.length + 1) after).mapM f)
      ((objectsFrom (before.length + 1) after).mapM f'))
    (join : ∀ as as' b b' cs cs', List.Forall₂ R as as' → Q b b' → List.Forall₂ R cs cs' →
      T (as ++ b :: cs) (as' ++ b' :: cs')) :
    Follows T ((objectsFrom 0 (before ++ .object m :: after)).mapM f)
      ((objectsFrom 0 (before ++ .object m' :: after)).mapM f') := by
  rw [objectsFrom_append, objectsFrom_append, objectsFrom, objectsFrom, Nat.zero_add]
  refine first.append (Q := fun bs bs' => ∃ b b' cs cs', bs = b :: cs ∧ bs' = b' :: cs' ∧
    Q b b' ∧ List.Forall₂ R cs cs') ?_ ?_
  · rw [List.mapM_cons, List.mapM_cons]
    refine middle.bind fun b b' _ hb => last.bind fun cs cs' _ hcs => follows_pure ?_
    exact ⟨b, b', cs, cs', rfl, rfl, hb, hcs⟩
  · rintro as as' _ _ has ⟨b, b', cs, cs', rfl, rfl, hb, hcs⟩
    exact join _ _ _ _ _ _ has hb hcs

theorem bounds_of_mem_objectsFrom {i j : Nat} {m : Members} {items : List Value}
    (h : (j, m) ∈ objectsFrom i items) : i ≤ j ∧ j < i + items.length :=
  ⟨List.le_snd_of_mem_zipIdx (mem_objectsFrom_iff.1 h),
    List.snd_lt_add_of_mem_zipIdx (mem_objectsFrom_iff.1 h)⟩

/-- The children beside the one that a path enters stand apart from where the path ends. -/
private theorem apart_of_other_child {path : List Nat} {n i : Nat} {p base : Pointer}
    {items : List Value} (hbase : childrenAt path (.index n :: .key "children" :: p) = base)
    (other : i + items.length ≤ n ∨ n < i) :
    ∀ c ∈ objectsFrom i items, Apart (.index c.1 :: .key "children" :: p) base := by
  intro c hc
  have inside : .index n :: .key "children" :: p <:+ base :=
    hbase ▸ (List.suffix_cons ..).trans (childrenAt_suffix path _)
  refine apart_of_steps (fun he => ?_) List.suffix_rfl inside
  have bounds := bounds_of_mem_objectsFrom (j := c.1) hc
  have := Step.index.inj he
  omega

section

variable {r : Renaming} {base : Pointer} (moves : MovesBelow r base)
  {S : List Stem → List Stem → Prop}
  (context : ∀ a b l l', S l l' → S (a ++ (l ++ b)) (a ++ (l' ++ b)))

/-- The stems of some outlines are those of the others, renamed and changed. -/
def StemsChanged (r : Renaming) (S : List Stem → List Stem → Prop) (os os' : List Outline) : Prop :=
  S ((os.flatMap Outline.stems).map (·.rename r)) (os'.flatMap Outline.stems)

include moves

private theorem outlines_outside (numbering : Numbering) (parent : Site) {p : Pointer} {i : Nat}
    {items : List Value}
    (h : ∀ c ∈ objectsFrom i items, Apart (.index c.1 :: p) base) :
    Journal.Follows (List.Forall₂ (StemsRenamed r)) (outlines numbering parent p i items)
      (outlines numbering parent p i items) :=
  follows_mapM fun c hc => outline_outside moves numbering (h c hc) _ _

include context

/-- A declaration whose children are changed. -/
private theorem outline_of_children {numbering : Numbering} {p : Pointer} {raw raw' : Members}
    (hp : .key "children" :: p <:+ base) (same : SameButChildren raw raw') (parent : Option Site)
    (children : ∀ segment, Journal.Follows (StemsChanged r S)
      (eachNode raw "children" fun i m => outline numbering
        (some ⟨p, segment :: Creation.placeIn parent⟩) (.index i :: .key "children" :: p) m)
      (eachNode raw' "children" fun i m => outline numbering
        (some ⟨p, segment :: Creation.placeIn parent⟩) (.index i :: .key "children" :: p) m)) :
    Journal.Follows (fun o o' => StemsChanged r S [o] [o']) (outline numbering parent p raw)
      (outline numbering parent p raw') := by
  have still := not_below_of_suffix ((List.suffix_cons ..).trans hp)
  rw [outline_eq, outline_eq, same.header_eq]
  refine follows_bind_self fun header _ => follows_bind_self fun _ _ => ?_
  refine (children header.segment).bind fun os os' _ hos => ?_
  have inlined : Follows (List.Forall₂ (StemsRenamed r))
      (eachInline p raw fun q m => outline numbering
        (some ⟨p, header.segment :: Creation.placeIn parent⟩) q m)
      (eachInline p raw' fun q m => outline numbering
        (some ⟨p, header.segment :: Creation.placeIn parent⟩) q m) := by
    unfold eachInline
    rw [same.inlineAt_eq]
    refine follows_bind_self fun l hl => follows_mapM fun c hc => ?_
    refine outline_outside moves numbering ?_ _ _
    rcases (suffix_of_mem_inlineAt hl hc).1 with side | side
    · exact apart_of_steps (by decide) side hp
    · exact apart_of_steps (by decide) side hp
  refine inlined.bind fun is is' _ his => follows_pure ?_
  have stems : ∀ (h : Header) (cs is : List Outline),
      ([(⟨⟨⟨p, h.segment :: Creation.placeIn parent⟩, parent⟩, h, cs, is⟩ : Outline)].flatMap
        Outline.stems) = [⟨p, h.segment, Creation.placeIn parent, h.id, h.isOptional⟩] ++
          (cs.flatMap Outline.stems ++ is.flatMap Outline.stems) := by
    intro h cs is
    rw [List.flatMap_singleton, Outline.stems_eq]
    rfl
  have stem : ∀ h : Header, Stem.rename r
      ⟨p, h.segment, Creation.placeIn parent, h.id, h.isOptional⟩ =
      ⟨p, h.segment, Creation.placeIn parent, h.id, h.isOptional⟩ := by
    intro h
    simp [Stem.rename, moves.address p still, moves.around p still, moves.ids]
  unfold StemsChanged at hos ⊢
  rw [stems, stems, List.map_append, List.map_append, List.map_singleton, stem,
    flatMap_stems his]
  exact context _ _ _ _ hos

variable {numbering : Numbering} {change : List Value → List Value → Prop} {depth : Nat}

/-- Where a change of one list changes the stems, it changes those of the whole document. -/
theorem outline_refilled
    (here : ∀ items items' s, change items items' → s.place.length = depth →
      Journal.Follows (StemsChanged r S) (outlines numbering s base 0 items)
        (outlines numbering s base 0 items'))
    {path : List Nat} {raw raw' : Members} (h : Refilled numbering change path raw raw')
    (p : Pointer) (parent : Option Site) (hbase : childrenAt path p = base)
    (hdepth : (Creation.placeIn parent).length + path.length + 1 = depth) :
    Journal.Follows (fun o o' => StemsChanged r S [o] [o']) (outline numbering parent p raw)
      (outline numbering parent p raw') := by
  have hp : .key "children" :: p <:+ base := hbase ▸ childrenAt_suffix path p
  refine outline_of_children moves context hp h.sameButChildren parent fun segment => ?_
  cases h with
  | @here raw items items' hitems hchange =>
    rw [eachNode_of_array hitems, eachNode_of_array (member_put_children _ _)]
    obtain rfl : .key "children" :: p = base := hbase
    exact here items items' ⟨p, segment :: Creation.placeIn parent⟩ hchange
      (by simpa using hdepth)
  | @inside path raw m m' before after hitems hm hinner =>
    rw [eachNode_of_array hitems, eachNode_of_array (member_put_children _ _)]
    refine follows_middle
      (outlines_outside moves numbering _ (apart_of_other_child hbase (.inl (by omega))))
      (outline_refilled here hinner _ _ hbase ?_)
      (outlines_outside moves numbering _ (apart_of_other_child hbase (.inr (by omega))))
      fun as as' b b' cs cs' has hb hcs => ?_
    · simpa [Creation.placeIn, Nat.add_assoc, Nat.add_comm 1] using hdepth
    · unfold StemsChanged at hb ⊢
      rw [List.flatMap_append, List.flatMap_cons, List.flatMap_append, List.flatMap_cons,
        flatMap_stems has, flatMap_stems hcs, List.map_append, List.map_append]
      rw [List.flatMap_singleton, List.flatMap_singleton] at hb
      exact context _ _ _ _ hb

end

/-! ## The second pass -/

/-- All that the outline of a node has created is known to a setting. -/
def Prepared (setting : Setting) (numbering : Numbering) (p : Pointer) (raw : Members) : Prop :=
  ∃ parent o, (outline numbering parent p raw).outcome = .ok o ∧
    ∀ o' ∈ o.all, setting.created? o'.origin = some o'.bare

private theorem outline_header {numbering : Numbering} {parent : Option Site} {p : Pointer}
    {raw : Members} {o : Outline} (h : (outline numbering parent p raw).outcome = .ok o) :
    Header.read numbering raw = .ok o.header := by
  rw [outline] at h
  simp only [outcome_bind_eq_ok, outcome_liftM, outcome_pure, Except.ok.injEq] at h
  obtain ⟨header, hh, ⟨⟩, -, -, -, -, -, -, -, -, -, rfl⟩ := h
  exact hh

private theorem Prepared.created {setting : Setting} {numbering : Numbering} {p : Pointer}
    {raw : Members} (h : Prepared setting numbering p raw) :
    ∃ d header, setting.created? p = some d ∧ Header.read numbering raw = .ok header ∧
      d.segment = header.segment := by
  obtain ⟨parent, o, ho, hall⟩ := h
  obtain ⟨-, -, -, -, rfl, -⟩ := outline_ok ho
  refine ⟨o.bare, o.header, hall o ?_, outline_header ho, congrArg Stem.segment o.stem_bare⟩
  rw [all_eq]
  exact List.mem_cons_self ..

private theorem Prepared.child {setting : Setting} {numbering : Numbering} {p : Pointer}
    {raw : Members} (h : Prepared setting numbering p raw) {l : List (Nat × Members)}
    (hl : nodes (member raw "children") = .ok l) {i : Nat} {m : Members} (hm : (i, m) ∈ l) :
    Prepared setting numbering (.index i :: .key "children" :: p) m := by
  obtain ⟨parent, o, ho, hall⟩ := h
  obtain ⟨children, -, hc, -, -, -, hcs, -⟩ := outline_ok ho
  rw [childNodes_ok hc] at hl
  cases hl
  obtain ⟨c, hcm, he⟩ := List.mem_map.1 hm
  obtain ⟨rfl, rfl⟩ := Prod.mk.inj he
  obtain ⟨o', ho', hr⟩ := exists_result hcs hcm
  refine ⟨_, o', hr, fun o'' hm'' => hall o'' ?_⟩
  rw [all_eq]
  exact List.mem_cons_of_mem _ (List.mem_append_left _ (List.mem_flatMap.2 ⟨o', ho', hm''⟩))

/-- The second setting knows what the first one knows, under its new name. -/
structure SettingMoved (r : Renaming) (setting setting' : Setting) : Prop where
  created : ∀ p, (setting'.created? (r.address p)).map Declaration.stem =
    (setting.created? p).map fun d => d.stem.rename r
  target : ∀ n, setting'.target? n = (setting.target? n).map r.site

theorem SettingMoved.twins {r : Renaming} {setting setting' : Setting}
    (h : SettingMoved r setting setting') (region : Region r) (ids : r.id = id) (sources : r.unmodelled = id)
    (numbering : Numbering) :
    SettingTwins (Twins.same region ids sources numbering) setting setting' where
  created p _ := h.created p
  target := by
    rintro n _ rfl
    exact h.target n

/-- Reads the objects among some values, numbered from `i`, as declarations. -/
def readings (setting : Setting) (base : Pointer) (i : Nat) (items : List Value) :
    Filling (List Declaration) :=
  (objectsFrom i items).mapM fun c => readDeclaration setting (.index c.1 :: base) c.2

theorem documentedIn_append (ds es : List Declaration) :
    Declaration.documentedIn (ds ++ es) =
      Declaration.documentedIn ds ++ Declaration.documentedIn es := by
  induction ds with
  | nil => rfl
  | cons d rest ih =>
    rw [List.cons_append, Declaration.documentedIn, Declaration.documentedIn, ih,
      List.append_assoc]

private theorem IsNamespace.groups {numbering : Numbering} {m : Members} {header : Header}
    (h : IsNamespace numbering m) (hh : Header.read numbering m = .ok header) :
    Kind.groups header.segment.kind := by
  obtain ⟨kind, hk, hg⟩ := h
  obtain ⟨kind', hk', hh⟩ := bind_eq_ok.1 hh
  obtain ⟨isOptional, -, ⟨⟩⟩ := bind_eq_ok.1 hh
  rw [hk] at hk'
  cases hk'
  exact hg

theorem documentedIn_middle (as cs : List Declaration) {b : Declaration}
    (hb : Kind.groups b.kind) : Declaration.documentedIn (as ++ b :: cs) =
      Declaration.documentedIn as ++ (b.documented ++ Declaration.documentedIn cs) := by
  rw [documentedIn_append, Declaration.documentedIn, if_pos hb]

theorem documentedIn_renamed {r : Renaming} {ds ds' : List Declaration}
    (h : List.Forall₂ (fun d d' => d' = Declaration.rename r d) ds ds') :
    Declaration.documentedIn ds' = Declaration.renameAll r (Declaration.documentedIn ds) := by
  rw [← Declaration.documentedIn_renameAll, Declaration.renameAll_eq_map, eq_map_of_forall₂ h]

section

variable {r : Renaming} {base : Pointer} (moves : MovesBelow r base)
  {D : List Declaration → List Declaration → Prop}
  (context : ∀ a b l l', D l l' → D (a ++ (l ++ b)) (a ++ (l' ++ b)))
  {setting setting' : Setting} (known : SettingMoved r setting setting')

/-- What is documented in some declarations is what is in the others, renamed and changed. -/
def DocumentedChanged (r : Renaming) (D : List Declaration → List Declaration → Prop)
    (ds ds' : List Declaration) : Prop :=
  D (Declaration.renameAll r (Declaration.documentedIn ds)) (Declaration.documentedIn ds')

include moves known

private theorem readDeclaration_outside {p : Pointer} (hp : Apart p base) (m : Members) :
    Journal.Alike (fun d d' => d' = d.rename r) (readDeclaration setting p m)
      (readDeclaration setting' p m) := by
  have twin := readDeclaration_twin
    (known.twins moves.outside moves.ids moves.sources .legacy) (p := p) hp (m := m) rfl
  rwa [moves.address p (not_below_of_apart hp)] at twin

private theorem enter_moved {numbering : Numbering} {p : Pointer} {raw : Members}
    (hp : p <:+ base) (ready : Prepared setting numbering p raw) :
    ∃ header, Header.read numbering raw = .ok header ∧
      Follows (fun d d' => d.kind = header.segment.kind ∧ d'.kind = d.kind) (enter setting p)
        (enter setting' p) := by
  obtain ⟨d, header, hd, hheader, hsegment⟩ := ready.created
  have found := known.created p
  rw [moves.address p (not_below_of_suffix hp), hd] at found
  obtain ⟨d', hd', hs⟩ := Option.map_eq_some_iff.1 found
  refine ⟨header, hheader, ?_⟩
  unfold enter
  rw [hd, hd']
  refine follows_bind_self fun _ _ => follows_pure ?_
  exact ⟨congrArg Segment.kind hsegment, congrArg (Segment.kind ·.segment) hs⟩

/-- The type of a node is read as before. -/
private theorem readTypeOf_outside {p : Pointer} (hp : Apart (.key "type" :: p) base)
    {raw raw' : Members} (same : SameButChildren raw raw') :
    Follows (fun _ _ => True) (readTypeOf setting p raw) (readTypeOf setting' p raw') := by
  unfold readTypeOf
  rw [object?_eq_asObject? raw', same.member_eq (by decide), ← object?_eq_asObject?]
  cases object? raw "type" with
  | none => exact follows_pure trivial
  | some node =>
    have twin := readType_twin (known.twins moves.outside moves.ids moves.sources .legacy) hp
      (m := node) rfl
    rw [moves.address _ (not_below_of_apart hp)] at twin
    exact (twin.map (S := fun _ _ => True) fun _ _ _ => trivial).follows

/-- The signatures of a node are read as before. -/
private theorem signatures_outside {p : Pointer} (hp : .key "children" :: p <:+ base)
    {raw raw' : Members} (same : SameButChildren raw raw') :
    Follows (fun _ _ => True)
      (eachNode raw "signatures" fun i m =>
        readSignature setting (.index i :: .key "signatures" :: p) m)
      (eachNode raw' "signatures" fun i m =>
        readSignature setting' (.index i :: .key "signatures" :: p) m) := by
  unfold eachNode
  rw [same.member_eq (by decide)]
  refine follows_bind_self fun l _ => ?_
  refine (follows_mapM (S := fun s s' => s' = s.rename r) fun c _ => ?_).mono fun _ _ _ => trivial
  have hq : Apart (.index c.1 :: .key "signatures" :: p) base :=
    apart_of_steps (by decide) (List.suffix_cons ..) hp
  have twin := readSignature_twin (known.twins moves.outside moves.ids moves.sources .legacy) hq
    (m := c.2) rfl
  rwa [moves.address _ (not_below_of_apart hq)] at twin

/-- A declaration whose children are changed. -/
private theorem readDeclaration_of_children {numbering : Numbering} {p : Pointer}
    {raw raw' : Members} (hp : .key "children" :: p <:+ base) (same : SameButChildren raw raw')
    (ready : Prepared setting numbering p raw)
    (children : Follows (DocumentedChanged r D)
      (eachNode raw "children" fun i m =>
        readDeclaration setting (.index i :: .key "children" :: p) m)
      (eachNode raw' "children" fun i m =>
        readDeclaration setting' (.index i :: .key "children" :: p) m)) :
    ∃ header, Header.read numbering raw = .ok header ∧
      Follows (fun d d' => (d.kind = header.segment.kind ∧ d'.kind = d.kind) ∧
          D (Declaration.renameAll r d.documented) d'.documented)
        (readDeclaration setting p raw) (readDeclaration setting' p raw') := by
  obtain ⟨header, hheader, entered⟩ :=
    enter_moved moves known ((List.suffix_cons ..).trans hp) ready
  refine ⟨header, hheader, ?_⟩
  have names : readTypeParameters raw' = readTypeParameters raw := by
    unfold readTypeParameters
    rw [same.member_eq (by decide), same.member_eq (by decide)]
  rw [readDeclaration_eq, readDeclaration_eq, same.member_eq (by decide), names]
  refine entered.bind fun d d' _ hkind => ?_
  refine follows_bind_self fun _ _ => ?_
  have htype : Apart (.key "type" :: p) base := apart_of_steps (by decide) List.suffix_rfl hp
  refine (readTypeOf_outside moves known htype same).bind fun _ _ _ _ => ?_
  refine follows_bind_self fun _ _ => ?_
  refine (signatures_outside moves known hp same).bind fun _ _ _ _ => ?_
  exact children.bind fun ds ds' _ hds => follows_pure ⟨hkind, hds⟩

private theorem readings_outside {p : Pointer} {i : Nat} {items : List Value}
    (h : ∀ c ∈ objectsFrom i items, Apart (.index c.1 :: p) base) :
    Follows (List.Forall₂ fun d d' => d' = d.rename r) (readings setting p i items)
      (readings setting' p i items) :=
  follows_mapM fun c hc => readDeclaration_outside moves known (h c hc) _

variable {numbering : Numbering} {change : List Value → List Value → Prop}

include context

/-- Where a change of one list changes what is documented in it, it changes what is documented in the
whole document. -/
theorem readDeclaration_refilled
    (here : ∀ items items', change items items' →
      Follows (DocumentedChanged r D) (readings setting base 0 items)
        (readings setting' base 0 items'))
    {path : List Nat} {raw raw' : Members} (h : Refilled numbering change path raw raw')
    (p : Pointer) (hbase : childrenAt path p = base) (ready : Prepared setting numbering p raw) :
    ∃ header, Header.read numbering raw = .ok header ∧
      Follows (fun d d' => (d.kind = header.segment.kind ∧ d'.kind = d.kind) ∧
          D (Declaration.renameAll r d.documented) d'.documented)
        (readDeclaration setting p raw) (readDeclaration setting' p raw') := by
  have hp : .key "children" :: p <:+ base := hbase ▸ childrenAt_suffix path p
  refine readDeclaration_of_children moves known hp h.sameButChildren ready ?_
  cases h with
  | @here raw items items' hitems hchange =>
    rw [eachNode_of_array hitems, eachNode_of_array (member_put_children _ _)]
    obtain rfl : .key "children" :: p = base := hbase
    exact here items items' hchange
  | @inside path raw m m' before after hitems hm hinner =>
    have listed : nodes (member raw "children") =
        .ok (objectsFrom 0 (before ++ .object m :: after)) := by
      rw [hitems]
      rfl
    have hmem : (before.length, m) ∈ objectsFrom 0 (before ++ .object m :: after) := by
      rw [objectsFrom_append, objectsFrom, Nat.zero_add]
      exact List.mem_append_right _ (List.mem_cons_self ..)
    obtain ⟨header, hheader, middle⟩ := readDeclaration_refilled here hinner _ hbase
      (ready.child listed hmem)
    rw [eachNode_of_array hitems, eachNode_of_array (member_put_children _ _)]
    refine follows_middle
      (readings_outside moves known (apart_of_other_child hbase (.inl (by omega))))
      middle
      (readings_outside moves known (apart_of_other_child hbase (.inr (by omega))))
      fun as as' b b' cs cs' has hb hcs => ?_
    obtain ⟨⟨hkind, hkind'⟩, hdocumented⟩ := hb
    have groups : Kind.groups b.kind := hkind ▸ hm.groups hheader
    unfold DocumentedChanged
    rw [documentedIn_middle as cs groups, documentedIn_middle as' cs' (hkind' ▸ groups),
      documentedIn_renamed has, documentedIn_renamed hcs, Declaration.renameAll_eq_map,
      Declaration.renameAll_eq_map, Declaration.renameAll_eq_map, List.map_append,
      List.map_append, ← Declaration.renameAll_eq_map r b.documented]
    exact context _ _ _ _ hdocumented

end

/-! ## Lists moved as a whole -/

private theorem forall₂_objectsFrom_shift (items : List Value) (i i' : Nat) :
    List.Forall₂ (fun c c' : Nat × Members => (∃ k, k < items.length ∧ c.1 = i + k ∧ c'.1 = i' + k) ∧
      c'.2 = c.2) (objectsFrom i items) (objectsFrom i' items) := by
  induction items generalizing i i' with
  | nil => exact .nil
  | cons item rest ih =>
    rw [objectsFrom_cons, objectsFrom_cons]
    refine List.rel_append ?_ ((ih (i + 1) (i' + 1)).imp ?_)
    · cases asObject? item with
      | none => exact .nil
      | some m => exact .cons ⟨⟨0, by simp, rfl, rfl⟩, rfl⟩ .nil
    · rintro c c' ⟨⟨k, hk, hc, hc'⟩, he⟩
      exact ⟨⟨k + 1, by simpa using hk, by omega, by omega⟩, he⟩

/-- Two runs through one list, whose numbers begin at `i` and at `i'`. -/
private theorem follows_shift {ν ν' α α' : Type} {R : α → α' → Prop}
    {f : Nat × Members → Journal ν Fault α} {f' : Nat × Members → Journal ν' Fault α'}
    {items : List Value} {i i' : Nat}
    (each : ∀ k, k < items.length → ∀ m, Journal.Alike R (f (i + k, m)) (f' (i' + k, m))) :
    Follows (List.Forall₂ R) ((objectsFrom i items).mapM f) ((objectsFrom i' items).mapM f') := by
  refine (Journal.alike_mapM (forall₂_objectsFrom_shift items i i') ?_).follows
  rintro ⟨j, m⟩ - ⟨j', m'⟩ ⟨⟨k, hk, hj, hj'⟩, hm⟩
  dsimp only at hj hj' hm ⊢
  subst hj hj' hm
  exact each k hk _

section

variable {r : Renaming} (region : Region r) (ids : r.id = id) (sources : r.unmodelled = id)
  {base base' : Pointer} {i i' : Nat} {items : List Value}
  (moved : ∀ k, k < items.length → region.inside (.index (i + k) :: base) ∧
    r.address (.index (i + k) :: base) = .index (i' + k) :: base')

include ids sources moved

theorem outlines_moved (numbering : Numbering) (s s' : Site) (deep : region.deep s.place)
    (around : ∀ k, k < items.length → s'.place = r.around (.index (i + k) :: base) s.place) :
    Follows (List.Forall₂ (StemsRenamed r)) (outlines numbering s base i items)
      (outlines numbering s' base' i' items) := by
  refine follows_shift fun k hk m => ?_
  dsimp only
  rw [← (moved k hk).2]
  refine outline_twin (Twins.same region ids sources numbering) (moved k hk).1 ?_ ?_ rfl
  · exact deep
  · exact around k hk

theorem readings_moved {setting setting' : Setting} (known : SettingMoved r setting setting') :
    Follows (List.Forall₂ fun d d' => d' = d.rename r) (readings setting base i items)
      (readings setting' base' i' items) := by
  refine follows_shift fun k hk m => ?_
  dsimp only
  rw [← (moved k hk).2]
  exact readDeclaration_twin (known.twins region ids sources .legacy) (moved k hk).1 rfl

end

/-! ## Both passes -/

theorem settingMoved_of_stems {r : Renaming} {numbering numbering' : Numbering}
    {parent parent' : Option Site} {p p' : Pointer} {raw raw' : Members} {o o' : Outline}
    (h : (outline numbering parent p raw).outcome = .ok o)
    (h' : (outline numbering' parent' p' raw').outcome = .ok o')
    (created : ∀ q, (o'.stems.find? fun s => s.origin == r.address q) =
      (o.stems.find? fun s => s.origin == q).map (·.rename r))
    (sites : ∀ n, (sitesOf o'.stems).lookup n = ((sitesOf o.stems).lookup n).map r.site) :
    SettingMoved r (Setting.ofOutline o) (Setting.ofOutline o') where
  created q := by
    rw [created?_stem, created, ← created?_stem, Option.map_map]
    rfl
  target n := by
    unfold Setting.target?
    cases Id.ofValue? ((member? n "id").getD (member n "target")) with
    | none => rfl
    | some id =>
      show o'.sites.lookup _ = (o.sites.lookup _).map r.site
      rw [sites_eq h, sites_eq h', sites]

theorem created?_of_mem {o o' : Outline} (nodup : (o.stems.map Stem.origin).Nodup)
    (h : o' ∈ o.all) : (Setting.ofOutline o).created? o'.origin = some o'.bare := by
  unfold Setting.created? Setting.ofOutline
  have keys : (o.all.map Outline.origin).Nodup := by
    rw [Outline.stems, List.map_map] at nodup
    exact nodup
  clear nodup
  generalize o.all = l at h keys ⊢
  induction l with
  | nil => cases h
  | cons o'' rest ih =>
    rw [List.map_cons, List.nodup_cons] at keys
    rw [List.map_cons, List.lookup_cons]
    rcases List.mem_cons.1 h with rfl | h
    · simp
    · have other : (o'.origin == o''.origin) = false :=
        beq_eq_false_iff_ne.2 fun he => keys.1 (he ▸ List.mem_map.2 ⟨o', h, rfl⟩)
      rw [other]
      exact ih h keys.2

/-- What comes of a document in which one list of children is changed. -/
theorem ofMembers_refilled {r : Renaming} {base : Pointer} (moves : MovesBelow r base)
    {S : List Stem → List Stem → Prop}
    (stemsContext : ∀ a b l l', S l l' → S (a ++ (l ++ b)) (a ++ (l' ++ b)))
    {D : List Declaration → List Declaration → Prop}
    (context : ∀ a b l l', D l l' → D (a ++ (l ++ b)) (a ++ (l' ++ b)))
    {change : List Value → List Value → Prop} {path : List Nat} {raw raw' : Members} {p : Project}
    (hp : Project.ofMembers raw = .ok p) (nodup : (p.outline.stems.map Stem.origin).Nodup)
    (h : Refilled (Project.numberingOf raw) change path raw raw')
    (hbase : childrenAt path [] = base)
    (outlinesChanged : ∀ items items' s, change items items' → s.place.length = path.length + 1 →
      Follows (StemsChanged r S) (outlines (Project.numberingOf raw) s base 0 items)
        (outlines (Project.numberingOf raw) s base 0 items'))
    (lookups : ∀ o' : Outline, S (p.outline.stems.map (·.rename r)) o'.stems →
      (∀ q, (o'.stems.find? fun s => s.origin == r.address q) =
        (p.outline.stems.find? fun s => s.origin == q).map (·.rename r)) ∧
      ∀ n, (sitesOf o'.stems).lookup n = ((sitesOf p.outline.stems).lookup n).map r.site)
    (readingsChanged : ∀ o' items items', S (p.outline.stems.map (·.rename r)) o'.stems →
      SettingMoved r (Setting.ofOutline p.outline) (Setting.ofOutline o') → change items items' →
      Follows (DocumentedChanged r D) (readings (Setting.ofOutline p.outline) base 0 items)
        (readings (Setting.ofOutline o') base 0 items')) :
    ∃ p', Project.ofMembers raw' = .ok p' ∧
      S (p.outline.stems.map (·.rename r)) p'.outline.stems ∧
      D (Declaration.renameAll r p.documented) p'.documented := by
  obtain ⟨ho, hroot⟩ := Project.ofMembers_eq_ok.1 hp
  obtain ⟨o', ho', hstems⟩ := outline_refilled moves stemsContext outlinesChanged h [] none hbase
    (by simp [Creation.placeIn]) _ ho
  unfold StemsChanged at hstems
  rw [List.flatMap_singleton, List.flatMap_singleton] at hstems
  have known := settingMoved_of_stems ho ho' (lookups _ hstems).1 (lookups _ hstems).2
  have ready : Prepared (Setting.ofOutline p.outline) (Project.numberingOf raw) [] raw :=
    ⟨none, p.outline, ho, fun o'' hm => created?_of_mem nodup hm⟩
  obtain ⟨_, -, follows⟩ := readDeclaration_refilled moves context known
    (fun items items' => readingsChanged o' items items' hstems known) h [] hbase ready
  obtain ⟨root', hroot', -, hdocumented⟩ := follows _ hroot
  refine ⟨⟨o', root'⟩, Project.ofMembers_eq_ok.2 ⟨?_, hroot'⟩, hstems, hdocumented⟩
  rw [h.sameButChildren.numberingOf_eq]
  exact ho'

end DocShape.Document
