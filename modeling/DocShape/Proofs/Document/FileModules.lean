import DocShape.Link.Target
import DocShape.Proofs.Conversion.Renaming
import DocShape.Proofs.Document.Refilled

/-!
File-level modules are transparent (`fileModule_transparent`): where a run of children is put into a new
one, what is documented stays, under the same names and in the same order, and so do all targets of links
and all conversions.
-/

namespace DocShape.Document

open Json Journal

/-! ## Wrapping -/

/-- A file-level module that holds a list of children, and no id, no type and no comment. -/
structure IsFileModule (run : List Value) (m : Members) : Prop where
  kind : member m "kindString" = .text "External module"
  children : member m "children" = .array run
  bare : ∀ key ∈ ([Text.ofString "id", "flags", "comment", "type", "typeParameter",
    "typeParameters", "signatures"] : List Text), member m key = .null

/-- A run of a list is put into a file-level module. -/
def Wraps (items items' : List Value) : Prop :=
  ∃ before run after m, IsFileModule run m ∧ items = before ++ (run ++ after) ∧
    items' = before ++ .object m :: after

/-! ## The renaming -/

/-- Where the item at each position goes when `k` items from `n` on are wrapped. -/
def wrapCode (n k j : Nat) : Pointer :=
  if j < n then [.index j]
  else if j < n + k then [.index (j - n), .key "children", .index n]
  else [.index (j - k + 1)]

private theorem wrapCode_of_lt {n k j : Nat} (h : j < n) : wrapCode n k j = [.index j] := by
  rw [wrapCode, if_pos h]

private theorem wrapCode_of_mem {n k j : Nat} (h : n ≤ j) (h' : j < n + k) :
    wrapCode n k j = [.index (j - n), .key "children", .index n] := by
  rw [wrapCode, if_neg (by omega), if_pos h']

private theorem wrapCode_of_le {n k j : Nat} (h : n + k ≤ j) :
    wrapCode n k j = [.index (j - k + 1)] := by
  rw [wrapCode, if_neg (by omega), if_neg (by omega)]

/-- The position in the list, and what is inside the item there. -/
private theorem wrapCode_split (n k j : Nat) : ∃ inner outer, wrapCode n k j = inner ++ [.index outer] ∧
    ((j < n ∧ inner = [] ∧ outer = j) ∨
      (n ≤ j ∧ j < n + k ∧ inner = [.index (j - n), .key "children"] ∧ outer = n) ∨
      (n + k ≤ j ∧ inner = [] ∧ outer = j - k + 1)) := by
  by_cases h : j < n
  · exact ⟨[], j, wrapCode_of_lt h, .inl ⟨h, rfl, rfl⟩⟩
  · by_cases h' : j < n + k
    · exact ⟨_, n, wrapCode_of_mem (by omega) h', .inr (.inl ⟨by omega, h', rfl, rfl⟩)⟩
    · exact ⟨[], j - k + 1, wrapCode_of_le (by omega), .inr (.inr ⟨by omega, rfl, rfl⟩)⟩

private theorem codes_wrapCode (n k : Nat) : Codes (wrapCode n k) where
  item j := by
    obtain ⟨inner, outer, h, -⟩ := wrapCode_split n k j
    exact ⟨inner, outer, h⟩
  free i j c c' h := by
    obtain ⟨inner, outer, hi, casesi⟩ := wrapCode_split n k i
    obtain ⟨inner', outer', hj, casesj⟩ := wrapCode_split n k j
    rw [hi, hj, ← List.append_assoc, ← List.append_assoc] at h
    obtain ⟨hc, ho⟩ := List.append_inj' h rfl
    have outers : outer = outer' := by simpa using ho
    rcases casesi with ⟨hi₁, rfl, hi₂⟩ | ⟨hi₁, hi₂, rfl, hi₃⟩ | ⟨hi₁, rfl, hi₂⟩ <;>
      rcases casesj with ⟨hj₁, rfl, hj₂⟩ | ⟨hj₁, hj₂, rfl, hj₃⟩ | ⟨hj₁, rfl, hj₂⟩
    case inr.inl.inr.inl =>
      obtain ⟨hc, hs⟩ := List.append_inj' hc rfl
      have : i - n = j - n := by simpa using hs
      exact ⟨by omega, hc⟩
    all_goals first
      | exact ⟨by omega, by simpa using hc⟩
      | omega

/-- Whether an address is below an item of a list whose position has a property. -/
def belowItem (base : Pointer) (P : Nat → Bool) : Pointer → Bool
  | [] => false
  | .index i :: rest => if rest = base then P i else belowItem base P rest
  | .key _ :: rest => belowItem base P rest

section

variable {base : Pointer} {P : Nat → Bool}

private theorem belowItem_cons {p : Pointer} (s : Step) (h : p ≠ base) :
    belowItem base P (s :: p) = belowItem base P p := by
  cases s with
  | index i => rw [belowItem, if_neg h]
  | key name => rw [belowItem]

private theorem belowItem_item (i : Nat) : belowItem base P (.index i :: base) = P i := by
  rw [belowItem, if_pos rfl]

private theorem belowItem_of_not_below {p : Pointer} (h : ¬ Below base p) :
    belowItem base P p = false := by
  induction p with
  | nil => rfl
  | cons s p ih =>
    have rest : ¬ Below base p := fun hp => h (hp.cons s)
    by_cases hp : p = base
    · cases s with
      | index i => exact absurd ⟨i, hp ▸ List.suffix_rfl⟩ h
      | key name => rw [belowItem, ih rest]
    · rw [belowItem_cons s hp, ih rest]

private theorem belowItem_of_suffix {p q : Pointer} (h : Below base p) (hpq : p <:+ q) :
    belowItem base P q = belowItem base P p := by
  obtain ⟨c, rfl⟩ := hpq
  induction c with
  | nil => rfl
  | cons s c ih =>
    have below : Below base (c ++ p) := h.imp fun _ hi => hi.trans (List.suffix_append ..)
    rw [List.cons_append, belowItem_cons s below.ne, ih]

end

/-- The renaming of a document in which `k` items of a list from `n` on are put into the file-level
module `w`; the list is inside `depth` declarations. -/
def wrapping (base : Pointer) (n k depth : Nat) (w : Segment)
    (hw : w.kind = some .externalModule) : Renaming where
  address := relocate base (wrapCode n k)
  around p place :=
    if belowItem base (fun j => n ≤ j && j < n + k) p then place.insertAt depth w else place
  id := id
  unmodelled := id
  address_injective := relocate_injective (codes_wrapCode n k)
  around_padded p place := by
    split
    · exact Place.insertAt_padded hw depth place
    · exact .refl place
  unmodelled_injective := Renaming.sources_injective

section

variable {base : Pointer} {n k depth : Nat} {w : Segment} {hw : w.kind = some .externalModule}

private theorem wrapping_moves : MovesBelow (wrapping base n k depth w hw) base where
  ids := rfl
  sources := rfl
  address _ hp := relocate_of_not_below hp
  around p hp place := by
    show (if belowItem base _ p then _ else _) = place
    rw [belowItem_of_not_below hp]
    rfl

/-- What is below the items of the list, and inside its declarations. -/
private def wrappingRegion (base : Pointer) (n k depth : Nat) (w : Segment)
    (hw : w.kind = some .externalModule) : Region (wrapping base n k depth w hw) where
  inside := Below base
  deep place := depth ≤ place.length
  inside_cons s h := h.cons s
  deep_cons s h := Nat.le_succ_of_le h
  address_cons s h := relocate_cons s h.ne
  around_cons s h hpq deep := by
    show (if belowItem base _ _ then _ else _) = s :: (if belowItem base _ _ then _ else _)
    rw [belowItem_of_suffix h hpq]
    split
    · exact Place.insertAt_cons deep s
    · rfl

private theorem around_of_not_mem {j : Nat} (h : j < n ∨ n + k ≤ j) (place : Place) :
    (wrapping base n k depth w hw).around (.index j :: base) place = place := by
  have outside : (decide (n ≤ j) && decide (j < n + k)) = false := by
    simp only [Bool.and_eq_false_iff, decide_eq_false_iff_not]
    omega
  show (if belowItem base _ _ then _ else _) = place
  rw [belowItem_item, outside]
  rfl

private theorem around_of_mem {j : Nat} (h : n ≤ j) (h' : j < n + k) {place : Place}
    (hp : place.length = depth) (hd : 0 < depth) :
    (wrapping base n k depth w hw).around (.index j :: base) place = w :: place := by
  show (if belowItem base _ _ then _ else _) = _
  rw [belowItem_item, if_pos (by simp [h, h'])]
  obtain ⟨d, rfl⟩ := Nat.exists_eq_succ_of_ne_zero (Nat.ne_of_gt hd)
  exact Place.insertAt_length hp

end

/-! ## The module itself -/

/-- The segment of a file-level module. -/
def fileSegment (m : Members) : Segment := ⟨(member m "name").displayOrEmpty, some .externalModule⟩

namespace IsFileModule

variable {run : List Value} {m : Members} (h : IsFileModule run m)

include h

theorem header (numbering : Numbering) :
    Header.read numbering m = .ok ⟨none, fileSegment m, false⟩ := by
  have kind : Kind.ofName? "External module" = some .externalModule := by decide
  unfold Header.read readOptional Kind.read
  rw [h.kind, h.bare "flags" (by decide), h.bare "id" (by decide)]
  simp only [Kind.namedBy, kind]
  rfl

theorem inlineAt_eq (p : Pointer) : inlineAt p m = .ok [] := by
  unfold inlineAt typeRoots
  rw [h.bare "signatures" (by decide), h.bare "type" (by decide)]
  exact congrArg Except.ok (inlineInRoots_eq [(.key "type" :: p, .null)])

end IsFileModule

/-- One stem is put into a list of stems. -/
def Inserted (w : Stem) (l l' : List Stem) : Prop := ∃ a b, l = a ++ b ∧ l' = a ++ w :: b

private theorem Inserted.context {w : Stem} (a b l l' : List Stem) (h : Inserted w l l') :
    Inserted w (a ++ (l ++ b)) (a ++ (l' ++ b)) := by
  obtain ⟨c, d, rfl, rfl⟩ := h
  exact ⟨a ++ c, d ++ b, by simp, by simp⟩

section

variable {numbering : Numbering} {base : Pointer} {depth : Nat} {before run after : List Value}
  {m : Members} (h : IsFileModule run m)

/-- The renaming of a document in which a run is put into a module. -/
private abbrev wrappingIn (base : Pointer) (depth : Nat) (before run : List Value) (m : Members) :
    Renaming :=
  wrapping base before.length run.length depth (fileSegment m) rfl

/-- The stem of the module that the run of a list inside `s` is put into. -/
private def fileStem (base : Pointer) (before : List Value) (m : Members) (place : Place) : Stem :=
  ⟨.index before.length :: base, fileSegment m, place, none, false⟩

private theorem moved_before {l : Nat} (hl : l < before.length) :
    Below base (.index (0 + l) :: base) ∧
      (wrappingIn base depth before run m).address (.index (0 + l) :: base) =
        .index (0 + l) :: base := by
  refine ⟨⟨_, List.suffix_rfl⟩, (relocate_item _).trans ?_⟩
  rw [wrapCode_of_lt (by omega)]
  rfl

private theorem moved_run {l : Nat} (hl : l < run.length) :
    Below base (.index (before.length + l) :: base) ∧
      (wrappingIn base depth before run m).address (.index (before.length + l) :: base) =
        .index (0 + l) :: .key "children" :: .index before.length :: base := by
  refine ⟨⟨_, List.suffix_rfl⟩, (relocate_item _).trans ?_⟩
  rw [wrapCode_of_mem (by omega) (by omega), Nat.add_sub_cancel_left, Nat.zero_add]
  rfl

private theorem moved_after {l : Nat} :
    Below base (.index (before.length + run.length + l) :: base) ∧
      (wrappingIn base depth before run m).address
        (.index (before.length + run.length + l) :: base) =
        .index (before.length + 1 + l) :: base := by
  refine ⟨⟨_, List.suffix_rfl⟩, (relocate_item _).trans ?_⟩
  rw [wrapCode_of_le (by omega)]
  have : before.length + run.length + l - run.length + 1 = before.length + 1 + l := by omega
  rw [this]
  rfl

include h

private theorem outline_fileModule {s : Site} (hs : s.place.length = depth) (hd : 0 < depth) :
    Follows (fun os o' => o'.stems = fileStem base before m s.place ::
        (os.flatMap Outline.stems).map (·.rename (wrappingIn base depth before run m)))
      (outlines numbering s base before.length run)
      (outline numbering (some s) (.index before.length :: base) m) := by
  have children := outlines_moved
    (wrappingRegion base before.length run.length depth (fileSegment m) rfl) rfl rfl
    (fun l hl => moved_run hl) numbering s ⟨.index before.length :: base, fileSegment m :: s.place⟩
    (Nat.le_of_eq hs.symm) (fun l hl => (around_of_mem (by omega) (by omega) hs hd).symm)
  intro os hos
  obtain ⟨os', hos', renamed⟩ := children os hos
  have each : (eachNode m "children" fun i c => outline numbering
      (some ⟨.index before.length :: base, fileSegment m :: s.place⟩)
      (.index i :: .key "children" :: .index before.length :: base) c).outcome = .ok os' := by
    rw [eachNode_of_array h.children]
    exact hos'
  have inlined : ∀ f : Pointer → Members → Journal Creation Fault Outline,
      (eachInline (.index before.length :: base) m f).outcome = .ok [] := by
    intro f
    rw [eachInline, h.inlineAt_eq]
    rfl
  rw [outline_eq]
  refine ⟨_, outcome_bind_eq_ok.2 ⟨_, h.header numbering, outcome_bind_eq_ok.2 ⟨(), rfl,
    outcome_bind_eq_ok.2 ⟨os', each, outcome_bind_eq_ok.2 ⟨[], inlined _, rfl⟩⟩⟩⟩, ?_⟩
  dsimp only
  rw [Outline.stems_eq, flatMap_stems renamed, List.flatMap_nil, List.append_nil]
  rfl

/-- A wrapped run changes the stems of a list by that of the module. -/
private theorem outlines_wrapped {s : Site} (hs : s.place.length = depth) (hd : 0 < depth) :
    Follows (StemsChanged (wrappingIn base depth before run m)
        (Inserted (fileStem base before m s.place)))
      (outlines numbering s base 0 (before ++ (run ++ after)))
      (outlines numbering s base 0 (before ++ .object m :: after)) := by
  let region := wrappingRegion base before.length run.length depth (fileSegment m) rfl
  have first := outlines_moved region rfl rfl (fun l hl => moved_before hl) numbering s s
    (Nat.le_of_eq hs.symm) (fun l hl => (around_of_not_mem (.inl (by omega)) _).symm)
  have last : Follows (List.Forall₂ (StemsRenamed (wrappingIn base depth before run m)))
      (outlines numbering s base (before.length + run.length) after)
      (outlines numbering s base (before.length + 1) after) :=
    outlines_moved region rfl rfl (fun l _ => moved_after) numbering s s (Nat.le_of_eq hs.symm)
      (fun l hl => (around_of_not_mem (.inr (by omega)) _).symm)
  have middle : Follows _ (outlines numbering s base before.length run)
      (outline numbering (some s) (.index before.length :: base) m) :=
    outline_fileModule h hs hd
  unfold outlines at first middle last ⊢
  rw [objectsFrom_append, objectsFrom_append, objectsFrom_append, objectsFrom, Nat.zero_add]
  -- The outlines of the run on the left stand for the outline of the module on the right.
  refine first.append (Q := fun os os' => ∃ rs w bs bs', os = rs ++ bs ∧ os' = w :: bs' ∧
    w.stems = fileStem base before m s.place ::
      (rs.flatMap Outline.stems).map (·.rename (wrappingIn base depth before run m)) ∧
    List.Forall₂ (StemsRenamed (wrappingIn base depth before run m)) bs bs') ?_ ?_
  · rw [List.mapM_append, List.mapM_cons]
    refine middle.bind fun rs w _ hw => last.bind fun bs bs' _ hbs => follows_pure ?_
    exact ⟨rs, w, bs, bs', rfl, rfl, hw, hbs⟩
  · rintro as as' _ _ has ⟨rs, w, bs, bs', rfl, rfl, hw, hbs⟩
    unfold StemsChanged
    rw [List.flatMap_append, List.flatMap_append, List.flatMap_append, List.flatMap_cons, hw,
      flatMap_stems has, flatMap_stems hbs, List.map_append, List.map_append, List.cons_append]
    exact ⟨_, _, rfl, rfl⟩

omit h

/-- The stem of the module is put in, whatever the place of its list. -/
private def ModuleInserted (base : Pointer) (before : List Value) (m : Members) (l l' : List Stem) :
    Prop := ∃ place, Inserted (fileStem base before m place) l l'

/-- Nothing is moved to the address of the module. -/
private theorem address_ne_module (p : Pointer) :
    (wrappingIn base depth before run m).address p ≠ .index before.length :: base := by
  intro hp
  change relocate base (wrapCode before.length run.length) p = _ at hp
  by_cases hq : ∃ c i, p = c ++ .index i :: base
  · obtain ⟨c, i, rfl⟩ := hq
    obtain ⟨inner, outer, hi, cases⟩ := wrapCode_split before.length run.length i
    rw [relocate_below, hi] at hp
    have whole : ((c ++ inner) ++ [.index outer]) ++ base = [.index before.length] ++ base := by
      simpa using hp
    have steps := List.append_cancel_right whole
    have empty : c ++ inner = [] := by
      have := congrArg List.length steps
      simp only [List.length_append, List.length_singleton] at this
      exact List.eq_nil_of_length_eq_zero (by rw [List.length_append]; omega)
    have outers : outer = before.length := by simpa [empty] using steps
    rcases cases with ⟨_, -, _⟩ | ⟨_, _, rfl, -⟩ | ⟨_, -, _⟩
    · omega
    · simp at empty
    · omega
  · simp only [not_exists] at hq
    rw [relocate_elsewhere hq] at hp
    exact hq [] _ hp

private theorem lookups_inserted {l l' : List Stem}
    (hl : ModuleInserted base before m (l.map (·.rename (wrappingIn base depth before run m))) l') :
    (∀ q, (l'.find? fun s => s.origin == (wrappingIn base depth before run m).address q) =
        (l.find? fun s => s.origin == q).map (·.rename (wrappingIn base depth before run m))) ∧
      (∀ n, (sitesOf l').lookup n =
        ((sitesOf l).lookup n).map (wrappingIn base depth before run m).site) ∧
      ((l'.find? fun s => s.origin == .index before.length :: base).map (·.segment) =
        some (fileSegment m)) := by
  obtain ⟨place, a, b, hab, rfl⟩ := hl
  have other : ∀ q, ((fileStem base before m place).origin ==
      (wrappingIn base depth before run m).address q) = false := fun q =>
    beq_eq_false_iff_ne.2 fun he => address_ne_module q he.symm
  refine ⟨fun q => ?_, fun n => ?_, ?_⟩
  · rw [← find?_rename, hab, List.find?_append, List.find?_append, List.find?_cons, other]
  · have same : sitesOf (a ++ fileStem base before m place :: b) = sitesOf (a ++ b) := by
      simp [sitesOf, fileStem]
    rw [same, ← hab, lookup_sitesOf_rename rfl]
  · have absent : (a.find? fun s => s.origin == .index before.length :: base) = none := by
      rw [List.find?_eq_none]
      intro s hs
      have hm : s ∈ l.map (·.rename (wrappingIn base depth before run m)) :=
        hab ▸ List.mem_append_left _ hs
      obtain ⟨s', -, rfl⟩ := List.mem_map.1 hm
      have other' : (wrappingIn base depth before run m).address s'.origin ≠
          .index before.length :: base := address_ne_module s'.origin
      exact fun he => other' (eq_of_beq he)
    rw [List.find?_append, absent, List.find?_cons]
    simp [fileStem]

include h

/-- The module is read with what the run is read with. -/
private theorem readDeclaration_fileModule {setting setting' : Setting}
    (known : SettingMoved (wrappingIn base depth before run m) setting setting')
    (own : (setting'.created? (.index before.length :: base)).map Declaration.segment =
      some (fileSegment m)) :
    Follows (fun ds d' => d'.kind = some .externalModule ∧ d'.documented =
        Declaration.renameAll (wrappingIn base depth before run m) (Declaration.documentedIn ds))
      (readings setting base before.length run)
      (readDeclaration setting' (.index before.length :: base) m) := by
  have children : Follows _ (readings setting base before.length run)
      (readings setting' (.key "children" :: .index before.length :: base) 0 run) :=
    readings_moved (wrappingRegion base before.length run.length depth (fileSegment m) rfl) rfl rfl
      (fun l hl => moved_run hl) known
  intro ds hds
  obtain ⟨ds', hds', renamed⟩ := children ds hds
  obtain ⟨d, hd, hsegment⟩ := Option.map_eq_some_iff.1 own
  have entered : (enter setting' (.index before.length :: base)).outcome = .ok d := by
    unfold enter
    rw [hd]
    rfl
  have each : (eachNode m "children" fun i c => readDeclaration setting'
      (.index i :: .key "children" :: .index before.length :: base) c).outcome = .ok ds' := by
    rw [eachNode_of_array h.children]
    exact hds'
  have type : (readTypeOf setting' (.index before.length :: base) m).outcome = .ok none := by
    unfold readTypeOf
    rw [object?_eq_asObject?, h.bare "type" (by decide)]
    rfl
  have signatures : ∀ f : Nat → Members → Filling Signature,
      (eachNode m "signatures" f).outcome = .ok [] := by
    intro f
    rw [eachNode, h.bare "signatures" (by decide)]
    rfl
  have names : readTypeParameters m = .ok [] := by
    unfold readTypeParameters
    rw [h.bare "typeParameter" (by decide), h.bare "typeParameters" (by decide)]
    rfl
  have comment : readComment (member m "comment") = .ok none := by
    rw [h.bare "comment" (by decide)]
    rfl
  rw [readDeclaration_eq]
  refine ⟨_, outcome_bind_eq_ok.2 ⟨d, entered, outcome_bind_eq_ok.2 ⟨none, comment,
    outcome_bind_eq_ok.2 ⟨none, type, outcome_bind_eq_ok.2 ⟨[], names,
    outcome_bind_eq_ok.2 ⟨[], signatures _, outcome_bind_eq_ok.2 ⟨ds', each, rfl⟩⟩⟩⟩⟩⟩, ?_, ?_⟩
  · exact congrArg Segment.kind hsegment
  · exact documentedIn_renamed renamed

/-- A wrapped run changes nothing in what is documented in a list. -/
private theorem readings_wrapped {setting setting' : Setting}
    (known : SettingMoved (wrappingIn base depth before run m) setting setting')
    (own : (setting'.created? (.index before.length :: base)).map Declaration.segment =
      some (fileSegment m)) :
    Follows (DocumentedChanged (wrappingIn base depth before run m) fun ds ds' => ds' = ds)
      (readings setting base 0 (before ++ (run ++ after)))
      (readings setting' base 0 (before ++ .object m :: after)) := by
  let region := wrappingRegion base before.length run.length depth (fileSegment m) rfl
  have first := readings_moved region rfl rfl (fun l hl => moved_before hl) known
  have last : Follows
      (List.Forall₂ fun d d' => d' = Declaration.rename (wrappingIn base depth before run m) d)
      (readings setting base (before.length + run.length) after)
      (readings setting' base (before.length + 1) after) :=
    readings_moved region rfl rfl (fun l _ => moved_after) known
  have middle : Follows _ (readings setting base before.length run)
      (readDeclaration setting' (.index before.length :: base) m) :=
    readDeclaration_fileModule h known own
  unfold readings at first middle last ⊢
  rw [objectsFrom_append, objectsFrom_append, objectsFrom_append, objectsFrom, Nat.zero_add]
  refine first.append (Q := fun ds ds' => ∃ rs w bs bs', ds = rs ++ bs ∧ ds' = w :: bs' ∧
    (w.kind = some .externalModule ∧ w.documented =
      Declaration.renameAll (wrappingIn base depth before run m) (Declaration.documentedIn rs)) ∧
    List.Forall₂ (fun d d' => d' = Declaration.rename (wrappingIn base depth before run m) d)
      bs bs') ?_ ?_
  · rw [List.mapM_append, List.mapM_cons]
    refine middle.bind fun rs w _ hw => last.bind fun bs bs' _ hbs => follows_pure ?_
    exact ⟨rs, w, bs, bs', rfl, rfl, hw, hbs⟩
  · rintro as as' _ _ has ⟨rs, w, bs, bs', rfl, rfl, ⟨hkind, hw⟩, hbs⟩
    unfold DocumentedChanged
    rw [documentedIn_middle as' bs' (hkind ▸ rfl), documentedIn_append, documentedIn_append, hw,
      documentedIn_renamed has, documentedIn_renamed hbs]
    simp only [Declaration.renameAll_eq_map, List.map_append]

end

/-! ## File-level modules are transparent -/

/-- Where a run of children of the project, or of a namespace in it, is put into a new file-level module,
the document still loads. The same is documented, in the same order; all link targets stay, and so do all
conversions, whatever the links. The objects of the document repeat no key. -/
theorem fileModule_transparent {path : List Nat} {raw raw' : Members} {p : Project}
    (distinct : (Value.object raw).hasDistinctKeys) (loads : Project.ofMembers raw = .ok p)
    (wrapped : Refilled (Project.numberingOf raw) Wraps path raw raw') :
    ∃ p', Project.ofMembers raw' = .ok p' ∧
      p'.documented.map (·.fullName) = p.documented.map (·.fullName) ∧
      (∀ style, Link.targets style p'.documented = Link.targets style p.documented) ∧
      ∀ resolver, p'.documented.map (convert resolver) = p.documented.map (convert resolver) := by
  obtain ⟨before, wrapped⟩ := wrapped.witness fun _ _ h => h
  obtain ⟨run, wrapped⟩ := wrapped.witness fun _ _ h => h
  obtain ⟨after, wrapped⟩ := wrapped.witness fun _ _ h => h
  obtain ⟨m, wrapped⟩ := wrapped.witness fun _ _ h => h
  let base := childrenAt path []
  let r := wrappingIn base (path.length + 1) before run m
  have nodup := nodup_origins distinct (Project.ofMembers_eq_ok.1 loads).1
  obtain ⟨p', hp', -, documented⟩ := ofMembers_refilled (r := r) (S := ModuleInserted base before m)
    (D := fun ds ds' => ds' = ds) wrapping_moves
    (fun a b l l' ⟨place, h⟩ => ⟨place, h.context a b⟩) (fun a b l l' h => by rw [h]) loads nodup
    wrapped rfl
    (fun items items' s ⟨h, hitems, hitems'⟩ hs => by
      subst hitems hitems'
      exact (outlines_wrapped h hs (Nat.succ_pos _)).mono fun _ _ hl => ⟨_, hl⟩)
    (fun o' hl => ⟨(lookups_inserted hl).1, (lookups_inserted hl).2.1⟩)
    (fun o' items items' hl known ⟨h, hitems, hitems'⟩ => by
      subst hitems hitems'
      refine readings_wrapped h known ?_
      have own := (lookups_inserted hl).2.2
      rw [← created?_stem, Option.map_map] at own
      exact own)
  rw [Declaration.renameAll_eq_map] at documented
  refine ⟨p', hp', ?_, fun style => ?_, fun resolver => ?_⟩
  · rw [documented, List.map_map]
    exact List.map_congr_left fun d _ => d.rename_fullName r
  · rw [documented]
    exact Link.targets_rename style r p.documented
  · rw [documented, List.map_map]
    refine List.map_congr_left fun d _ => ?_
    have same : resolver.Agree resolver := fun _ => rfl
    refine (convert_rename r same d).trans ?_
    rw [Warning.rename_eq_self rfl, Journal.mapNotes_id]

/-- A project of one namespace. -/
def oneNamespace (items : List Value) : Members :=
  [("name", .text "p"), ("kind", .int 0), ("children", .array [.object
    [("name", .text "n"), ("kind", .int 2), ("children", .array items)]])]

/-- A variable whose type is the variable itself. -/
private def inward : Value := .object [("name", .text "v"), ("kind", .int 32), ("type", .object
  [("type", .text "reference"), ("name", .text "v"), ("id", .int 7)]), ("id", .int 7)]

private def filed : Members :=
  [("name", .text "f.idl"), ("kindString", .text "External module"), ("children", .array [inward])]

theorem fileModule_transparent_inNamespace :
    ∃ p p', Project.ofMembers (oneNamespace [inward]) = .ok p ∧
      Project.ofMembers (oneNamespace [.object filed]) = .ok p' ∧
      p.documented.map (·.fullName) = [Text.ofString "n.v"] ∧
      p'.documented.map (·.fullName) = p.documented.map (·.fullName) ∧
      (∀ style, Link.targets style p'.documented = Link.targets style p.documented) ∧
      ∀ resolver, p'.documented.map (convert resolver) = p.documented.map (convert resolver) := by
  have names : ((Project.ofMembers (oneNamespace [inward])).toOption.map fun p =>
      p.documented.map (·.fullName)) = some [Text.ofString "n.v"] := by decide +kernel
  obtain ⟨p, loads, names⟩ := exists_ok_of_map names
  have fileModule : IsFileModule [inward] filed := ⟨rfl, rfl, by
    simp only [List.forall_mem_cons]
    exact ⟨rfl, rfl, rfl, rfl, rfl, rfl, rfl, by simp⟩⟩
  have wrapped : Refilled .legacy Wraps [0] (oneNamespace [inward])
      (oneNamespace [.object filed]) := by
    have inner : Refilled .legacy Wraps [] [("name", .text "n"), ("kind", .int 2),
        ("children", .array [inward])] [("name", .text "n"), ("kind", .int 2),
        ("children", .array [.object filed])] :=
      .here rfl ⟨[], [inward], [], filed, fileModule, rfl, rfl⟩
    have after : member (oneNamespace [inward]) "children" = .array ([] ++ [.object
        [("name", .text "n"), ("kind", .int 2), ("children", .array [inward])]]) := rfl
    exact .inside after ⟨_, rfl, rfl⟩ inner
  obtain ⟨p', loads', same⟩ := fileModule_transparent (by decide) loads wrapped
  exact ⟨p, p', loads, loads', names, same⟩

end DocShape.Document
