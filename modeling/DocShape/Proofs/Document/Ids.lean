import DocShape.Proofs.Conversion.Renaming
import DocShape.Proofs.Document.Renumbered

/-!
Ids are only names (`renumber_documented`): a document in which they have other numbers documents the same,
under the same names and in the same order, with the same link targets and conversions. Nodes that are not
modelled are compared as they are written, ids included; new numbers keep them apart and alike
(`respell_injective`).
-/

namespace DocShape.Document

open Json

/-! ## Nodes that are not modelled -/

/-- The category that a node which is not modelled has, from the value that should name it. -/
def shownCategory (v : Value) : Text :=
  if v.displayOrEmpty.isEmpty then "unknown" else v.displayOrEmpty

/-- Category and text of a node that is not modelled. -/
def sourceOf (m : Members) : Text × Text :=
  (shownCategory (member m "type"), (Value.object m).asciiText)

theorem sourceNode_eq (m : Members) :
    sourceNode m = .unmodelled (sourceOf m).1 (sourceOf m).2 := rfl

/-- The category of a node that has a list or an object for it. -/
theorem shownCategory_of_isContainer {v : Value} (h : v.isContainer) :
    shownCategory v = (if v.isEmpty then "unknown" else v.display : Text) := by
  unfold shownCategory Value.displayOrEmpty
  cases v.isEmpty with
  | true => rfl
  | false =>
    rw [if_neg Bool.false_ne_true, if_neg Bool.false_ne_true]
    cases v with
    | array items => rfl
    | object members => rfl
    | _ => cases h

theorem display_renumber {v v' : Value} (h : v.isContainer) (h' : v'.isContainer)
    (same : v.display = v'.display) (f : Int → Int) :
    (v.renumber f false).display = (v'.renumber f false).display := by
  have spelled : ∀ {v : Value}, v.isContainer → v.display = v.spelled := by
    intro v hv
    cases v <;> first | rfl | cases hv
  rw [spelled h, spelled h'] at same
  rw [spelled (by simpa using h), spelled (by simpa using h')]
  exact spelled_renumber same f

section

variable {f : Int → Int} {m m' : Members}

theorem nodup_keys_renumber (h : (Table.keys m).Nodup) :
    (Table.keys (Value.renumberMembers f m)).Nodup := by
  unfold Table.keys at h ⊢
  rwa [keys_renumberMembers]

/-- Nodes that are written alike are so with new numbers. -/
theorem sourceOf_renumber (h : (Table.keys m).Nodup) (h' : (Table.keys m').Nodup)
    (same : sourceOf m = sourceOf m') (f : Int → Int) :
    sourceOf (Value.renumberMembers f m) = sourceOf (Value.renumberMembers f m') := by
  obtain ⟨category, text⟩ := Prod.ext_iff.1 same
  refine Prod.ext ?_ (asciiText_renumber text f)
  have both := isContainer_of_asciiText h h' text "type" (by decide)
  dsimp only [sourceOf] at category ⊢
  rw [member_renumber _ (by decide), member_renumber _ (by decide)]
  generalize member m "type" = v, member m' "type" = v' at category both ⊢
  cases hv : v.isContainer with
  | false =>
    rw [Value.renumber_of_not_isContainer hv, Value.renumber_of_not_isContainer (both ▸ hv)]
    exact category
  | true =>
    have hv' : v'.isContainer := both ▸ hv
    have word : (Text.ofString "unknown").head?.any CodePoint.isAsciiLetter := by decide
    rw [shownCategory_of_isContainer hv, shownCategory_of_isContainer hv'] at category
    rw [shownCategory_of_isContainer (by simpa using hv), shownCategory_of_isContainer (by simpa using hv'),
      Value.isEmpty_renumber, Value.isEmpty_renumber]
    cases he : v.isEmpty <;> cases he' : v'.isEmpty <;> rw [he, he'] at category
    · exact display_renumber hv hv' category f
    · exact absurd category (display_ne hv word)
    · exact absurd category.symm (display_ne hv' word)
    · rfl

open Classical in
/-- The new spelling of a node that is not modelled: that of a node with this spelling. -/
noncomputable def respell (f : Int → Int) (source : Text × Text) : Text × Text :=
  if h : ∃ m : Members, (Table.keys m).Nodup ∧ sourceOf m = source then
    sourceOf (Value.renumberMembers f h.choose)
  else source

theorem respell_sourceOf (h : (Table.keys m).Nodup) :
    respell f (sourceOf m) = sourceOf (Value.renumberMembers f m) := by
  have found : ∃ m' : Members, (Table.keys m').Nodup ∧ sourceOf m' = sourceOf m := ⟨m, h, rfl⟩
  rw [respell, dif_pos found]
  exact sourceOf_renumber found.choose_spec.1 h found.choose_spec.2 f

/-- Nodes that are not modelled stay apart. -/
theorem respell_injective (hf : Function.Injective f) : Function.Injective (respell f) := by
  have back := Function.leftInverse_invFun hf
  intro a b same
  by_cases ha : ∃ m : Members, (Table.keys m).Nodup ∧ sourceOf m = a
  · obtain ⟨m, hm, rfl⟩ := ha
    rw [respell_sourceOf hm] at same
    by_cases hb : ∃ m : Members, (Table.keys m).Nodup ∧ sourceOf m = b
    · obtain ⟨m', hm', rfl⟩ := hb
      rw [respell_sourceOf hm'] at same
      have old := sourceOf_renumber (nodup_keys_renumber hm) (nodup_keys_renumber hm') same
        (Function.invFun f)
      rwa [Value.renumberMembers_renumberMembers back, Value.renumberMembers_renumberMembers back]
        at old
    · rw [respell, dif_neg hb] at same
      exact absurd ⟨_, nodup_keys_renumber hm, same⟩ hb
  · rw [respell, dif_neg ha] at same
    by_cases hb : ∃ m : Members, (Table.keys m).Nodup ∧ sourceOf m = b
    · obtain ⟨m', hm', rfl⟩ := hb
      rw [respell_sourceOf hm'] at same
      exact absurd ⟨_, nodup_keys_renumber hm', same.symm⟩ ha
    · rwa [respell, dif_neg hb] at same

end

/-! ## Twins with new numbers -/

/-- New numbers for ids, and new spellings for the nodes that are not modelled. -/
noncomputable def renumbering (f : Int → Int) (hf : Function.Injective f) : Renaming where
  address p := p
  around _ place := place
  id i := .integer (f i.number)
  unmodelled := respell f
  address_injective := Function.injective_id
  around_padded := Place.padded_same
  unmodelled_injective := respell_injective hf

section

variable {f : Int → Int} {hf : Function.Injective f} {m m' : Members}

theorem sourceNode_renumber (h : Renumbered f m m') :
    sourceNode m' = (sourceNode m).rename (renumbering f hf) := by
  obtain ⟨clean, rfl⟩ := h
  rw [sourceNode_eq, sourceNode_eq, TypeNode.rename]
  show _ = TypeNode.unmodelled (respell f (sourceOf m)).1 (respell f (sourceOf m)).2
  rw [respell_sourceOf clean.keys]

theorem categoryOf_renumber (h : Clean (.object m)) :
    categoryOf (Value.renumberMembers f m) = categoryOf m := by
  have type : member (Value.renumberMembers f m) "type" = (member m "type").renumber f false :=
    member_renumber _ (by decide)
  cases hc : (member m "type").isContainer with
  | true =>
    rw [categoryOf_of_isContainer hc, categoryOf_of_isContainer (by rw [type]; simpa using hc)]
  | false =>
    rw [Value.renumber_of_not_isContainer hc] at type
    have literal : ∀ category, stringLiteral? category (Value.renumberMembers f m) =
        stringLiteral? category m := fun category => by
      unfold stringLiteral?
      rw [h.member_renumber _ (by decide)]
    unfold categoryOf
    simp only [type, literal]

theorem header_renumber (numbering : Numbering) (h : Renumbered f m m') :
    Header.read numbering m' =
      (Header.read numbering m).map (Header.rename (renumbering f hf)) := by
  obtain ⟨clean, rfl⟩ := h
  have id : Id.ofValue? (member (Value.renumberMembers f m) "id") =
      (Id.ofValue? (member m "id")).map (renumbering f hf).id := by
    unfold member
    rw [member?_renumber]
    cases hv : member? m "id" with
    | none => rfl
    | some v => exact ofValue?_renumber fun b hb => clean.ne_bool (by decide) b (hb ▸ hv)
  unfold Header.read
  rw [member_renumber "kind" (by decide), member_renumber "kindString" (by decide),
    kind_read_renumber, readOptional_renumber, id, clean.member_renumber _ (by decide)]
  cases Kind.read numbering (member m "kind") (member m "kindString") with
  | error e => rfl
  | ok kind =>
    cases readOptional m with
    | error e => rfl
    | ok isOptional => rfl

/-- The whole document, under new numbers. -/
noncomputable def renumberedRegion (hf : Function.Injective f) : Region (renumbering f hf) :=
  .whole _ (fun _ => rfl) fun _ _ => rfl

theorem form_renumber (p : Pointer) (h : Renumbered f m m') :
    FormAlike (renumberedRegion hf).zone (fun _ => Renumbered f) (fun _ => Renumbered f)
      (Renumbered f) p m m' (form m) (form m') := by
  have source : _ = (sourceNode m).rename (renumbering f hf) := sourceNode_renumber h
  have listed : ∀ {key}, isIdKey key = false → ∀ q, ListedAt (renumberedRegion hf).zone
      (fun _ => Renumbered f) q (member m key) (member m' key) := fun hkey =>
    (listed_member_renumber h hkey).at _
  have object : ∀ {key}, isIdKey key = false →
      BothObjects (Renumbered f) (member m key) (member m' key) := fun hkey => by
    rw [h.2, member_renumber _ hkey]
    exact bothObjects_renumber (h.1.member _)
  refine formAlike_of_category ?_ (fun _ => source) (fun _ => ?_) (fun _ => ?_)
    (fun _ => object (by decide))
    (fun _ => object (by decide)) (fun g _ => listed (by cases g <;> decide) _)
    (fun _ => listed (by decide) _) fun _ => h
  · rw [h.2, categoryOf_renumber h.1]
  · rw [h.2, h.1.member_renumber _ (by decide)]
  · rw [h.2, h.1.member_renumber _ (by decide)]

theorem ownsAlike_renumber (p : Pointer) (h : Renumbered f m m') :
    OwnsAlike (renumberedRegion hf).zone (fun _ => Renumbered f) (fun _ => Renumbered f) p m m' := by
  obtain ⟨clean, rfl⟩ := h
  have type := member_renumber (f := f) (m := m) "type" (by decide)
  refine ⟨?_, ?_, ?_⟩
  · rw [member_renumber _ (by decide), readComment_renumber (clean.member _)]
  · rw [type]
    exact bothObjects_renumber (clean.member _)
  · rw [type]
    exact (inlineIn_renumber (clean.member _) _).imp fun c c' h => ⟨trivial, h⟩

/-- A document that does not display its ids is a twin of itself with new numbers. -/
noncomputable def Twins.renumbered (hf : Function.Injective f) {numbering numbering' : Numbering}
    (same : numbering' = numbering) :
    Twins (renumbering f hf) (renumberedRegion hf).zone numbering numbering' where
  declaration _ := Renumbered f
  signature _ := Renumbered f
  parameter _ := Renumbered f
  type _ := Renumbered f
  target := Renumbered f
  header h := by rw [same, header_renumber numbering h]
  owner _ := ownsAlike_renumber _
  typeParameters h := by rw [h.2, readTypeParameters_renumber h.1]
  signatures h := (listed_member_renumber h (by decide)).at _ _
  children h := (listed_member_renumber h (by decide)).at _ _
  signatureName h := by rw [h.2, h.1.member_renumber _ (by decide)]
  signatureOwner _ := ownsAlike_renumber _
  positions _ _ := rfl
  parameters h := (listed_member_renumber h (by decide)).whole
  parameterName h := by rw [h.2, h.1.member_renumber _ (by decide)]
  parameterOwner _ := ownsAlike_renumber _
  parameterOptional h := by rw [h.2, readOptional_renumber]
  form := form_renumber _

/-! ## Targets of references -/

/-- References point at the same sites under their new numbers. -/
theorem target?_renumber {o o' : Outline} (h : o.sites = sitesOf o.stems)
    (h' : o'.sites = sitesOf o'.stems) (stems : StemsRenamed (renumbering f hf) o o')
    (node : Renumbered f m m') :
    (Setting.ofOutline o').target? m' =
      ((Setting.ofOutline o).target? m).map (renumbering f hf).site := by
  obtain ⟨clean, rfl⟩ := node
  have value : (member? (Value.renumberMembers f m) "id").getD
      (member (Value.renumberMembers f m) "target") =
        ((member? m "id").getD (member m "target")).renumber f true := by
    unfold member
    rw [member?_renumber, member?_renumber]
    cases member? m "id" with
    | some v => rfl
    | none => cases member? m "target" <;> rfl
  have other : ∀ b, (member? m "id").getD (member m "target") ≠ .bool b := by
    intro b
    unfold member
    cases hi : member? m "id" with
    | some v =>
      rintro rfl
      exact clean.ne_bool (by decide) b hi
    | none =>
      cases ht : member? m "target" with
      | some v =>
        rintro rfl
        exact clean.ne_bool (by decide) b ht
      | none => rintro ⟨⟩
  unfold Setting.target?
  rw [value, ofValue?_renumber other]
  cases Id.ofValue? ((member? m "id").getD (member m "target")) with
  | none => rfl
  | some i =>
    show o'.sites.lookup (f i.number) = (o.sites.lookup i.number).map _
    rw [h, h', stems, lookup_sitesOf_renumber hf fun _ => rfl]

end

/-! ## Ids are only names -/

theorem numberingOf_renumber (f : Int → Int) (raw : Members) :
    Project.numberingOf (Value.renumberMembers f raw) = Project.numberingOf raw := by
  have one : ∀ v : Value, (v.renumber f false).isOne = v.isOne := fun v => by cases v <;> rfl
  unfold Project.numberingOf
  rw [member?_renumber, member_renumber _ (by decide), one, Option.isSome_map]

/-- A document whose ids have other numbers, distinct ones where they were distinct, loads as before. The
same full names are documented in the same order, with the same link targets, and under all links the
conversions have the same outcomes. The document displays no ids, and its objects repeat no key. -/
theorem renumber_documented {f : Int → Int} (hf : Function.Injective f) {raw : Members}
    (distinct : (Value.object raw).hasDistinctKeys) (hides : hidesIds (.object raw)) :
    Alike (fun p p' : Project =>
        p'.documented.map (·.fullName) = p.documented.map (·.fullName) ∧
        (∀ style, Link.targets style p'.documented = Link.targets style p.documented) ∧
        ∀ resolver, p'.documented.map (fun d => (convert resolver d).outcome) =
          p.documented.map fun d => (convert resolver d).outcome)
      (Project.ofMembers raw) (Project.ofMembers (Value.renumberMembers f raw)) := by
  let r := renumbering f hf
  have twins := ofMembers_twin (Twins.renumbered hf (numberingOf_renumber f raw))
    (show Renumbered f raw _ from ⟨⟨distinct, hides⟩, rfl⟩) fun o o' ho ho' stems n n' hn =>
      target?_renumber (sites_eq ho) (sites_eq ho') stems hn
  refine twins.mono fun p p' ⟨root, _⟩ => ?_
  have documented : p'.documented = p.documented.map (·.rename r) := by
    unfold Project.documented
    rw [root, Declaration.documented_rename, Declaration.renameAll_eq_map]
  rw [documented]
  refine ⟨?_, fun style => ?_, fun resolver => ?_⟩
  · rw [List.map_map]
    exact List.map_congr_left fun d _ => d.rename_fullName r
  · exact Link.targets_rename style r p.documented
  · rw [List.map_map]
    refine List.map_congr_left fun d _ => ?_
    exact outcome_convert_rename r (fun _ => rfl) d

/-- A variable of a tuple: a reference to the variable, and a node that is not modelled and has an id. -/
private def numbered (id : Int) : Members :=
  [("name", .text "p"), ("kind", .int 0), ("children", .array [.object
    [("id", .int id), ("name", .text "v"), ("kind", .int 32), ("type", .object
      [("type", .text "tuple"), ("elements", .array
        [.object [("type", .text "reference"), ("name", .text "v"), ("target", .int id)],
          .object [("type", .text "query"), ("id", .int id)]])])]])]

theorem renumber_documented_numbered :
    ∃ p p', Project.ofMembers (numbered 1) = .ok p ∧ Project.ofMembers (numbered (-6)) = .ok p' ∧
      p.documented.map (·.fullName) = [Text.ofString "v"] ∧
      p'.documented.map (·.fullName) = p.documented.map (·.fullName) ∧
      (∀ style, Link.targets style p'.documented = Link.targets style p.documented) ∧
      ∀ resolver, p'.documented.map (fun d => (convert resolver d).outcome) =
        p.documented.map fun d => (convert resolver d).outcome := by
  have names : ((Project.ofMembers (numbered 1)).toOption.map fun p =>
      p.documented.map (·.fullName)) = some [Text.ofString "v"] := by decide +kernel
  have shift : Function.Injective fun n : Int => n - 7 := fun a b h => by
    dsimp only at h
    omega
  obtain ⟨p, loads, names⟩ := Journal.exists_ok_of_map names
  obtain ⟨p', loads', same⟩ :=
    (renumber_documented shift (by decide) (by decide)).exists_ok loads
  exact ⟨p, p', loads, loads', names, same⟩

end DocShape.Document
