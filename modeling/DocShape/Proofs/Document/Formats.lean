import DocShape.Proofs.Document.Upgraded

/-!
The legacy and the current form of a document load to the same declarations (`upgrade_sameGraph`): at
every node, kinds, comments, literals, type parameters and references of the one form are read as those of
the other. The names of types must not hide declarations, since then they would show their kinds.
-/

namespace DocShape.Document

open Json

/-! ## Comments -/

section

theorem joinParts_partsOf (text : Value) : joinParts (partsOf text) = .ok text.displayOrEmpty := by
  show Except.ok (text.displayOrEmpty ++ []) = _
  rw [List.append_nil]

theorem returnsTag_returnsTagOf (text : Value) :
    returnsTag (returnsTagOf text) = .ok text.displayOrEmpty := joinParts_partsOf text

theorem newKey_comment (node : Members) (k : Text) :
    k = "shortText" ∧ Slot.newKey .comment node k = "summary" ∨
      k = "returns" ∧ Slot.newKey .comment node k = "blockTags" ∨
      k ≠ "shortText" ∧ k ≠ "returns" ∧ Slot.newKey .comment node k = k := by
  by_cases hs : k = Text.ofString "shortText"
  · exact .inl ⟨hs, if_pos hs⟩
  by_cases hr : k = Text.ofString "returns"
  · exact .inr (.inl ⟨hr, (if_neg hs).trans (if_pos hr)⟩)
  · exact .inr (.inr ⟨hs, hr, (if_neg hs).trans (if_neg hr)⟩)

/-- The texts of the older form are the parts and tags of the newer one. -/
theorem texts_upgrade {m : Members} (noSummary : member? m "summary" = none)
    (noTags : member? m "blockTags" = none) :
    joinParts (member (upgradeMembers .comment m m) "summary") =
        .ok (member m "shortText").displayOrEmpty ∧
      returnsTag (member (upgradeMembers .comment m m) "blockTags") =
        .ok (member m "returns").displayOrEmpty := by
  constructor
  · have keys : ∀ e ∈ m, Slot.newKey .comment m e.1 = "summary" ↔ e.1 = "shortText" := by
      intro e he
      rcases newKey_comment m e.1 with ⟨hk, h⟩ | ⟨hk, h⟩ | ⟨hs, hr, h⟩ <;> rw [h]
      · exact ⟨fun _ => hk, fun _ => rfl⟩
      · rw [hk]
        decide
      · exact ⟨fun hk => absurd hk (ne_of_member?_eq_none noSummary e he), fun hk => absurd hk hs⟩
    unfold member
    rw [lookup_upgrade keys]
    cases member? m "shortText" with
    | none => rfl
    | some v =>
      refine (joinParts_partsOf _).trans ?_
      rw [show Slot.child .comment m _ = .other from rfl, upgrade_other]
      rfl
  · have keys : ∀ e ∈ m, Slot.newKey .comment m e.1 = "blockTags" ↔ e.1 = "returns" := by
      intro e he
      rcases newKey_comment m e.1 with ⟨hk, h⟩ | ⟨hk, h⟩ | ⟨hs, hr, h⟩ <;> rw [h]
      · rw [hk]
        decide
      · exact ⟨fun _ => hk, fun _ => rfl⟩
      · exact ⟨fun hk => absurd hk (ne_of_member?_eq_none noTags e he), fun hk => absurd hk hr⟩
    unfold member
    rw [lookup_upgrade keys]
    cases member? m "returns" with
    | none => rfl
    | some v =>
      refine (returnsTag_returnsTagOf _).trans ?_
      rw [show Slot.child .comment m _ = .other from rfl, upgrade_other]
      rfl

/-- Where its two texts are found, a comment is read. -/
theorem readComment_of {m : Members} {summary returns : Text}
    (hs : (if (member m "shortText").displayOrEmpty.isEmpty then joinParts (member m "summary")
      else .ok (member m "shortText").displayOrEmpty) = .ok summary)
    (hr : (if (member m "returns").displayOrEmpty.isEmpty then returnsTag (member m "blockTags")
      else .ok (member m "returns").displayOrEmpty) = .ok returns) :
    readComment (.object m) = .ok (some ⟨summary, (member m "text").displayOrEmpty, returns⟩) := by
  simp only [readComment, hs, hr]
  rfl

theorem member_of_member?_eq_none {m : Members} {key : Text} (h : member? m key = none) :
    member m key = .null := by
  rw [member, h]
  rfl

theorem readComment_upgrade {v : Value} (h : Fits .comment v) :
    readComment (upgrade .comment v) = readComment v := by
  cases v with
  | object m =>
    obtain ⟨noSummary, noTags⟩ := h.comment
    obtain ⟨summary, tags⟩ := texts_upgrade noSummary noTags
    have absent : ∀ key : Text, key = "shortText" ∨ key = "returns" →
        member (upgradeMembers .comment m m) key = .null := by
      intro key hkey
      unfold member
      rw [lookup_upgrade_eq_none fun e _ => ?_]
      · rfl
      · rcases newKey_comment m e.1 with ⟨-, hk⟩ | ⟨-, hk⟩ | ⟨hs, hr, hk⟩ <;> rw [hk]
        · rcases hkey with rfl | rfl <;> decide
        · rcases hkey with rfl | rfl <;> decide
        · rcases hkey with rfl | rfl <;> assumption
    have details : member (upgradeMembers .comment m m) "text" = member m "text" := by
      refine (member_upgrade (fun e _ => ?_) fun v => ?_).trans (upgrade_other _)
      · rcases newKey_comment m e.1 with ⟨hk, h⟩ | ⟨hk, h⟩ | ⟨-, -, h⟩
        · rw [h, hk]
          decide
        · rw [h, hk]
          decide
        · rw [h]
      · rfl
    have whole : ∀ t : Text, (if t.isEmpty then .ok [] else .ok t : Except Fault Text) = .ok t :=
      fun t => by cases t <;> rfl
    have older : readComment (.object m) = .ok (some ⟨(member m "shortText").displayOrEmpty,
        (member m "text").displayOrEmpty, (member m "returns").displayOrEmpty⟩) := by
      refine readComment_of ?_ ?_
      · rw [member_of_member?_eq_none noSummary]
        exact whole _
      · rw [member_of_member?_eq_none noTags]
        exact whole _
    have newer := readComment_of (m := upgradeMembers .comment m m)
      (by rw [absent _ (.inl rfl)]; exact summary) (by rw [absent _ (.inr rfl)]; exact tags)
    rw [details] at newer
    exact newer.trans older.symm
  | _ => rfl

end

/-! ## Declarations, signatures and parameters -/

section

variable {m m' : Members}

theorem newKey_declaration (node : Members) (k : Text) :
    k = "typeParameter" ∧ Slot.newKey .declaration node k = "typeParameters" ∨
      k ≠ "typeParameter" ∧ Slot.newKey .declaration node k = k := by
  by_cases hk : k = Text.ofString "typeParameter"
  · exact .inl ⟨hk, if_pos hk⟩
  · exact .inr ⟨hk, if_neg hk⟩

theorem newKey_declaration_eq_iff {node : Members} {k key : Text} (old : key ≠ "typeParameter")
    (new : key ≠ "typeParameters") : Slot.newKey .declaration node k = key ↔ k = key := by
  rcases newKey_declaration node k with ⟨hk, h⟩ | ⟨-, h⟩ <;> rw [h]
  rw [hk]
  exact ⟨fun he => absurd he.symm new, fun he => absurd he.symm old⟩

/-- A member of a declaration that is found under its old key. -/
theorem member_upgradeDeclaration {key : Text} (old : key ≠ "typeParameter")
    (new : key ≠ "typeParameters") (kind : key ≠ "kind") :
    member (upgradeDeclaration m) key = upgrade (Slot.child .declaration m key) (member m key) :=
  member_upgrade (fun _ _ => newKey_declaration_eq_iff old new) fun _ => if_neg kind

theorem kind_upgradeDeclaration :
    member (upgradeDeclaration m) "kind" = Kind.upgradeNumber (member m "kind") := by
  unfold member upgradeDeclaration
  rw [lookup_upgrade fun _ _ => newKey_declaration_eq_iff (by decide) (by decide)]
  cases member? m "kind" with
  | none => rfl
  | some v => exact congrArg Kind.upgradeNumber (upgrade_other v)

theorem header_upgrade (h : Upgraded .declaration m m') :
    Header.read .current m' = (Header.read .legacy m).map (Header.rename .identity) := by
  obtain ⟨fits, rfl⟩ := h
  obtain ⟨noName, -, upgradable⟩ := fits.declaration
  have kept : ∀ key : Text, key ≠ "typeParameter" → key ≠ "typeParameters" → key ≠ "kind" →
      Slot.child .declaration m key = .other → member (upgradeDeclaration m) key = member m key :=
    fun _ old new kind other => by rw [member_upgradeDeclaration old new kind, other, upgrade_other]
  have name := kept "name" (by decide) (by decide) (by decide) rfl
  have id := kept "id" (by decide) (by decide) (by decide) rfl
  have flags := kept "flags" (by decide) (by decide) (by decide) rfl
  have kindName := kept "kindString" (by decide) (by decide) (by decide) rfl
  have same : Header.read .current (upgradeDeclaration m) = Header.read .legacy m := by
    unfold Header.read readOptional
    rw [kind_upgradeDeclaration, name, id, flags, kindName, member_of_member?_eq_none noName,
      Kind.read_upgradeNumber upgradable]
  exact same.trans (Header.map_rename_eq_self (fun _ => rfl) _).symm

theorem nodes_of_isEmpty {v : Value} (h : v.isEmpty) : nodes v = .ok [] := by
  cases v with
  | array items =>
    obtain rfl := List.isEmpty_iff.1 h
    rfl
  | text t => rfl
  | object m => rfl
  | _ => first | rfl | exact if_pos h

theorem readTypeParameters_upgrade (h : Upgraded .declaration m m') :
    readTypeParameters m' = readTypeParameters m := by
  obtain ⟨fits, rfl⟩ := h
  obtain ⟨-, noNewer, -⟩ := fits.declaration
  have gone : member (upgradeMembers .declaration m m) "typeParameter" = .null := by
    refine member_of_member?_eq_none (lookup_upgrade_eq_none fun e _ => ?_)
    rcases newKey_declaration m e.1 with ⟨-, hk⟩ | ⟨hk, h⟩
    · rw [hk]
      decide
    · rwa [h]
  have moved : member (upgradeMembers .declaration m m) "typeParameters" =
      member m "typeParameter" := by
    have keys : ∀ e ∈ m, Slot.newKey .declaration m e.1 = "typeParameters" ↔
        e.1 = "typeParameter" := by
      intro e he
      rcases newKey_declaration m e.1 with ⟨hk, h⟩ | ⟨hk, h⟩ <;> rw [h]
      · exact ⟨fun _ => hk, fun _ => rfl⟩
      · exact ⟨fun hn => absurd hn (ne_of_member?_eq_none noNewer e he), fun ho => absurd ho hk⟩
    unfold member
    rw [lookup_upgrade keys]
    cases member? m "typeParameter" with
    | none => rfl
    | some v => exact upgrade_other v
  unfold readTypeParameters
  dsimp only
  rw [gone, moved, member_of_member?_eq_none noNewer]
  split
  · cases he : (member m "typeParameter").isEmpty with
    | false => rfl
    | true =>
      rw [nodes_of_isEmpty he]
      rfl
  · rename_i hn
    exact absurd rfl hn

/-- The whole document, where nothing has a new name. -/
def wholeRegion : Region .identity := .whole _ (fun _ => rfl) fun _ _ => rfl

/-- What hangs off a node by a type and a comment. -/
theorem ownsAlike_upgrade (p : Pointer) (type : Fits .type (member m "type"))
    (type' : member m' "type" = upgrade .type (member m "type"))
    (comment : Fits .comment (member m "comment"))
    (comment' : member m' "comment" = upgrade .comment (member m "comment")) :
    OwnsAlike wholeRegion.zone (fun _ => Upgraded .declaration) (fun _ => Upgraded .type) p m m' := by
  refine ⟨?_, ?_, ?_⟩
  · rw [comment', readComment_upgrade comment]
  · rw [type']
    exact bothObjects_upgrade rfl type
  · rw [type']
    exact (inlineIn_upgrade rfl type _).imp fun c c' h => ⟨trivial, h⟩

end

/-! ## Types -/

section

variable {m m' : Members}

theorem form_ne_of_isModelled (h : isModelled m) : form m ≠ .leaf (sourceNode m) := by
  intro hf
  rw [isModelled, hf] at h
  cases h

theorem categoryOf_upgrade (h : Fits .type (.object m)) :
    categoryOf (upgradeMembers .type m m) = categoryOf m := by
  obtain ⟨modelled, literal, -⟩ := h.type
  have inner : Slot.type.isInner := rfl
  have keys : ∀ k, Slot.newKey .type m k = "type" ↔ k = "type" := fun k =>
    Slot.newKey_eq_iff inner (by decide) (by decide)
  have type : member (upgradeMembers .type m m) "type" =
      Slot.newValue .type "type" (upgrade (Slot.child .type m "type") (member m "type")) := by
    unfold member
    rw [lookup_upgrade fun e _ => keys e.1]
    cases member? m "type" <;> rfl
  have value : member (upgradeMembers .type m m) "value" =
      upgrade (Slot.child .type m "value") (member m "value") :=
    member_upgrade_inner inner "value" (by decide) (by decide) (by decide)
  cases ht : (member m "type").isText "stringLiteral" with
  | true =>
    rw [Value.isText_iff.1 ht] at literal type
    obtain ⟨t, hv⟩ : ∃ t, member m "value" = .text t := by
      have text := literal rfl
      cases hv : member m "value" with
      | text t => exact ⟨t, rfl⟩
      | _ =>
        rw [hv] at text
        cases text
    rw [hv] at value
    unfold categoryOf stringLiteral?
    rw [type, value, hv, Value.isText_iff.1 ht]
    rfl
  | false =>
    have plain : (member m "type").isContainer = false := by
      by_contra hc
      have other := categoryOf_of_isContainer (by simpa using hc)
      exact form_ne_of_isModelled modelled (by rw [form, other])
    have stays : Slot.newValue .type "type" (member m "type") = member m "type" :=
      Slot.newValue_node inner fun _ => ht
    rw [upgrade_of_not_isContainer plain, stays] at type
    have same : stringLiteral? (member m "type").displayOrEmpty (upgradeMembers .type m m) =
        stringLiteral? (member m "type").displayOrEmpty m := by
      unfold stringLiteral?
      rw [value]
      cases hv : member m "value" with
      | text t => rfl
      | _ =>
        have other : (member m "type").displayOrEmpty ≠ Text.ofString "stringLiteral" := fun he => by
          have text := literal he
          rw [hv] at text
          cases text
        rw [if_neg other, if_neg other]
        rfl
    unfold categoryOf
    simp only [type, same]

/-- A reference and the same reference in the newer form. -/
def Renewed (m m' : Members) : Prop := Upgraded .type m m' ∧ categoryOf m = .reference

theorem form_upgrade (p : Pointer) (h : Upgraded .type m m') :
    FormAlike wholeRegion.zone (fun _ => Upgraded .declaration) (fun _ => Upgraded .type) Renewed p
      m m' (form m) (form m') := by
  have whole := h
  obtain ⟨fits, rfl⟩ := h
  have names := check_of_everywhere fits.names
  simp only [Slot.node, Slot.hasPlainNames, Bool.and_eq_true, List.isEmpty_iff] at names
  have inner : Slot.type.isInner := rfl
  have moved : ∀ {key : Text}, key ≠ "id" → key ≠ "target" → key ≠ "type" →
      member (upgradeMembers .type m m) key = upgrade (Slot.child .type m key) (member m key) :=
    member_upgrade_inner inner _
  have shown : ∀ {key : Text}, key = "name" ∨ key = "qualifiedName" →
      Slot.child .type m key = .shown := by
    rintro key (rfl | rfl) <;> rfl
  have read : ∀ {key : Text}, key ≠ "declaration" → key ≠ "name" → key ≠ "qualifiedName" →
      Slot.child .type m key = Slot.typeChild m key := by
    intro key hd hn hq
    have outside : Slot.isInline m key = false := by
      rw [Slot.isInline, beq_eq_false_iff_ne.2 hd, Bool.false_and]
    rw [Slot.child, outside]
    simp [hn, hq]
  refine formAlike_of_category (categoryOf_upgrade fits)
    (fun hf => absurd hf (form_ne_of_isModelled fits.type.1)) (fun _ => ?_) (fun _ => ?_) (fun hc => ?_) (fun hc => ?_)
    (fun g hc => ?_) (fun hc => ?_) fun hc => ⟨whole, hc⟩
  · rw [moved (by decide) (by decide) (by decide), shown (.inl rfl), upgrade_shown _ [] names.1]
  · rw [moved (by decide) (by decide) (by decide), shown (.inr rfl), upgrade_shown _ [] names.2]
  · have below := fits.member "elementType"
    have slot : Slot.child .type m "elementType" = .type := by
      rw [read (by decide) (by decide) (by decide), Slot.typeChild, hc]
      rfl
    rw [moved (by decide) (by decide) (by decide), slot]
    exact bothObjects_upgrade rfl (slot ▸ below)
  · rw [moved (by decide) (by decide) (by decide)]
    have below := fits.member "declaration"
    cases hv : member m "declaration" with
    | object d =>
      have hd : inlineDeclaration? m = some d :=
        inlineDeclaration?_eq_some.2 ⟨eq_text_of_reflection (type_of_categoryOf.1 hc), hv⟩
      have slot : Slot.child .type m "declaration" = .declaration := child_declaration inner hd
      rw [slot]
      exact bothObjects_upgrade rfl (slot ▸ hv ▸ below)
    | _ => exact .none
  · have below := fits.member g.key
    have slot : Slot.child .type m g.key = .each .type := by
      rw [read (by cases g <;> decide) (by cases g <;> decide) (by cases g <;> decide),
        Slot.typeChild, hc]
      exact if_pos rfl
    rw [moved (by cases g <;> decide) (by cases g <;> decide) (by cases g <;> decide), slot]
    exact (listed_upgrade rfl (slot ▸ below)).at _ _
  · have below := fits.member "typeArguments"
    have slot : Slot.child .type m "typeArguments" = .each .type := by
      rw [read (by decide) (by decide) (by decide), Slot.typeChild, hc]
      rfl
    rw [moved (by decide) (by decide) (by decide), slot]
    exact (listed_upgrade rfl (slot ▸ below)).at _ _

end

/-! ## Targets -/

theorem ofValue?_upgrade (slot : Slot) (v : Value) :
    Id.ofValue? (upgrade slot v) = Id.ofValue? v := by
  cases v <;> rfl

/-- What a reference points at stays when its id becomes its target. -/
theorem targetValue_upgrade {m m' : Members} (h : Renewed m m') :
    Id.ofValue? ((member? m' "id").getD (member m' "target")) =
      Id.ofValue? ((member? m "id").getD (member m "target")) := by
  obtain ⟨⟨fits, rfl⟩, hc⟩ := h
  have inner : Slot.type.isInner := rfl
  have noTarget := fits.type.2.2 (type_of_categoryOf.2 hc)
  have value : ∀ v, Slot.newValue .type "id" (upgrade (Slot.child .type m "id") v) =
      upgrade (Slot.child .type m "id") v := fun v =>
    Slot.newValue_node inner fun he => absurd he (by decide)
  cases hn : isNumbered m with
  | true =>
    have gone : member? (upgradeMembers .type m m) "id" = none := by
      refine lookup_upgrade_eq_none fun e _ => ?_
      by_cases hk : e.1 = Text.ofString "id"
      · rw [show Slot.newKey .type m e.1 = "target" from if_pos ⟨hk, hn⟩]
        decide
      · rwa [show Slot.newKey .type m e.1 = e.1 from if_neg fun both => hk both.1]
    have keys : ∀ e ∈ m, Slot.newKey .type m e.1 = "target" ↔ e.1 = "id" := by
      intro e he
      by_cases hk : e.1 = Text.ofString "id"
      · exact ⟨fun _ => hk, fun _ => if_pos ⟨hk, hn⟩⟩
      · rw [show Slot.newKey .type m e.1 = e.1 from if_neg fun both => hk both.1]
        exact ⟨fun ht => absurd ht (ne_of_member?_eq_none noTarget e he), fun hid => absurd hid hk⟩
    rw [gone, member, lookup_upgrade keys]
    cases hid : member? m "id" with
    | none =>
      rw [isNumbered, member_of_member?_eq_none hid, Bool.and_eq_true] at hn
      cases hn.2
    | some v =>
      show Id.ofValue? (Slot.newValue .type "id" (upgrade _ v)) = Id.ofValue? v
      rw [value, ofValue?_upgrade]
  | false =>
    have keys : ∀ k : Text, ∀ e ∈ m, Slot.newKey .type m e.1 = k ↔ e.1 = k := fun k e _ => by
      rw [show Slot.newKey .type m e.1 = e.1 from Slot.newKey_node inner fun _ => hn]
    rw [member, lookup_upgrade (keys _), lookup_upgrade (keys _), member, noTarget]
    cases member? m "id" with
    | none => rfl
    | some v =>
      show Id.ofValue? (Slot.newValue .type "id" (upgrade _ v)) = Id.ofValue? v
      rw [value, ofValue?_upgrade]

theorem target?_upgrade {o o' : Outline} (h : o.sites = sitesOf o.stems)
    (h' : o'.sites = sitesOf o'.stems) (stems : StemsRenamed .identity o o') {m m' : Members}
    (node : Renewed m m') : (Setting.ofOutline o').target? m' =
      ((Setting.ofOutline o).target? m).map Renaming.identity.site :=
  target?_renamed rfl h h' stems (targetValue_upgrade node)

/-! ## One graph -/

/-- A legacy document and its newer form are twins. -/
def Twins.upgraded {numbering numbering' : Numbering} (old : numbering = .legacy)
    (new : numbering' = .current) : Twins .identity wholeRegion.zone numbering numbering' where
  declaration _ := Upgraded .declaration
  signature _ := Upgraded .signature
  parameter _ := Upgraded .parameter
  type _ := Upgraded .type
  target := Renewed
  header h := by rw [old, new, header_upgrade h]
  owner := by
    rintro _ m _ _ ⟨fits, rfl⟩
    exact ownsAlike_upgrade _ (fits.member "type")
      (member_upgradeDeclaration (by decide) (by decide) (by decide)) (fits.member "comment")
      (member_upgradeDeclaration (by decide) (by decide) (by decide))
  typeParameters := readTypeParameters_upgrade
  signatures := by
    rintro _ m _ ⟨fits, rfl⟩
    rw [show member (upgradeMembers .declaration m m) "signatures" = _ from
      member_upgradeDeclaration (by decide) (by decide) (by decide)]
    exact (listed_upgrade rfl (fits.member "signatures")).at _ _
  children := by
    rintro _ m _ ⟨fits, rfl⟩
    rw [show member (upgradeMembers .declaration m m) "children" = _ from
      member_upgradeDeclaration (by decide) (by decide) (by decide)]
    exact (listed_upgrade rfl (fits.member "children")).at _ _
  signatureName := by
    rintro _ m _ ⟨fits, rfl⟩
    rw [member_upgrade (fun _ _ => .rfl) fun _ => rfl]
    exact congrArg Value.displayOrEmpty (upgrade_other _)
  signatureOwner := by
    rintro _ m _ _ ⟨fits, rfl⟩
    exact ownsAlike_upgrade _ (fits.member "type") (member_upgrade (fun _ _ => .rfl) fun _ => rfl)
      (fits.member "comment") (member_upgrade (fun _ _ => .rfl) fun _ => rfl)
  positions _ _ := rfl
  parameters := by
    rintro _ m _ ⟨fits, rfl⟩
    rw [show member (upgradeMembers .signature m m) "parameters" = _ from
      member_upgrade (fun _ _ => .rfl) fun _ => rfl]
    exact (listed_upgrade rfl (fits.member "parameters")).whole
  parameterName := by
    rintro _ m _ ⟨fits, rfl⟩
    rw [member_upgrade (fun _ _ => .rfl) fun _ => rfl]
    exact congrArg Value.displayOrEmpty (upgrade_other _)
  parameterOwner := by
    rintro _ m _ _ ⟨fits, rfl⟩
    exact ownsAlike_upgrade _ (fits.member "type") (member_upgrade (fun _ _ => .rfl) fun _ => rfl)
      (fits.member "comment") (member_upgrade (fun _ _ => .rfl) fun _ => rfl)
  parameterOptional := by
    rintro _ m _ ⟨fits, rfl⟩
    unfold readOptional
    rw [member_upgrade (fun _ _ => .rfl) fun _ => rfl,
      show Slot.child .parameter m _ = .other from rfl, upgrade_other]
  form := form_upgrade _

theorem numberingOf_upgrade {raw : Members}
    (root : Kind.read .legacy (member raw "kind") .null = .ok (some .global)) :
    Project.numberingOf (upgradeDeclaration raw) = .current := by
  have kind : member (upgradeDeclaration raw) "kind" = .int 1 := by
    rw [kind_upgradeDeclaration, Kind.upgradeNumber, root]
    rfl
  unfold Project.numberingOf
  rw [kind]
  simp [Value.isOne, Value.toInt?]

/-- A legacy document loads to the same graph when it is brought into the newer form: the same sites under
the same ids, and the same declarations, names, comments and types included. -/
theorem upgrade_sameGraph {raw : Members} (distinct : (Value.object raw).hasDistinctKeys)
    (numbering : Project.numberingOf raw = .legacy)
    (root : Kind.read .legacy (member raw "kind") .null = .ok (some .global))
    (legacy : everywhere Slot.isLegacy .declaration (.object raw))
    (names : everywhere Slot.hasPlainNames .declaration (.object raw)) :
    Alike (fun p p' : Project => p'.outline.stems = p.outline.stems ∧ p'.root = p.root ∧
        p'.documented = p.documented)
      (Project.ofMembers raw) (Project.ofMembers (upgradeDeclaration raw)) := by
  have twins := ofMembers_twin (Twins.upgraded numbering (numberingOf_upgrade root))
    (show Upgraded .declaration raw _ from ⟨⟨distinct, legacy, names⟩, rfl⟩)
    fun o o' ho ho' stems n n' hn => target?_upgrade (sites_eq ho) (sites_eq ho') stems hn
  refine twins.mono fun p p' ⟨root, stems⟩ => ?_
  rw [Declaration.rename_identity] at root
  refine ⟨?_, root, congrArg Declaration.documented root⟩
  have same : (fun s : Stem => s.rename .identity) = id := by
    funext s
    obtain ⟨origin, segment, enclosing, id, isOptional⟩ := s
    cases id <;> rfl
  exact stems.trans (by rw [same, List.map_id])

/-- A legacy document: an enumeration with a comment, and a type alias of a function type. -/
private def legacySample : Members :=
  [("name", .text "p"), ("kind", .int 0), ("children", .array [
    .object [("id", .int 1), ("name", .text "E"), ("kind", .int 4), ("comment", .object
      [("shortText", .text "An E."), ("returns", .text "nothing")])],
    .object [("id", .int 2), ("name", .text "F"), ("kind", .int 4194304),
      ("typeParameter", .array [.object [("name", .text "T")]]),
      ("type", .object [("type", .text "reflection"), ("declaration", .object
        [("id", .int 3), ("name", .text "__type"), ("kind", .int 65536), ("signatures", .array [.object
          [("name", .text "__call"), ("type", .object [("type", .text "union"), ("types", .array [
            .object [("type", .text "reference"), ("name", .text "E"), ("id", .int 1)],
            .object [("type", .text "stringLiteral"), ("value", .text "e")]])])]])])])]])]

/-- The same document in the newer form. -/
private def currentSample : Members :=
  [("name", .text "p"), ("kind", .int 1), ("children", .array [
    .object [("id", .int 1), ("name", .text "E"), ("kind", .int 8), ("comment", .object
      [("summary", .array [.object [("kind", .text "text"), ("text", .text "An E.")]]),
        ("blockTags", .array [.object [("tag", .text "@returns"), ("content", .array
          [.object [("kind", .text "text"), ("text", .text "nothing")]])]])])],
    .object [("id", .int 2), ("name", .text "F"), ("kind", .int 2097152),
      ("typeParameters", .array [.object [("name", .text "T")]]),
      ("type", .object [("type", .text "reflection"), ("declaration", .object
        [("id", .int 3), ("name", .text "__type"), ("kind", .int 65536), ("signatures", .array [.object
          [("name", .text "__call"), ("type", .object [("type", .text "union"), ("types", .array [
            .object [("type", .text "reference"), ("name", .text "E"), ("target", .int 1)],
            .object [("type", .text "literal"), ("value", .text "e")]])])]])])])]])]

theorem upgrade_sameGraph_sample :
    ∃ p p', Project.ofMembers legacySample = .ok p ∧ Project.ofMembers currentSample = .ok p' ∧
      p.documented.map (·.fullName) = [Text.ofString "E", Text.ofString "F"] ∧
      p'.outline.stems = p.outline.stems ∧ p'.root = p.root ∧ p'.documented = p.documented := by
  have names : ((Project.ofMembers legacySample).toOption.map fun p =>
      p.documented.map (·.fullName)) = some [Text.ofString "E", Text.ofString "F"] := by
    decide +kernel
  have upgraded : upgradeDeclaration legacySample = currentSample := by rfl
  obtain ⟨p, loads, names⟩ := Journal.exists_ok_of_map names
  have alike : Alike _ (Project.ofMembers legacySample) _ := upgrade_sameGraph
    (by decide +kernel) (by decide +kernel) (by decide +kernel) (by decide +kernel)
    (by decide +kernel)
  obtain ⟨p', loads', same⟩ := alike.exists_ok loads
  rw [upgraded] at loads'
  exact ⟨p, p', loads, loads', names, same⟩

/-- The names that are shown of the built-in types at the top of a project. -/
private def shownNames (p : Project) : List Text :=
  p.root.children.filterMap fun d =>
    match d.type with
    | some (.intrinsic name) => some name
    | _ => none

/-- A legacy document with an enumeration in the name of a type. -/
private def enumInName : Members :=
  [("name", .text "p"), ("kind", .int 0), ("children", .array [
    .object [("id", .int 1), ("name", .text "v"), ("kind", .int 32), ("type", .object
      [("type", .text "intrinsic"), ("name", .object [("type", .text "reflection"),
        ("declaration", .object [("kind", .int 4), ("name", .text "E")])])])]])]

/-- A name that hides a declaration shows the number of its kind, which is another one in the newer
form. -/
theorem upgrade_shows_kind :
    (Value.object enumInName).hasDistinctKeys ∧ Project.numberingOf enumInName = .legacy ∧
      Kind.read .legacy (member enumInName "kind") .null = .ok (some .global) ∧
      everywhere Slot.isLegacy .declaration (.object enumInName) ∧
      ∃ p p', Project.ofMembers enumInName = .ok p ∧
        Project.ofMembers (upgradeDeclaration enumInName) = .ok p' ∧ p'.root ≠ p.root := by
  have names : (Project.ofMembers enumInName).toOption.map shownNames ≠
      (Project.ofMembers (upgradeDeclaration enumInName)).toOption.map shownNames := by
    decide +kernel
  have loaded : (Project.ofMembers enumInName).toOption.isSome ∧
      (Project.ofMembers (upgradeDeclaration enumInName)).toOption.isSome := by decide +kernel
  refine ⟨by decide +kernel, by decide +kernel, by decide +kernel, by decide +kernel, ?_⟩
  cases loads : Project.ofMembers enumInName with
  | error e =>
    rw [loads] at loaded
    cases loaded.1
  | ok p =>
    cases loads' : Project.ofMembers (upgradeDeclaration enumInName) with
    | error e =>
      rw [loads'] at loaded
      cases loaded.2
    | ok p' =>
      rw [loads, loads'] at names
      refine ⟨p, p', rfl, rfl, fun same => names ?_⟩
      show some (shownNames p) = some (shownNames p')
      unfold shownNames
      rw [same]

end DocShape.Document
