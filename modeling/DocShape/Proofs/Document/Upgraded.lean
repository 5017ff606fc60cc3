import DocShape.Proofs.Document.Upgrade

/-!
Legacy documents and their newer form, node by node: what is shown stays, the nodes inside are the same
ones in their newer form, and so are the inline declarations (`inlineIn_upgrade`).
-/

namespace DocShape.Document

open Json

/-! ## Legacy documents -/

/-- Whether a type node is of a category that is modelled. -/
def isModelled (node : Members) : Bool :=
  match form node with
  | .leaf (.unmodelled _ _) => false
  | _ => true

def isString : Value → Bool
  | .text _ => true
  | _ => false

/-- Whether an object is as in a legacy document: kinds have numbers that are still in use, types are
modelled, and the members of the newer form are absent. -/
def Slot.isLegacy (slot : Slot) (m : Members) : Bool :=
  match slot with
  | .declaration => (member? m "kindString").isNone && (member? m "typeParameters").isNone &&
      Kind.upgradable (member m "kind")
  | .comment => (member? m "summary").isNone && (member? m "blockTags").isNone
  | .type =>
    let category := (member m "type").displayOrEmpty
    isModelled m && (category != Text.ofString "stringLiteral" || isString (member m "value")) &&
      (category != Text.ofString "reference" || (member? m "target").isNone)
  | _ => true

/-- Whether there are no inline declarations in the names of a type. -/
def Slot.hasPlainNames (slot : Slot) (m : Members) : Bool :=
  match slot with
  | .type => (inlineIn [] (member m "name")).isEmpty &&
      (inlineIn [] (member m "qualifiedName")).isEmpty
  | _ => true

/-- A value that is legacy all through, and hides no declarations in the names of its types. -/
structure Fits (slot : Slot) (v : Value) : Prop where
  distinct : v.hasDistinctKeys
  legacy : everywhere Slot.isLegacy slot v
  names : everywhere Slot.hasPlainNames slot v

namespace Fits

variable {slot : Slot} {m : Members}

theorem item {items : List Value} (h : Fits slot (.array items)) {item : Value}
    (hi : item ∈ items) : Fits slot.item item :=
  ⟨distinctKeysInItems_iff.1 h.distinct item hi, everywhere_item h.legacy hi,
    everywhere_item h.names hi⟩

theorem entry (h : Fits slot (.object m)) {e : Text × Value} (he : e ∈ m) :
    Fits (slot.node.child m e.1) e.2 :=
  ⟨(distinctKeysInMembers_iff.1 h.distinct).2 e he, everywhere_entry h.legacy he,
    everywhere_entry h.names he⟩

theorem member (h : Fits slot (.object m)) (key : Text) :
    Fits (slot.node.child m key) (Json.member m key) := by
  unfold Json.member
  cases hv : member? m key with
  | none => exact ⟨rfl, rfl, rfl⟩
  | some v =>
    obtain ⟨front, back, rfl, -⟩ := List.lookup_eq_some_iff.1 hv
    exact h.entry (e := (key, v)) (List.mem_append_right front (List.mem_cons_self ..))

theorem declaration (h : Fits .declaration (.object m)) : member? m "kindString" = none ∧
    member? m "typeParameters" = none ∧ Kind.upgradable (Json.member m "kind") := by
  have legacy := check_of_everywhere h.legacy
  simp only [Slot.node, Slot.isLegacy, Bool.and_eq_true, Option.isNone_iff_eq_none] at legacy
  exact ⟨legacy.1.1, legacy.1.2, legacy.2⟩

theorem comment (h : Fits .comment (.object m)) :
    member? m "summary" = none ∧ member? m "blockTags" = none := by
  have legacy := check_of_everywhere h.legacy
  simpa only [Slot.node, Slot.isLegacy, Bool.and_eq_true, Option.isNone_iff_eq_none] using legacy

theorem type (h : Fits .type (.object m)) : isModelled m ∧
    ((Json.member m "type").displayOrEmpty = "stringLiteral" → isString (Json.member m "value")) ∧
    ((Json.member m "type").displayOrEmpty = "reference" → member? m "target" = none) := by
  have legacy := check_of_everywhere h.legacy
  simp only [Slot.node, Slot.isLegacy, Bool.and_eq_true, Bool.or_eq_true, bne_iff_ne,
    Option.isNone_iff_eq_none] at legacy
  exact ⟨legacy.1.1, legacy.1.2.neg_resolve_left, legacy.2.neg_resolve_left⟩

/-- The entry of a key is its only one. -/
theorem eq_member (h : Fits slot (.object m)) {e : Text × Value} (he : e ∈ m) :
    e.2 = Json.member m e.1 := by
  have found := Table.lookup_of_mem (distinctKeysInMembers_iff.1 h.distinct).1 he
  unfold Json.member member? Table.get?
  rw [found]
  rfl

end Fits

/-! ## Values that stay -/

section

variable {slot : Slot}

theorem upgrade_of_not_isContainer {v : Value} (h : v.isContainer = false) :
    upgrade slot v = v := by
  cases v with
  | array items => cases h
  | object m => cases h
  | _ => rfl

@[simp] theorem isContainer_upgrade (v : Value) :
    (upgrade slot v).isContainer = v.isContainer := by
  cases v <;> rfl

@[simp] theorem isText_upgrade (t : Text) (v : Value) : (upgrade slot v).isText t = v.isText t := by
  cases v <;> rfl

mutual

theorem upgrade_other : ∀ v : Value, upgrade .other v = v
  | .array items => congrArg Value.array (upgradeItems_other items)
  | .object m => congrArg Value.object (upgradeMembers_other m)
  | .null => rfl
  | .bool _ => rfl
  | .int _ => rfl
  | .float _ => rfl
  | .text _ => rfl

theorem upgradeItems_other : ∀ items : List Value, upgradeItems .other items = items
  | [] => rfl
  | item :: rest => by rw [upgradeItems, upgrade_other item, upgradeItems_other rest]

theorem upgradeMembers_other {node : Members} :
    ∀ m : List (Text × Value), upgradeMembers .other node m = m
  | [] => rfl
  | (key, v) :: rest => by
    rw [upgradeMembers, upgradeMembers_other rest]
    show (key, upgrade .other v) :: rest = _
    rw [upgrade_other v]

end

private theorem child_shown {node : Members} (h : inlineDeclaration? node = none) (key : Text) :
    Slot.child .shown node key = .shown := by
  rw [Slot.child, Slot.isInline, h]
  simp

mutual

/-- What is shown stays, where it hides no declarations. -/
theorem upgrade_shown : ∀ (v : Value) (p : Pointer), inlineIn p v = [] → upgrade .shown v = v
  | .array items, p, h => by
    rw [inlineIn] at h
    exact congrArg Value.array (upgradeItems_shown items p 0 h)
  | .object m, p, h => by
    rw [inlineIn] at h
    cases hd : inlineDeclaration? m with
    | none =>
      rw [hd] at h
      exact congrArg Value.object (upgradeMembers_shown hd m p h)
    | some d =>
      rw [hd] at h
      cases h
  | .null, _, _ => rfl
  | .bool _, _, _ => rfl
  | .int _, _, _ => rfl
  | .float _, _, _ => rfl
  | .text _, _, _ => rfl

theorem upgradeItems_shown : ∀ (items : List Value) (p : Pointer) (i : Nat),
    inlineInItems p i items = [] → upgradeItems .shown items = items
  | [], _, _, _ => rfl
  | item :: rest, p, i, h => by
    obtain ⟨first, others⟩ := List.append_eq_nil_iff.1 h
    rw [upgradeItems, upgrade_shown item _ first, upgradeItems_shown rest p (i + 1) others]

theorem upgradeMembers_shown {node : Members} (hd : inlineDeclaration? node = none) :
    ∀ (m : List (Text × Value)) (p : Pointer), inlineInMembers p m = [] →
      upgradeMembers .shown node m = m
  | [], _, _ => rfl
  | (key, v) :: rest, p, h => by
    obtain ⟨first, others⟩ := List.append_eq_nil_iff.1 h
    rw [upgradeMembers, child_shown hd, upgrade_shown v _ first,
      upgradeMembers_shown hd rest p others]
    rfl

end

end

/-! ## Lists of nodes -/

/-- A node of a legacy document, and the same node in the newer form. -/
def Upgraded (slot : Slot) (m m' : Members) : Prop :=
  Fits slot (.object m) ∧ m' = upgradeMembers slot m m

section

variable {slot : Slot}

theorem bothObjects_upgrade (hs : slot.node = slot) {v : Value} (h : Fits slot v) :
    BothObjects (Upgraded slot) v (upgrade slot v) := by
  cases v with
  | object m =>
    refine .some ⟨h, ?_⟩
    rw [hs]
  | _ => exact .none

theorem listed_upgrade (hs : slot.node = slot) {v : Value} (h : Fits (.each slot) v) :
    Listed (Upgraded slot) v (upgrade (.each slot) v) := by
  cases v with
  | array items =>
    rw [upgrade, upgradeItems_eq_map]
    refine listed_array (List.forall₂_map_right_iff.2 (List.forall₂_same.2 fun item hi => ?_))
    exact bothObjects_upgrade hs (h.item hi)
  | object m => exact listed_object (by rw [upgradeMembers_eq_map, List.length_map])
  | _ => exact listed_other (by rintro _ ⟨⟩)

end

/-! ## Inline declarations -/

namespace Slot

/-- What stands below a type and is no inline declaration. -/
def isInner : Slot → Bool
  | type | aside | shown | each type => true
  | _ => false

variable {slot : Slot}

theorem isInner_item (h : slot.isInner) : slot.item.isInner := by
  cases slot with
  | each slot => cases slot <;> first | rfl | cases h
  | _ => first | rfl | cases h

/-- An object below a type is a type that is read, one that is not, or shown. -/
theorem cases_node (h : slot.isInner) : slot.node = type ∨ slot.node = aside ∨ slot.node = shown := by
  cases slot with
  | each slot => cases slot <;> first | exact .inr (.inl rfl) | cases h
  | type => exact .inl rfl
  | aside => exact .inr (.inl rfl)
  | shown => exact .inr (.inr rfl)
  | _ => cases h

theorem isInner_typeChild (node : Members) (key : Text) : (typeChild node key).isInner := by
  unfold typeChild
  split
  · split <;> rfl
  · split <;> rfl
  · split <;> rfl
  · rfl

theorem isInner_child (h : slot.isInner) {node : Members} (hd : inlineDeclaration? node = none)
    (key : Text) : (slot.node.child node key).isInner := by
  have hi : isInline node key = false := by rw [isInline, hd, Option.isSome_none, Bool.and_false]
  rcases cases_node h with hs | hs | hs <;> rw [hs, child, hi]
  · simp only [Bool.false_eq_true, if_false]
    split
    · rfl
    · exact isInner_typeChild node key
  · rfl
  · rfl

theorem newKey_node (h : slot.isInner) {node : Members} {key : Text}
    (hk : key = "id" → isNumbered node = false) : slot.node.newKey node key = key := by
  have kept : ¬(key = Text.ofString "id" ∧ isNumbered node = true) := fun ⟨hid, hn⟩ => by
    rw [hk hid] at hn
    cases hn
  rcases cases_node h with hs | hs | hs <;> rw [hs]
  · exact if_neg kept
  · exact if_neg kept
  · rfl

theorem newKey_eq_iff (h : slot.isInner) {node : Members} {k key : Text}
    (hid : key ≠ "id") (htarget : key ≠ "target") : slot.node.newKey node k = key ↔ k = key := by
  have kept : ∀ c : Prop, [Decidable c] → ((if k = Text.ofString "id" ∧ c then
      Text.ofString "target" else k) = key ↔ k = key) := by
    intro c _
    split
    · rename_i hk
      rw [hk.1]
      exact ⟨fun he => absurd he.symm htarget, fun he => absurd he.symm hid⟩
    · rfl
  rcases cases_node h with hs | hs | hs <;> rw [hs]
  · exact kept _
  · exact kept _
  · rfl

theorem newValue_node (h : slot.isInner) {key : Text} {v : Value}
    (hk : key = "type" → v.isText "stringLiteral" = false) : slot.node.newValue key v = v := by
  have kept : ¬(key = Text.ofString "type" ∧ v.isText (Text.ofString "stringLiteral") = true) :=
    fun ⟨ht, hv⟩ => by
      rw [hk ht] at hv
      cases hv
  rcases cases_node h with hs | hs | hs <;> rw [hs]
  · exact if_neg kept
  · exact if_neg kept
  · rfl

theorem isContainer_newValue (h : slot.isInner) (key : Text) (v : Value) :
    (slot.node.newValue key v).isContainer = v.isContainer := by
  have literal : (if key = Text.ofString "type" ∧ v.isText (Text.ofString "stringLiteral") = true then
      .text (Text.ofString "literal") else v : Value).isContainer = v.isContainer := by
    split
    · rename_i ht
      rw [Value.isText_iff.1 ht.2]
      rfl
    · rfl
  rcases cases_node h with hs | hs | hs <;> rw [hs]
  · exact literal
  · exact literal
  · rfl

end Slot

section

variable {slot : Slot} {m : Members}

/-- The member of a type under a key that stays. -/
theorem member_upgrade_inner (h : slot.isInner) (key : Text) (hid : key ≠ "id")
    (htarget : key ≠ "target") (htype : key ≠ "type") :
    member (upgradeMembers slot.node m m) key = upgrade (slot.node.child m key) (member m key) :=
  member_upgrade (fun _ _ => Slot.newKey_eq_iff h hid htarget) fun _ =>
    Slot.newValue_node h fun he => absurd he htype

/-- Only the name of string literals changes among the categories. -/
theorem isText_type_upgrade (h : slot.isInner) {t : Text} (hs : t ≠ "stringLiteral")
    (hl : t ≠ "literal") :
    (member (upgradeMembers slot.node m m) "type").isText t = (member m "type").isText t := by
  unfold member
  rw [lookup_upgrade fun _ _ => Slot.newKey_eq_iff h (by decide) (by decide)]
  cases member? m "type" with
  | none => rfl
  | some v =>
    rw [Option.map_some, Option.getD_some, Option.getD_some]
    cases ht : v.isText "stringLiteral" with
    | false =>
      rw [Slot.newValue_node h fun _ => by rw [isText_upgrade, ht], isText_upgrade]
    | true =>
      obtain rfl := Value.isText_iff.1 ht
      have values : ∀ w : Text, w = "stringLiteral" ∨ w = "literal" →
          (Value.text w).isText t = false := by
        rintro w (rfl | rfl)
        · exact beq_eq_false_iff_ne.2 hs.symm
        · exact beq_eq_false_iff_ne.2 hl.symm
      rw [values _ (.inl rfl)]
      rcases Slot.cases_node h with hn | hn | hn <;> rw [hn]
      · exact values _ (.inr rfl)
      · exact values _ (.inr rfl)
      · exact values _ (.inl rfl)

theorem child_declaration (h : slot.isInner) {d : Members} (hd : inlineDeclaration? m = some d) :
    slot.node.child m "declaration" = .declaration := by
  have hi : Slot.isInline m "declaration" = true := by
    rw [Slot.isInline, hd]
    rfl
  rcases Slot.cases_node h with hn | hn | hn <;> rw [hn] <;> exact if_pos hi

theorem inlineDeclaration?_upgrade (h : slot.isInner) (m : Members) :
    inlineDeclaration? (upgradeMembers slot.node m m) =
      (inlineDeclaration? m).map upgradeDeclaration := by
  have declared : ∀ d, inlineDeclaration? m = some d → _ := fun d => child_declaration h (d := d)
  have kept := member_upgrade_inner h (m := m) "declaration" (by decide) (by decide)
    (by decide)
  unfold inlineDeclaration? at declared ⊢
  rw [isText_type_upgrade h (by decide) (by decide)]
  unfold object? at declared ⊢
  rw [kept]
  split
  · rename_i hr
    rw [if_pos hr] at declared
    cases hv : member m "declaration" with
    | object d =>
      rw [hv] at declared
      rw [declared d rfl]
      rfl
    | _ => rfl
  · rfl

/-- Two nodes at one address, the second one in the newer form. -/
def UpgradedAt (c c' : Pointer × Members) : Prop := c'.1 = c.1 ∧ Upgraded .declaration c.2 c'.2

/-- An id that a reference has holds no other values. -/
theorem Fits.isContainer_id (h : Fits slot (.object m)) {e : Text × Value} (he : e ∈ m)
    (hid : e.1 = "id") (hn : isNumbered m) : e.2.isContainer = false := by
  rw [h.eq_member he, hid]
  rw [isNumbered, Bool.and_eq_true] at hn
  cases hv : Json.member m "id" with
  | array items =>
    rw [hv] at hn
    cases hn.2
  | object d =>
    rw [hv] at hn
    cases hn.2
  | _ => rfl

/-- What a value below a type holds is there again, in the newer form; what holds nothing may have
another key. -/
private theorem descends_upgrade :
    Descends (fun p p' v v' => v.isContainer = false ∧ v'.isContainer = false ∨
      p' = p ∧ ∃ slot : Slot, slot.isInner ∧ Fits slot v ∧ v' = upgrade slot v) UpgradedAt where
  array := by
    rintro p p' items v' (⟨hv, -⟩ | ⟨rfl, slot, inner, fits, rfl⟩)
    · cases hv
    refine ⟨_, rfl, ?_⟩
    rw [upgradeItems_eq_map]
    exact .of_forall₂ (List.forall₂_map_right_iff.2 (List.forall₂_same.2 fun item hi _ =>
      .inr ⟨rfl, slot.item, Slot.isInner_item inner, fits.item hi, rfl⟩)) 0
  object := by
    rintro p p' m v' (⟨hv, -⟩ | ⟨rfl, slot, inner, fits, rfl⟩)
    · cases hv
    refine ⟨_, rfl, ?_, fun hd => ?_⟩
    · rw [inlineDeclaration?_upgrade inner]
      cases hd : inlineDeclaration? m with
      | none => exact .none
      | some d =>
        have below := fits.member "declaration"
        rw [child_declaration inner hd, member_of_inlineDeclaration? hd] at below
        exact .some ⟨rfl, below, rfl⟩
    · rw [upgradeMembers_eq_map]
      refine List.forall₂_map_right_iff.2 (List.forall₂_same.2 fun e he => ?_)
      cases hc : e.2.isContainer with
      | false =>
        refine .inl ⟨rfl, ?_⟩
        rw [Slot.isContainer_newValue inner, isContainer_upgrade, hc]
      | true =>
        have sameKey : slot.node.newKey m e.1 = e.1 := Slot.newKey_node inner fun hid => by
          by_contra hn
          have plain := fits.isContainer_id he hid (by simpa using hn)
          rw [hc] at plain
          cases plain
        have sameValue : slot.node.newValue e.1 (upgrade (slot.node.child m e.1) e.2) =
            upgrade (slot.node.child m e.1) e.2 := Slot.newValue_node inner fun _ => by
          rw [isText_upgrade]
          cases hv : e.2 <;> first | rfl | (rw [hv] at hc; cases hc)
        rw [sameKey, sameValue]
        exact .inr ⟨rfl, _, Slot.isInner_child inner hd e.1, fits.entry he, rfl⟩
  plain := by
    rintro p p' v v' hv (⟨-, hv'⟩ | ⟨rfl, slot, -, -, rfl⟩)
    · exact hv'
    · rwa [isContainer_upgrade]

/-- The inline declarations below a type stay where they are, each in its newer form. -/
theorem inlineIn_upgrade (h : slot.isInner) {v : Value} (fits : Fits slot v) (p : Pointer) :
    List.Forall₂ UpgradedAt (inlineIn p v) (inlineIn p (upgrade slot v)) :=
  inlineIn_descends descends_upgrade v (.inr ⟨rfl, slot, h, fits, rfl⟩)

end

end DocShape.Document
