import DocShape.Proofs.Document.Insertions
import DocShape.Proofs.Document.References

/-!
Entries of lists that are no objects. A plain value put into a list of nodes gives new positions to the nodes
behind it, and changes nothing else of what is loaded (`ofMembers_putIn`). Only among the parameters of a
signature it is read as one, and loading fails (`ofMembers_parameter`).
-/

namespace DocShape.Document

open Json Journal

/-! ## What is read of nodes -/

section

variable {base p : Pointer} {k : Nat} {s : Value} {view : View} {m m' : Members}

namespace Near

theorem isEmpty_eq {v v' : Value} (h : Near base k s view p v v') : v'.isEmpty = v.isEmpty := by
  rcases h with ⟨rfl, -⟩ | put
  · rfl
  · cases put with
    | @here _ before after _ filled => cases before <;> cases after <;> first | rfl | exact absurd rfl filled
    | @item _ _ _ before => cases before <;> rfl
    | @member _ _ _ _ _ _ _ _ _ replaced =>
      obtain @⟨before, -⟩ := replaced
      cases before <;> rfl

theorem joinParts_eq (plain : s.isContainer = false) {v v' : Value}
    (h : Near base k s (.list .part) p v v') : joinParts v' = joinParts v :=
  joinParts_listedBy (h.listedAt plain) fun _ _ _ hm => by rw [hm.member_eq _ rfl]

theorem returnsTag_eq (plain : s.isContainer = false) {v v' : Value}
    (h : Near base k s (.list .tag) p v v') : returnsTag v' = returnsTag v := by
  refine returnsTag_listedBy (h.listedAt plain) (fun _ m m' hm => ?_) fun _ m m' hm => ?_
  · rw [hm.member_eq _ rfl]
  · exact (hm.member "content" fun _ => rfl).joinParts_eq plain

theorem readComment_eq (plain : s.isContainer = false) {v v' : Value} (h : Near base k s .comment p v v') :
    readComment v' = readComment v := by
  have read : ∀ v, readComment v = (asObject? v).elim (.ok none) fun raw => readComment (.object raw) :=
    fun v => by cases v <;> rfl
  have objects := h.bothObjects
  unfold BothObjects at objects
  rw [read, read v]
  generalize asObject? v = o, asObject? v' = o' at objects
  cases objects with
  | none => rfl
  | @some m m' hm =>
    refine readComment_congr ?_ ?_ ?_ ((hm.member "summary" fun _ => rfl).joinParts_eq plain)
      ((hm.member "blockTags" fun _ => rfl).returnsTag_eq plain)
    · rw [hm.member_eq _ rfl]
    · rw [hm.member_eq _ rfl]
    · rw [hm.member_eq _ rfl]

theorem readTypeParameters_eq (plain : s.isContainer = false)
    (h : Near base k s .declaration p (.object m) (.object m')) :
    readTypeParameters m' = readTypeParameters m := by
  have older := h.member "typeParameter" fun _ => rfl
  have newer := h.member "typeParameters" fun _ => rfl
  refine readTypeParameters_listedBy older.isEmpty_eq (older.listedAt plain)
    (newer.listedAt plain) (fun _ n n' hn => ?_) fun _ n n' hn => ?_
  · rw [hn.member_eq _ rfl]
  · rw [hn.member_eq _ rfl]

end Near

end

/-! ## The same nodes -/

section

variable {base p : Pointer} {k : Nat} {s : Value} {view : View} {m m' : Members}

/-- Where loading looks into no member of an object, nothing is put in. -/
theorem Near.eq_of_closed (h : Near base k s view p (.object m) (.object m'))
    (closed : ∀ key, view.opens m key = none) : m' = m := by
  rcases h with ⟨same, -⟩ | put
  · cases same
    rfl
  · cases put with
    | member opens => cases (closed _).symm.trans opens

theorem ownsAlike_near (plain : s.isContainer = false) (h : NearNodes base k s view p m m')
    (comment : view.opens m "comment" = some .comment) (type : view.opens m "type" = some .type) :
    OwnsAlike (zoneAround base k) (NearNodes base k s .declaration) (NearNodes base k s .type) p m m' where
  comment := (h.member _ fun _ => comment).readComment_eq plain
  type := (h.member _ fun _ => type).bothObjects
  inlined := inlineIn_descends (descends_near plain) _ ⟨rfl, .type, rfl, h.member _ fun _ => type⟩

theorem categoryOf_near (h : NearNodes base k s .type p m m') : categoryOf m' = categoryOf m := by
  have type : member m' "type" = member m "type" := h.member_eq _ (View.opensInType_shown (by
    unfold View.shownKeys
    split <;> decide))
  by_cases literal : (member m "type").displayOrEmpty = Text.ofString "stringLiteral"
  · have shown : View.opensInType m "value" = none := View.opensInType_shown (by
      rw [categoryOf_of_stringLiteral literal]
      exact List.mem_cons_of_mem _ (List.mem_cons_self ..))
    exact categoryOf_congr type (h.member_eq _ shown)
  · -- Only a text is the value of another literal.
    have same : stringLiteral? (member m "type").displayOrEmpty m' =
        stringLiteral? (member m "type").displayOrEmpty m := by
      have value := h.member_cases "value"
      unfold stringLiteral?
      rw [if_neg literal, if_neg literal]
      generalize member m "value" = v, member m' "value" = v' at value
      rcases value with rfl | ⟨container, container'⟩
      · rfl
      · cases v <;> cases container <;> cases v' <;> cases container' <;> rfl
    unfold categoryOf
    dsimp only
    rw [type, same]

/-- Two references that give one target. -/
def SameTarget (m m' : Members) : Prop :=
  Id.ofValue? ((member? m' "id").getD (member m' "target")) =
    Id.ofValue? ((member? m "id").getD (member m "target"))

private theorem ofValue?_of_isContainer {v : Value} (h : v.isContainer) : Id.ofValue? v = none := by
  cases v <;> first | rfl | cases h

theorem sameTarget_near (h : NearNodes base k s view p m m') : SameTarget m m' := by
  have target : Id.ofValue? (member m' "target") = Id.ofValue? (member m "target") := by
    rcases h.member_cases "target" with same | ⟨container, container'⟩
    · rw [same]
    · rw [ofValue?_of_isContainer container, ofValue?_of_isContainer container']
  unfold SameTarget
  rcases h.member?_cases "id" with same | ⟨v, v', hv, hv', container, container'⟩
  · rw [same]
    cases member? m "id" with
    | none => exact target
    | some v => rfl
  · rw [hv, hv', Option.getD_some, Option.getD_some, ofValue?_of_isContainer container,
      ofValue?_of_isContainer container']

theorem formAlike_near (plain : s.isContainer = false) (h : NearNodes base k s .type p m m') :
    FormAlike (zoneAround base k) (NearNodes base k s .declaration) (NearNodes base k s .type)
      SameTarget p m m' (form m) (form m') := by
  have shown : ∀ key, key ∈ View.shownKeys (categoryOf m) → member m' key = member m key :=
    fun key hk => h.member_eq key (View.opensInType_shown hk)
  -- What is shown as a whole has nothing put into it.
  have whole : form m = .leaf (sourceNode m) → m' = m := fun hf => h.eq_of_closed fun key => by
    show View.opensInType m key = none
    rw [View.opensInType, hf]
    rfl
  have opened : ∀ (key : Text) (below : View), View.opensInType m key = some below →
      Near base k s below (.key key :: p) (member m key) (member m' key) := fun _ _ opens =>
    h.member _ fun _ => opens
  refine formAlike_of_category (categoryOf_near h) (fun hf => ?_) (fun hname => ?_) (fun hc => ?_)
    (fun hc => ?_) (fun hc => ?_) (fun g hc => ?_) (fun hc => ?_) fun _ => sameTarget_near h
  · rw [whole hf, sourceNode, unmodelled, TypeNode.rename]
    rfl
  · rw [shown _ (View.name_mem_shownKeys hname)]
  · rw [shown]
    rw [hc]
    decide
  · cases ho : object? m "elementType" with
    | none =>
      rw [whole (by rw [form, hc, ho]; rfl), BothObjects, ← object?_eq_asObject?, ho]
      exact .none
    | some n =>
      refine (opened _ .type ?_).bothObjects
      rw [View.opensInType, form, hc, ho]
      rfl
  · cases ho : object? m "declaration" with
    | none =>
      rw [whole (by rw [form, hc, ho]; rfl), BothObjects, ← object?_eq_asObject?, ho]
      exact .none
    | some n =>
      refine (opened _ .declaration ?_).bothObjects
      rw [View.opensInType, form, hc, ho]
      rfl
  · refine (opened _ (.list .type) ?_).listedAt plain
    rw [View.opensInType, form, hc]
    exact if_pos rfl
  · refine (opened _ (.list .type) ?_).listedAt plain
    rw [View.opensInType, form, hc]
    rfl

theorem header_near (numbering : Numbering) (h : NearNodes base k s .declaration p m m') :
    Header.read numbering m' = Header.read numbering m := by
  unfold Header.read readOptional
  rw [h.member_eq "kind" rfl, h.member_eq "kindString" rfl, h.member_eq "flags" rfl,
    h.member_eq "id" rfl, h.member_eq "name" rfl]

theorem numberingOf_near (h : NearNodes base k s .declaration p m m') :
    Project.numberingOf m' = Project.numberingOf m := by
  unfold Project.numberingOf
  rw [h.member?_eq "schemaVersion" rfl, h.member_eq "kind" rfl]

end

/-- A document is the twin of itself with an entry put into one of its lists. -/
def Twins.putIn {base : Pointer} (k : Nat) {s : Value} (plain : s.isContainer = false)
    {numbering numbering' : Numbering} (same : numbering' = numbering)
    (away : ∀ p, Step.key "parameters" :: p ≠ base) :
    Twins (reordering base (shift k) (shift_injective k)) (zoneAround base k) numbering numbering' where
  declaration := NearNodes base k s .declaration
  signature := NearNodes base k s .signature
  parameter := NearNodes base k s .parameter
  type := NearNodes base k s .type
  target := SameTarget
  header h := by
    rw [same, header_near numbering h]
    exact (Header.map_rename_eq_self (fun _ => rfl) _).symm
  owner _ h := ownsAlike_near plain h rfl rfl
  typeParameters h := h.readTypeParameters_eq plain
  signatures h := (h.member "signatures" fun _ => rfl).listedAt plain
  children h := (h.member "children" fun _ => rfl).listedAt plain
  signatureName h := by rw [h.member_eq "name" rfl]
  signatureOwner _ h := ownsAlike_near plain h rfl rfl
  positions _ i := if_neg (away _)
  parameters h := (h.member "parameters" fun _ => rfl).listedWhole (away _)
  parameterName h := by rw [h.member_eq "name" rfl]
  parameterOwner _ h := ownsAlike_near plain h rfl rfl
  parameterOptional h := by
    unfold readOptional
    rw [h.member_eq "flags" rfl]
  form h := formAlike_near plain h

/-! ## Both passes -/

section

variable {base p : Pointer} {k : Nat} {s : Value} {view item : View} {v v' : Value} {m : Members}

/-- Only parameters are listed under that key. -/
private theorem opens_parameters (h : view.opens m "parameters" = some (.list item)) :
    item = .parameter := by
  have beside : View.beside m "parameters" ≠ some (.list item) := by
    unfold View.beside
    split <;> rintro ⟨⟩
  have search : View.opensInSearch m "parameters" ≠ some (.list item) := by
    unfold View.opensInSearch
    split
    · rintro ⟨⟩
    · rintro ⟨⟩
  cases view with
  | signature =>
    cases h
    rfl
  | type =>
    have opens : View.opensInType m "parameters" = some (.list item) := h
    unfold View.opensInType at opens
    split at opens
    · cases opens
    · exact absurd opens beside
    · exact absurd opens beside
    · rename_i g _
      rw [if_neg (by cases g <;> decide)] at opens
      exact absurd opens beside
    · exact absurd opens beside
    · cases opens
  | searched => exact absurd h search
  | list item' =>
    cases item' with
    | type => exact absurd h search
    | _ => cases h
  | _ => cases h

/-- Nothing is put into a list of parameters. -/
private theorem PutIn.away (h : PutIn base k s view p v v')
    (list : ∀ item, view = .list item → item ≠ .parameter → ∀ q, .key "parameters" :: q ≠ p)
    (q : Pointer) : .key "parameters" :: q ≠ base := by
  induction h with
  | here other => exact list _ rfl other q
  | item _ _ ih => exact ih (fun _ _ _ _ h => by cases h)
  | member opens _ _ ih =>
    refine ih fun item hview other q h => other ?_
    subst hview
    obtain ⟨rfl, -⟩ : Text.ofString "parameters" = _ ∧ q = _ := by simpa using h
    exact opens_parameters opens

end

/-- A value that is no object, put into a list of nodes, changes nothing but the positions behind it. -/
theorem ofMembers_putIn {base : Pointer} {k : Nat} {s : Value} (plain : s.isContainer = false)
    {raw raw' : Members} (h : PutIn base k s .declaration [] (.object raw) (.object raw')) :
    Alike (fun p p' : Project =>
        p'.root = p.root.rename (reordering base (shift k) (shift_injective k)) ∧
          StemsRenamed (reordering base (shift k) (shift_injective k)) p.outline p'.outline)
      (Project.ofMembers raw) (Project.ofMembers raw') := by
  have root : NearNodes base k s .declaration [] raw raw' := .inr h
  have away := h.away (by rintro _ ⟨⟩)
  exact ofMembers_zone (Twins.putIn k plain (numberingOf_near root) away) trivial trivial rfl rfl root
    fun _ _ ho ho' stems _ _ same => target?_renamed rfl (sites_eq ho) (sites_eq ho') stems same

/-- A signature that is read takes everything among its parameters for one. -/
theorem ofMembers_parameter {raw node : Members} {address : Pointer} {items : List Value} {s : Value}
    (read : IsRead raw .signature address node) (list : member node "parameters" = .array items)
    (hs : s ∈ items) (plain : s.isContainer = false) : ∃ e, Project.ofMembers raw = .error e := by
  cases loads : Project.ofMembers raw with
  | error e => exact ⟨e, rfl⟩
  | ok p =>
    obtain ⟨_, signature, hread, -⟩ := isPart_of_isRead (Project.ofMembers_eq_ok.1 loads).2 read
    have listed : elements (member node "parameters") = .ok items := by
      rw [list]
      cases items <;> rfl
    obtain ⟨i, hi, hsi⟩ := List.mem_iff_getElem.1 hs
    have entry : (s, i) ∈ items.zipIdx := List.mem_zipIdx_iff_getElem?.2 (by simp [hi, hsi])
    obtain ⟨_, -, failed⟩ := eachElement_ok (readSignature_ok hread).1 listed entry
    rw [asObject?_of_not_isContainer plain] at failed
    cases failed

/-! ## Entries that are no objects -/

/-- A plain value put into a list of nodes of a document, whatever the list and its depth, changes nothing of
the graph but the positions behind it, and loading fails only where it failed before. Among the
parameters of a signature that is read, it makes loading fail. -/
theorem stray_entries {s : Value} (plain : s.isContainer = false) (raw' : Members) :
    (∀ base k raw, PutIn base k s .declaration [] (.object raw) (.object raw') →
      Alike (fun p p' : Project =>
          p'.root = p.root.rename (reordering base (shift k) (shift_injective k)) ∧
            p'.outline.stems =
              p.outline.stems.map (·.rename (reordering base (shift k) (shift_injective k))))
        (Project.ofMembers raw) (Project.ofMembers raw')) ∧
    ∀ address node items, IsRead raw' .signature address node →
      member node "parameters" = .array items → s ∈ items →
      ∃ e, Project.ofMembers raw' = .error e :=
  ⟨fun _ _ _ put => ofMembers_putIn plain put,
    fun _ _ _ read list hs => ofMembers_parameter read list hs plain⟩

/-- A function with one signature, which has these parameters and gives one of these types. -/
private def functionOf (parameters types : List Value) : Members :=
  [("name", .text "p"), ("kind", .int 0), ("children", .array [.object
    [("id", .int 1), ("name", .text "f"), ("kind", .int 64), ("signatures", .array [.object
      [("name", .text "f"), ("parameters", .array parameters), ("type", .object
        [("type", .text "union"), ("types", .array types)])]])]])]

private def stringType : Value := .object [("type", .text "intrinsic"), ("name", .text "string")]

private def parameter : Value := .object [("name", .text "x"), ("type", stringType)]

/-- An inline declaration, which is found by its address. -/
private def callback : Value :=
  .object [("type", .text "reflection"), ("declaration", .object
    [("id", .int 2), ("name", .text "__type"), ("kind", .int 65536)])]

private theorem putIn_types {s : Value} {before after : List Value} (filled : before ++ after ≠ []) :
    PutIn [.key "types", .key "type", .index 0, .key "signatures", .index 0, .key "children"]
      before.length s .declaration [] (.object (functionOf [parameter] (before ++ after)))
      (.object (functionOf [parameter] (before ++ s :: after))) := by
  refine .member rfl (@Replaced.middle _ _ _ [_, _] [] (by decide) (by decide))
    (@PutIn.item _ _ _ _ .declaration _ [] [] _ _ rfl ?_)
  refine .member rfl (@Replaced.middle _ _ _ [_, _, _] [] (by decide) (by decide))
    (@PutIn.item _ _ _ _ .signature _ [] [] _ _ rfl ?_)
  refine .member rfl (@Replaced.middle _ _ _ [_, _] [] (by decide) (by decide)) ?_
  refine .member rfl (@Replaced.middle _ _ _ [_] [] (by decide) (by decide)) ?_
  exact .here (by decide) filled rfl

/-- A null before the inline declaration, and one among the parameters. -/
theorem stray_entries_null :
    (∃ p p', Project.ofMembers (functionOf [parameter] [stringType, callback]) = .ok p ∧
      Project.ofMembers (functionOf [parameter] [stringType, .null, callback]) = .ok p' ∧
      p.documented.map (·.fullName) = [Text.ofString "f"] ∧
      p'.root = p.root.rename (reordering [.key "types", .key "type", .index 0, .key "signatures",
        .index 0, .key "children"] (shift 1) (shift_injective 1))) ∧
      ∃ e, Project.ofMembers (functionOf [parameter, .null] [callback]) = .error e := by
  have names : ((Project.ofMembers (functionOf [parameter] [stringType, callback])).toOption.map fun p =>
      p.documented.map (·.fullName)) = some [Text.ofString "f"] := by decide +kernel
  have signature : ∃ node, IsRead (functionOf [parameter, .null] [callback]) .signature
      [.index 0, .key "signatures", .index 0, .key "children"] node ∧
      member node "parameters" = .array [parameter, .null] :=
    ⟨_, .listed (.listed .root .children rfl (List.mem_cons_self ..)) .signatures rfl
      (List.mem_cons_self ..), rfl⟩
  obtain ⟨node, read, list⟩ := signature
  have plain : Value.null.isContainer = false := rfl
  refine ⟨?_, (stray_entries plain _).2 _ node _ read list (by simp)⟩
  obtain ⟨p, loads, names⟩ := exists_ok_of_map names
  have alike : Alike _ (Project.ofMembers (functionOf [parameter] [stringType, callback])) _ :=
    (stray_entries plain _).1 _ _ _ (@putIn_types .null [stringType] [callback] (by simp))
  obtain ⟨p', loads', root, -⟩ := alike.exists_ok loads
  exact ⟨p, p', loads, loads', names, root⟩

/-- What is no object is passed over in all lists of nodes but the parameters of a signature. -/
theorem null_among_parameters :
    (∃ p, Project.ofMembers (functionOf [parameter] [callback]) = .ok p) ∧
      Project.ofMembers (functionOf [parameter, .null] [callback]) = .error .notAnObject := by
  have outcomes : ((Project.ofMembers (functionOf [parameter] [callback])).toOption.isSome ∧
      (Project.ofMembers (functionOf [parameter, .null] [callback])).map (fun _ => ()) =
        .error .notAnObject) := by decide +kernel
  obtain ⟨before, after⟩ := outcomes
  constructor
  · cases loads : Project.ofMembers (functionOf [parameter] [callback]) with
    | error e =>
      rw [loads] at before
      cases before
    | ok p => exact ⟨p, rfl⟩
  · cases loads : Project.ofMembers (functionOf [parameter, .null] [callback]) with
    | error e =>
      rw [loads] at after
      cases after
      rfl
    | ok p =>
      rw [loads] at after
      cases after

end DocShape.Document
