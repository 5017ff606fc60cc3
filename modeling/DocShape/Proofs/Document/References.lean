import DocShape.Proofs.Conversion.Tuples
import DocShape.Proofs.Document.Refilled

/-!
What references point at. `IsRead` tells from a document which of its nodes the second pass comes to; what
becomes of each of them is a part of the loaded graph (`isPart_of_isRead`). A reference among them points
at the declaration that has its id, wherever that one stands (`reference_of_pointsTo`).
-/

namespace DocShape.Document

open Json Journal

/-! ## The nodes that are read -/

/-- What a node is read as. -/
inductive Role
  | declaration
  | signature
  | parameter
  | type

/-- A member of a node lists nodes that are read, too. -/
inductive Lists (m : Members) : Role → Text → Role → Prop
  | children : Lists m .declaration "children" .declaration
  | signatures : Lists m .declaration "signatures" .signature
  | parameters : Lists m .signature "parameters" .parameter
  | group (g : Group) : form m = .group g → Lists m .type g.key .type
  | arguments : form m = .reference → Lists m .type "typeArguments" .type

/-- A member of a node is itself a node that is read. -/
inductive Holds (m : Members) : Role → Text → Role → Prop
  | type {role : Role} : role ≠ .type → Holds m role "type" .type
  | element {n : Members} : form m = .array n → Holds m .type "elementType" .type
  | inline {n : Members} : form m = .inline n → Holds m .type "declaration" .declaration

/-- The node at an address of a document is read. -/
inductive IsRead (raw : Members) : Role → Pointer → Members → Prop
  | root : IsRead raw .declaration [] raw
  | listed {role role' : Role} {p : Pointer} {m : Members} {key : Text} {l : List (Nat × Members)}
    {i : Nat} {n : Members} : IsRead raw role p m → Lists m role key role' →
    nodes (member m key) = .ok l → (i, n) ∈ l → IsRead raw role' (.index i :: .key key :: p) n
  | held {role role' : Role} {p : Pointer} {m : Members} {key : Text} {n : Members} :
    IsRead raw role p m → Holds m role key role' → object? m key = some n →
    IsRead raw role' (.key key :: p) n

/-! ## What comes of them -/

section

variable {setting : Setting} {p : Pointer} {m n : Members} {key : Text} {i : Nat}
  {l : List (Nat × Members)}

private theorem exists_of_mapM {α β : Type} {f : α → Filling β} {l : List α} {bs : List β}
    (h : (l.mapM f).outcome = .ok bs) {a : α} (ha : a ∈ l) : ∃ b ∈ bs, (f a).outcome = .ok b :=
  exists_result (outcome_mapM_eq_ok.1 h) ha

private theorem eachNode_ok {α : Type} {f : Nat → Members → Filling α} {as : List α}
    (h : (eachNode m key f).outcome = .ok as) (hl : nodes (member m key) = .ok l)
    (hn : (i, n) ∈ l) : ∃ a ∈ as, (f i n).outcome = .ok a := by
  obtain ⟨l', hl', h⟩ := outcome_bind_eq_ok.1 h
  cases hl.symm.trans hl'
  exact exists_of_mapM h hn

theorem eachElement_ok {α : Type} {f : Nat → Option Members → Filling α} {as : List α}
    (h : (eachElement m key f).outcome = .ok as) {items : List Value}
    (hl : elements (member m key) = .ok items) {item : Value} (hi : (item, i) ∈ items.zipIdx) :
    ∃ a ∈ as, (f i (asObject? item)).outcome = .ok a := by
  obtain ⟨items', hl', h⟩ := outcome_bind_eq_ok.1 h
  cases hl.symm.trans hl'
  exact exists_of_mapM h hi

private theorem eachElement_node_ok {α : Type} {f : Nat → Option Members → Filling α} {as : List α}
    (h : (eachElement m key f).outcome = .ok as) (hl : nodes (member m key) = .ok l)
    (hn : (i, n) ∈ l) : ∃ a ∈ as, (f i (some n)).outcome = .ok a := by
  rw [nodes_eq_elements] at hl
  obtain ⟨items, he, rfl⟩ := map_eq_ok.1 hl
  exact eachElement_ok h he (mem_objectsFrom_iff.1 hn)

private theorem readTypeOf_ok {type : Option TypeNode}
    (h : (readTypeOf setting p m).outcome = .ok type) (hn : object? m "type" = some n) :
    ∃ t, type = some t ∧ (readType setting (.key "type" :: p) n).outcome = .ok t := by
  unfold readTypeOf at h
  rw [hn, Option.mapM_some] at h
  obtain ⟨t, ht, rfl⟩ := outcome_map_eq_ok.1 h
  exact ⟨t, rfl, ht⟩

end

/-- What comes of a node that is read is a part of a graph. -/
def IsPart (setting : Setting) (root : Declaration) (p : Pointer) (m : Members) : Role → Prop
  | .declaration => ∃ d, (readDeclaration setting p m).outcome = .ok d ∧
    Relation.ReflTransGen HasPart (.declaration root) (.declaration d)
  | .signature => ∃ d s, (readSignature setting p m).outcome = .ok s ∧ s ∈ d.signatures ∧
    Relation.ReflTransGen HasPart (.declaration root) (.declaration d)
  | .parameter => ∃ d s q, (readParameter setting p m).outcome = .ok q ∧ q ∈ s.parameters ∧
    s ∈ d.signatures ∧ Relation.ReflTransGen HasPart (.declaration root) (.declaration d)
  | .type => ∃ owner t, (readType setting p m).outcome = .ok t ∧
    Relation.ReflTransGen HasPart (.declaration root) (.type owner t)

section

variable {setting : Setting} {root : Declaration} {p : Pointer} {m n : Members} {key : Text}
  {role role' : Role}

theorem readDeclaration_ok {d : Declaration}
    (h : (readDeclaration setting p m).outcome = .ok d) :
    (readTypeOf setting p m).outcome = .ok d.type ∧
      (eachNode m "signatures" fun i m =>
        readSignature setting (.index i :: .key "signatures" :: p) m).outcome = .ok d.signatures ∧
      (eachNode m "children" fun i m =>
        readDeclaration setting (.index i :: .key "children" :: p) m).outcome = .ok d.children := by
  rw [readDeclaration_eq] at h
  simp only [outcome_bind_eq_ok, outcome_pure, Except.ok.injEq] at h
  obtain ⟨-, -, -, -, type, htype, -, -, signatures, hs, children, hc, rfl⟩ := h
  exact ⟨htype, hs, hc⟩

theorem readSignature_ok {s : Signature}
    (h : (readSignature setting p m).outcome = .ok s) :
    (eachElement m "parameters" (readParameterAt setting p)).outcome = .ok s.parameters ∧
      (readTypeOf setting p m).outcome = .ok s.type := by
  rw [readSignature_eq] at h
  simp only [outcome_bind_eq_ok, outcome_pure, Except.ok.injEq] at h
  obtain ⟨ps, hps, type, htype, -, -, rfl⟩ := h
  exact ⟨hps, htype⟩

theorem readParameter_ok {q : Parameter}
    (h : (readParameter setting p m).outcome = .ok q) :
    (readTypeOf setting p m).outcome = .ok q.type := by
  rw [readParameter_eq] at h
  simp only [outcome_bind_eq_ok, outcome_pure, Except.ok.injEq] at h
  obtain ⟨type, htype, -, -, -, -, rfl⟩ := h
  exact htype

private theorem isPart_listed {l : List (Nat × Members)} {i : Nat}
    (h : IsPart setting root p m role) (lists : Lists m role key role')
    (hl : nodes (member m key) = .ok l) (hn : (i, n) ∈ l) :
    IsPart setting root (.index i :: .key key :: p) n role' := by
  cases lists with
  | children =>
    obtain ⟨d, hd, hpart⟩ := h
    obtain ⟨c, hc, hread⟩ := eachNode_ok (readDeclaration_ok hd).2.2 hl hn
    exact ⟨c, hread, hpart.tail (.child hc)⟩
  | signatures =>
    obtain ⟨d, hd, hpart⟩ := h
    obtain ⟨s, hs, hread⟩ := eachNode_ok (readDeclaration_ok hd).2.1 hl hn
    exact ⟨d, s, hread, hs, hpart⟩
  | parameters =>
    obtain ⟨d, s, hs, hsd, hpart⟩ := h
    obtain ⟨q, hq, hread⟩ := eachElement_node_ok (readSignature_ok hs).1 hl hn
    exact ⟨d, s, q, hread, hq, hsd, hpart⟩
  | group g hg =>
    obtain ⟨owner, t, ht, hpart⟩ := h
    rw [readType_eq, hg] at ht
    obtain ⟨ts, hts, rfl⟩ := outcome_map_eq_ok.1 ht
    obtain ⟨t, hmem, hread⟩ := eachNode_ok hts hl hn
    refine ⟨owner, t, hread, hpart.tail ?_⟩
    cases g with
    | tuple => exact .item hmem
    | union => exact .option hmem
    | intersection => exact .operand hmem
  | arguments hr =>
    obtain ⟨owner, t, ht, hpart⟩ := h
    rw [readType_eq, hr] at ht
    obtain ⟨ts, hts, ht⟩ := outcome_bind_eq_ok.1 ht
    cases ht
    obtain ⟨t, ht, hread⟩ := eachNode_ok hts hl hn
    exact ⟨owner, t, hread, hpart.tail (.argument ht)⟩

private theorem isPart_held (h : IsPart setting root p m role) (holds : Holds m role key role')
    (hn : object? m key = some n) : IsPart setting root (.key key :: p) n role' := by
  cases holds with
  | type other =>
    cases role with
    | declaration =>
      obtain ⟨d, hd, hpart⟩ := h
      obtain ⟨t, htype, hread⟩ := readTypeOf_ok (readDeclaration_ok hd).1 hn
      exact ⟨d, t, hread, hpart.tail (.ownType htype)⟩
    | signature =>
      obtain ⟨d, s, hs, hsd, hpart⟩ := h
      obtain ⟨t, htype, hread⟩ := readTypeOf_ok (readSignature_ok hs).2 hn
      exact ⟨d, t, hread, hpart.tail (.returnType hsd htype)⟩
    | parameter =>
      obtain ⟨d, s, q, hq, hqs, hsd, hpart⟩ := h
      obtain ⟨t, htype, hread⟩ := readTypeOf_ok (readParameter_ok hq) hn
      exact ⟨d, t, hread, hpart.tail (.parameter hsd hqs htype)⟩
    | type => exact absurd rfl other
  | element hf =>
    obtain ⟨owner, t, ht, hpart⟩ := h
    cases hn.symm.trans (object?_of_form_array hf)
    rw [readType_eq, hf] at ht
    obtain ⟨t, hread, rfl⟩ := outcome_map_eq_ok.1 ht
    exact ⟨owner, t, hread, hpart.tail .element⟩
  | inline hf =>
    obtain ⟨owner, t, ht, hpart⟩ := h
    cases hn.symm.trans (object?_of_form_inline hf)
    rw [readType_eq, hf] at ht
    obtain ⟨d, hread, rfl⟩ := outcome_map_eq_ok.1 ht
    exact ⟨d, hread, hpart.tail .inline⟩

/-- Where the root of a document can be read, so can all nodes below it that are to be read. -/
theorem isPart_of_isRead {raw : Members} (hroot : (readDeclaration setting [] raw).outcome = .ok root)
    (h : IsRead raw role p m) : IsPart setting root p m role := by
  induction h with
  | root => exact ⟨root, hroot, .refl⟩
  | listed _ lists hl hn ih => exact isPart_listed ih lists hl hn
  | held _ holds hn ih => exact isPart_held ih holds hn

end

/-! ## References -/

/-- The number that a reference node points at. -/
def targetNumber? (node : Members) : Option Int :=
  (Id.ofValue? ((member? node "id").getD (member node "target"))).map Id.number

private theorem target?_eq (setting : Setting) (node : Members) :
    setting.target? node = (targetNumber? node).bind fun n => setting.sites.lookup n := by
  unfold Setting.target? targetNumber?
  rw [Option.bind_map]
  rfl

private theorem lookup_sites {numbering : Numbering} {parent : Option Site} {p : Pointer}
    {raw : Members} {o o' : Outline} (h : (outline numbering parent p raw).outcome = .ok o)
    (distinct : (numbersOf o.stems).Nodup) (ho' : o' ∈ o.all) {id : Id} (hid : o'.header.id = some id) :
    o.sites.lookup id.number = some o'.site := by
  obtain ⟨_, _, _, h'⟩ := outline_of_mem_all h ho'
  rw [sites_eq h, site_eq_stem h']
  refine Table.lookup_of_mem (by rwa [keys_sitesOf, List.nodup_reverse]) ?_
  exact mem_sitesOf (List.mem_map_of_mem ho') hid

theorem form_of_reference {node : Members}
    (h : (member node "type").displayOrEmpty = Text.ofString "reference") :
    form node = .reference := by
  unfold form categoryOf
  dsimp only
  rw [h, stringLiteral?_eq_none (by decide) (by decide)]
  rfl

/-- A node is a reference with the id of a declaration. -/
structure PointsTo (node : Members) (o : Outline) : Prop where
  reference : (member node "type").displayOrEmpty = Text.ofString "reference"
  id : ∃ id, o.header.id = some id ∧ targetNumber? node = some id.number

section

variable {raw node : Members} {project : Project} (loads : Project.ofMembers raw = .ok project)
  (distinct : (numbersOf project.outline.stems).Nodup) {o : Outline}
  (ho : o ∈ project.outline.all) (points : PointsTo node o) {p : Pointer}

include loads distinct ho points

/-- Where no two declarations have one id, a reference with the id of a declaration points at it. -/
theorem target_of_pointsTo {t : TypeNode}
    (h : (readType (Setting.ofOutline project.outline) p node).outcome = .ok t) :
    ∃ arguments, t = .reference (member node "name").display arguments
      (member node "qualifiedName") (some o.site) := by
  obtain ⟨id, hid, hnode⟩ := points.id
  have target : (Setting.ofOutline project.outline).target? node = some o.site := by
    rw [target?_eq, hnode]
    exact lookup_sites (Project.ofMembers_eq_ok.1 loads).1 distinct ho hid
  rw [readType_eq, form_of_reference points.reference] at h
  obtain ⟨arguments, -, h⟩ := outcome_bind_eq_ok.1 h
  rw [target] at h
  cases h
  exact ⟨arguments, rfl⟩

/-- Where such a reference is read, it is a part of the loaded graph. -/
theorem reference_of_pointsTo (read : IsRead raw .type p node) :
    ∃ owner arguments, Relation.ReflTransGen HasPart (.declaration project.root)
      (.type owner (.reference (member node "name").display arguments
        (member node "qualifiedName") (some o.site))) := by
  obtain ⟨owner, t, ht, hpart⟩ := isPart_of_isRead (Project.ofMembers_eq_ok.1 loads).2 read
  obtain ⟨arguments, rfl⟩ := target_of_pointsTo loads distinct ho points ht
  exact ⟨owner, arguments, hpart⟩

end

end DocShape.Document
