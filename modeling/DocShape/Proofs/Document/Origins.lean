import DocShape.Proofs.Conversion.Rules
import DocShape.Proofs.Document.References

/-!
Where the parts of a loaded graph come from. Every part is what a node of the document is read as
(`isReadAt_of_hasPart`), parts of a declaration stand inside it in the document (`InGraph.encloses`), and
a node that lists types is read with one type for each object that it lists
(`length_eq_of_readType`), whatever else stands in the list.
-/

namespace DocShape.Document

open Json Journal

/-! ## Back to the members of a node -/

section

variable {setting : Setting} {p : Pointer} {m : Members} {key : Text}

theorem exists_of_eachNode {α : Type} {f : Nat → Members → Filling α} {as : List α}
    (h : (eachNode m key f).outcome = .ok as) :
    ∃ l, nodes (member m key) = .ok l ∧ as.length = l.length ∧
      ∀ a ∈ as, ∃ i n, (i, n) ∈ l ∧ (f i n).outcome = .ok a := by
  obtain ⟨l, hl, h⟩ := outcome_bind_eq_ok.1 h
  have results := outcome_mapM_eq_ok.1 h
  refine ⟨l, hl, by simpa using (congrArg List.length results).symm, fun a ha => ?_⟩
  obtain ⟨⟨i, n⟩, hn, hr⟩ := exists_of_result results ha
  exact ⟨i, n, hn, hr⟩

theorem exists_of_eachParameter {as : List Parameter}
    (h : (eachElement m "parameters" (readParameterAt setting p)).outcome = .ok as) {a : Parameter}
    (ha : a ∈ as) : ∃ l i n, nodes (member m "parameters") = .ok l ∧ (i, n) ∈ l ∧
      (readParameter setting (.index i :: .key "parameters" :: p) n).outcome = .ok a := by
  obtain ⟨items, hitems, h⟩ := outcome_bind_eq_ok.1 h
  have hitems : elements (member m "parameters") = .ok items := hitems
  obtain ⟨⟨item, i⟩, hi, hr⟩ := exists_of_result (outcome_mapM_eq_ok.1 h) ha
  cases item with
  | object n =>
    refine ⟨objectsFrom 0 items, i, n, ?_, mem_objectsFrom_iff.2 hi, hr⟩
    rw [nodes_eq_elements, hitems]
    rfl
  | _ => cases hr

theorem exists_of_readTypeOf {t : TypeNode} (h : (readTypeOf setting p m).outcome = .ok (some t)) :
    ∃ n, object? m "type" = some n ∧ (readType setting (.key "type" :: p) n).outcome = .ok t := by
  unfold readTypeOf at h
  cases hn : object? m "type" with
  | none =>
    rw [hn] at h
    cases h
  | some n =>
    rw [hn, Option.mapM_some] at h
    obtain ⟨t', ht, ⟨⟩⟩ := outcome_map_eq_ok.1 h
    exact ⟨n, rfl, ht⟩

/-- What a type node is read as, by its form. -/
inductive ReadAs (setting : Setting) (p : Pointer) (m : Members) (t : TypeNode) : Prop
  | leaf : form m = .leaf t → ReadAs setting p m t
  | array {n : Members} {element : TypeNode} : form m = .array n → t = .array element →
    (readType setting (.key "elementType" :: p) n).outcome = .ok element → ReadAs setting p m t
  | group {g : Group} {ts : List TypeNode} : form m = .group g → t = g.node ts →
    (readListed setting p m g.key).outcome = .ok ts → ReadAs setting p m t
  | reference {ts : List TypeNode} : form m = .reference →
    t = .reference (member m "name").display ts (member m "qualifiedName") (setting.target? m) →
    (readListed setting p m "typeArguments").outcome = .ok ts → ReadAs setting p m t
  | inline {n : Members} {d : Declaration} : form m = .inline n → t = .inline d →
    (readDeclaration setting (.key "declaration" :: p) n).outcome = .ok d → ReadAs setting p m t

theorem readAs_of_readType {t : TypeNode} (h : (readType setting p m).outcome = .ok t) :
    ReadAs setting p m t := by
  rw [readType_eq] at h
  cases hf : form m with
  | leaf t' =>
    rw [hf] at h
    cases h
    exact .leaf hf
  | array n =>
    rw [hf] at h
    obtain ⟨element, he, rfl⟩ := outcome_map_eq_ok.1 h
    exact .array hf rfl he
  | group g =>
    rw [hf] at h
    obtain ⟨ts, hts, rfl⟩ := outcome_map_eq_ok.1 h
    exact .group hf rfl hts
  | reference =>
    rw [hf] at h
    obtain ⟨ts, hts, h⟩ := outcome_bind_eq_ok.1 h
    cases h
    exact .reference hf rfl hts
  | inline n =>
    rw [hf] at h
    obtain ⟨d, hd, rfl⟩ := outcome_map_eq_ok.1 h
    exact .inline hf rfl hd

/-- Nodes that are read as they stand have no types inside. -/
theorem isLeaf_of_form {t : TypeNode} (h : form m = .leaf t) :
    t.isLeaf ∨ ∃ category source, t = .unmodelled category source := by
  unfold form at h
  cases hc : categoryOf m with
  | array =>
    rw [hc] at h
    cases ho : object? m "elementType" <;> rw [ho] at h <;> cases h
    exact Or.inr ⟨_, _, rfl⟩
  | inline =>
    rw [hc] at h
    cases ho : object? m "declaration" <;> rw [ho] at h <;> cases h
    exact Or.inr ⟨_, _, rfl⟩
  | group | reference =>
    rw [hc] at h
    cases h
  | other =>
    rw [hc] at h
    cases h
    exact Or.inr ⟨_, _, rfl⟩
  | _ =>
    rw [hc] at h
    cases h
    exact Or.inl rfl

end

/-! ## Parts inside parts -/

/-- Of what is found at addresses, each part is found properly inside what it is a part of. -/
def FoundInside (Found : Pointer → Entry → Prop) : Prop :=
  ∀ p e e', Found p e → HasPart e e' → ∃ q, Encloses p q ∧ Found q e'

section

variable {Found : Pointer → Entry → Prop} {p : Pointer}

theorem FoundInside.parts (inside : FoundInside Found) {e e' : Entry} (h : Found p e)
    (parts : Relation.ReflTransGen HasPart e e') : ∃ q, p <:+ q ∧ Found q e' := by
  induction parts with
  | refl => exact ⟨p, List.suffix_rfl, h⟩
  | tail _ part ih =>
    obtain ⟨q, hpq, found⟩ := ih
    obtain ⟨r, hqr, found⟩ := inside q _ _ found part
    exact ⟨r, hpq.trans hqr.1, found⟩

/-- Declarations that carry the addresses at which they are found enclose all declarations in them. -/
theorem FoundInside.encloses (inside : FoundInside Found)
    (origin : ∀ p d, Found p (.declaration d) → d.origin = p) {d d' : Declaration}
    (h : Found p (.declaration d)) (below : Relation.TransGen HasPart (.declaration d) (.declaration d')) :
    Encloses d.origin d'.origin := by
  obtain ⟨e, part, parts⟩ := Relation.TransGen.head'_iff.1 below
  obtain ⟨q, hpq, found⟩ := inside p _ e h part
  obtain ⟨r, hqr, found⟩ := inside.parts found parts
  rw [origin p d h, origin r d' found]
  exact hpq.trans_suffix hqr

end

/-! ## Back to the document -/

/-- The document has a node at an address that an entry is read from. -/
def IsReadAt (setting : Setting) (raw : Members) (p : Pointer) : Entry → Prop
  | .declaration d => ∃ m, IsRead raw .declaration p m ∧ (readDeclaration setting p m).outcome = .ok d
  | .type _ t => ∃ m, IsRead raw .type p m ∧ (readType setting p m).outcome = .ok t

section

variable {setting : Setting} {raw m : Members} {p : Pointer}

/-- The type of a node that is no type node itself. -/
private theorem isReadAt_ownType {role : Role} (read : IsRead raw role p m) (hrole : role ≠ .type)
    {owner : Declaration} {t : TypeNode} (h : (readTypeOf setting p m).outcome = .ok (some t)) :
    IsReadAt setting raw (.key "type" :: p) (.type owner t) := by
  obtain ⟨n, hn, ht⟩ := exists_of_readTypeOf h
  exact ⟨n, .held read (.type hrole) hn, ht⟩

private theorem isReadAt_signature {d : Declaration} {s : Signature}
    (h : IsReadAt setting raw p (.declaration d)) (hs : s ∈ d.signatures) :
    ∃ i m, IsRead raw .signature (.index i :: .key "signatures" :: p) m ∧
      (readSignature setting (.index i :: .key "signatures" :: p) m).outcome = .ok s := by
  obtain ⟨m, read, hd⟩ := h
  obtain ⟨l, hl, -, each⟩ := exists_of_eachNode (readDeclaration_ok hd).2.1
  obtain ⟨i, n, hn, hr⟩ := each s hs
  exact ⟨i, n, .listed read .signatures hl hn, hr⟩

/-- One of the types that a type node lists. -/
private theorem isReadAt_listed {key : Text} (lists : Lists m .type key .type)
    (read : IsRead raw .type p m) {owner : Declaration} {ts : List TypeNode} {t : TypeNode}
    (h : (readListed setting p m key).outcome = .ok ts) (ht : t ∈ ts) :
    ∃ i, IsReadAt setting raw (.index i :: .key key :: p) (.type owner t) := by
  obtain ⟨l, hl, -, each⟩ := exists_of_eachNode h
  obtain ⟨i, n, hn, hr⟩ := each t ht
  exact ⟨i, n, .listed read lists hl hn, hr⟩

private theorem not_hasPart_of_form {owner : Declaration} {t : TypeNode} (h : form m = .leaf t)
    (e : Entry) : ¬ HasPart (.type owner t) e := by
  rcases isLeaf_of_form h with leaf | ⟨_, _, rfl⟩
  · cases t with
    | intrinsic | stringLiteral | typeParameter => nofun
    | _ => cases leaf
  · nofun

/-- What is inside a type node. -/
private theorem ReadAs.part {owner : Declaration} {t : TypeNode} {e : Entry}
    (h : ReadAs setting p m t) (read : IsRead raw .type p m) (part : HasPart (.type owner t) e) :
    ∃ q, Encloses p q ∧ IsReadAt setting raw q e := by
  -- One of the types that are listed stands at its index under their key.
  have listed : ∀ {key : Text} {ts : List TypeNode} {t : TypeNode}, Lists m .type key .type →
      (readListed setting p m key).outcome = .ok ts → t ∈ ts →
      ∃ q, Encloses p q ∧ IsReadAt setting raw q (.type owner t) := by
    intro key ts t lists hr ht
    obtain ⟨i, found⟩ := isReadAt_listed lists read hr ht
    exact ⟨_, encloses_of_cons (List.suffix_cons ..), found⟩
  cases h with
  | leaf hf => exact absurd part (not_hasPart_of_form hf e)
  | array hf ht hr =>
    subst ht
    cases part
    exact ⟨_, encloses_of_cons List.suffix_rfl, _,
      .held read (.element hf) (object?_of_form_array hf), hr⟩
  | @group g ts hf ht hr =>
    subst ht
    cases g <;> cases part
    all_goals exact listed (.group _ hf) hr (by assumption)
  | reference hf ht hr =>
    subst ht
    cases part with
    | argument ha => exact listed (.arguments hf) hr ha
  | inline hf ht hr =>
    subst ht
    cases part
    exact ⟨_, encloses_of_cons List.suffix_rfl, _,
      .held read (.inline hf) (object?_of_form_inline hf), hr⟩

/-- A direct part of what is read from a node is read from a node properly inside it. -/
theorem foundInside_isReadAt (setting : Setting) (raw : Members) :
    FoundInside (IsReadAt setting raw) := by
  intro p e e' h part
  cases e with
  | type owner t =>
    obtain ⟨m, read, ht⟩ := h
    exact (readAs_of_readType ht).part read part
  | declaration d =>
    cases part with
    | ownType ht =>
      obtain ⟨m, read, hd⟩ := h
      exact ⟨_, encloses_of_cons List.suffix_rfl,
        isReadAt_ownType read nofun (ht ▸ (readDeclaration_ok hd).1)⟩
    | parameter hs hq ht =>
      obtain ⟨i, m, read, hread⟩ := isReadAt_signature h hs
      obtain ⟨l, j, n, hl, hn, hr⟩ := exists_of_eachParameter (readSignature_ok hread).1 hq
      have inside : .key "signatures" :: p <:+
          .key "type" :: .index j :: .key "parameters" :: .index i :: .key "signatures" :: p :=
        ⟨[.key "type", .index j, .key "parameters", .index i], rfl⟩
      exact ⟨_, encloses_of_cons inside,
        isReadAt_ownType (.listed read .parameters hl hn) nofun (ht ▸ readParameter_ok hr)⟩
    | returnType hs ht =>
      obtain ⟨i, m, read, hread⟩ := isReadAt_signature h hs
      have inside : .key "signatures" :: p <:+
          .key "type" :: .index i :: .key "signatures" :: p := ⟨[.key "type", .index i], rfl⟩
      exact ⟨_, encloses_of_cons inside,
        isReadAt_ownType read nofun (ht ▸ (readSignature_ok hread).2)⟩
    | child hc =>
      obtain ⟨m, read, hd⟩ := h
      obtain ⟨l, hl, -, each⟩ := exists_of_eachNode (readDeclaration_ok hd).2.2
      obtain ⟨i, n, hn, hr⟩ := each _ hc
      exact ⟨_, encloses_of_cons (List.suffix_cons ..), n, .listed read .children hl hn, hr⟩

/-- Every part of a graph is read from a node of the document. -/
theorem isReadAt_of_hasPart {root : Declaration} {e : Entry}
    (hroot : (readDeclaration setting [] raw).outcome = .ok root)
    (h : Relation.ReflTransGen HasPart (.declaration root) e) : ∃ p, IsReadAt setting raw p e := by
  have start : IsReadAt setting raw [] (.declaration root) := ⟨raw, .root, hroot⟩
  obtain ⟨p, -, found⟩ := (foundInside_isReadAt setting raw).parts start h
  exact ⟨p, found⟩

/-- A group of types is read from a node that lists one object for each of them. -/
theorem length_eq_of_readType {g : Group} {ts : List TypeNode}
    (h : (readType setting p m).outcome = .ok (g.node ts)) :
    form m = .group g ∧ ∃ l, nodes (member m g.key) = .ok l ∧ ts.length = l.length := by
  cases readAs_of_readType h with
  | leaf hf =>
    rcases isLeaf_of_form hf with leaf | ⟨_, _, he⟩
    · cases g <;> cases leaf
    · cases g <;> cases he
  | @group g' ts' hf ht hr =>
    have same : g = g' ∧ ts = ts' := by
      cases g <;> cases g' <;> cases ht <;> exact ⟨rfl, rfl⟩
    obtain ⟨rfl, rfl⟩ := same
    obtain ⟨l, hl, length, -⟩ := exists_of_eachNode hr
    exact ⟨hf, l, hl, length⟩
  | array _ ht | reference _ ht | inline _ ht => cases g <;> cases ht

end

/-! ## Declarations inside declarations -/

/-- The declarations of a loaded document: those that are read, and those at places that are not read, as
far as the outline tells. -/
inductive InGraph (project : Project) : Declaration → Prop
  | read {d : Declaration} :
    Relation.ReflTransGen HasPart (.declaration project.root) (.declaration d) → InGraph project d
  | bare {o : Outline} : o ∈ project.outline.all → InGraph project o.bare

/-- A declaration that is read at an address has been created there, with the same stem. -/
theorem created?_of_readDeclaration {setting : Setting} {p : Pointer} {m : Members} {d : Declaration}
    (h : (readDeclaration setting p m).outcome = .ok d) :
    ∃ bare, setting.created? p = some bare ∧ d.stem = bare.stem := by
  rw [readDeclaration_eq] at h
  simp only [outcome_bind_eq_ok, outcome_pure, Except.ok.injEq] at h
  obtain ⟨bare, entered, -, -, type, -, -, -, signatures, -, children, -, rfl⟩ := h
  obtain ⟨-, -, entered⟩ := outcome_bind_eq_ok.1 entered
  cases hb : setting.created? p with
  | none =>
    rw [hb] at entered
    cases entered
  | some created =>
    rw [hb] at entered
    cases entered
    exact ⟨bare, rfl, rfl⟩

private theorem origin_of_readDeclaration {setting : Setting} (keyed : setting.Keyed) {p : Pointer}
    {m : Members} {d : Declaration} (h : (readDeclaration setting p m).outcome = .ok d) :
    d.origin = p := by
  obtain ⟨bare, hb, stem⟩ := created?_of_readDeclaration h
  exact (congrArg Stem.origin stem).trans (keyed p bare hb)

/-- A declaration is known from its outline alone. -/
private def IsBareAt (p : Pointer) : Entry → Prop
  | .declaration d => ∃ numbering parent raw o, (outline numbering parent p raw).outcome = .ok o ∧
    d = o.bare
  | .type _ _ => False

private theorem origin_of_isBareAt (p : Pointer) (d : Declaration) (h : IsBareAt p (.declaration d)) :
    d.origin = p := by
  obtain ⟨_, _, _, o, ho, rfl⟩ := h
  obtain ⟨_, _, -, -, horigin, -⟩ := outline_ok ho
  exact (congrArg Site.origin (bare_site ho)).trans horigin

private theorem bareIn_eq_map (l : List Outline) : Outline.bareIn l = l.map Outline.bare := by
  induction l with
  | nil => rfl
  | cons o rest ih => rw [Outline.bareIn, ih, List.map_cons]

/-- Its only parts are the outlines of its children. -/
private theorem foundInside_isBareAt : FoundInside IsBareAt := by
  intro p e e' h part
  cases e with
  | type => exact h.elim
  | declaration d =>
    obtain ⟨numbering, _, _, ⟨creation, header, children, inlined⟩, ho, rfl⟩ := h
    obtain ⟨nodes, _, -, -, -, -, outlines, -⟩ := outline_ok ho
    cases part with
    | ownType ht => cases ht
    | parameter hs => cases hs
    | returnType hs => cases hs
    | child hc =>
      have hc : _ ∈ Outline.bareIn children := hc
      rw [bareIn_eq_map] at hc
      obtain ⟨o, hm, rfl⟩ := List.mem_map.1 hc
      obtain ⟨c, -, hoc⟩ := Journal.exists_of_result outlines hm
      exact ⟨_, encloses_of_cons (List.suffix_cons ..), numbering, _, _, o, hoc, rfl⟩

/-- In a declaration of a loaded document, every declaration properly encloses all that are part of it. -/
theorem InGraph.encloses {raw : Members} {project : Project}
    (hload : Project.ofMembers raw = .ok project) {d e e' : Declaration} (h : InGraph project d)
    (inside : Relation.ReflTransGen HasPart (.declaration d) (.declaration e))
    (below : Relation.TransGen HasPart (.declaration e) (.declaration e')) :
    Encloses e.origin e'.origin := by
  obtain ⟨houtline, hroot⟩ := Project.ofMembers_eq_ok.1 hload
  cases h with
  | read read =>
    obtain ⟨p, found⟩ := isReadAt_of_hasPart hroot (read.trans inside)
    refine (foundInside_isReadAt _ raw).encloses ?_ found below
    rintro p d ⟨m, -, hd⟩
    exact origin_of_readDeclaration (keyed_ofOutline houtline) hd
  | bare hm =>
    obtain ⟨_, p, _, ho⟩ := outline_of_mem_all houtline hm
    have start : IsBareAt p (.declaration _) := ⟨_, _, _, _, ho, rfl⟩
    obtain ⟨q, -, found⟩ := foundInside_isBareAt.parts start inside
    exact foundInside_isBareAt.encloses origin_of_isBareAt found below

end DocShape.Document
