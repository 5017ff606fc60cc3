import DocShape.Proofs.Document.Listed
import DocShape.Proofs.Document.Stems

/-!
Two documents side by side. `Twins` says step by step which nodes of two documents correspond under a
renaming; then the outlines have renamed stems (`outline_twin`), and what is read is the renamed
declaration (`readDeclaration_twin`).
-/

namespace DocShape.Document

open Json

/-! ## Regions -/

/-- A part of a document that a renaming moves as a whole. -/
structure Region (r : Renaming) where
  inside : Pointer → Prop
  /-- The places inside the part. -/
  deep : Place → Prop
  inside_cons : ∀ {p} s, inside p → inside (s :: p)
  deep_cons : ∀ {place} s, deep place → deep (s :: place)
  address_cons : ∀ {p} s, inside p → r.address (s :: p) = s :: r.address p
  around_cons : ∀ {p q place} s, inside p → p <:+ q → deep place →
    r.around q (s :: place) = s :: r.around p place

/-- A part of a document in which a renaming may give the items of each list new positions. -/
structure Zone (r : Renaming) where
  inside : Pointer → Prop
  /-- The places inside the part. -/
  deep : Place → Prop
  /-- The new positions of the items of the list at an address. -/
  position : Pointer → Nat → Nat
  inside_cons : ∀ {p} s, inside p → inside (s :: p)
  deep_cons : ∀ {place} s, deep place → deep (s :: place)
  address_key : ∀ {p} key, inside p → r.address (.key key :: p) = .key key :: r.address p
  address_index : ∀ {p} i, inside p → r.address (.index i :: p) = .index (position p i) :: r.address p
  around_cons : ∀ {p q place} s, inside p → p <:+ q → deep place →
    r.around q (s :: place) = s :: r.around p place

/-- What is moved as a whole keeps its positions. -/
def Region.zone {r : Renaming} (region : Region r) : Zone r where
  inside := region.inside
  deep := region.deep
  position _ i := i
  inside_cons := region.inside_cons
  deep_cons := region.deep_cons
  address_key _ := region.address_cons _
  address_index _ := region.address_cons _
  around_cons := region.around_cons

section

variable {r : Renaming} (zone : Zone r)

theorem Zone.inside_item {p : Pointer} (hp : zone.inside p) (i : Nat) (key : Text) :
    zone.inside (.index i :: .key key :: p) :=
  zone.inside_cons _ (zone.inside_cons _ hp)

theorem Zone.address_item {p : Pointer} (hp : zone.inside p) (i : Nat) (key : Text) :
    r.address (.index i :: .key key :: p) =
      .index (zone.position (.key key :: p) i) :: .key key :: r.address p := by
  rw [zone.address_index _ (zone.inside_cons _ hp), zone.address_key _ hp]

/-- Two values list objects that correspond where they stand. -/
def ListedAt (R : Pointer → Members → Members → Prop) (p : Pointer) (v v' : Value) : Prop :=
  ListedBy (zone.position p) (fun i => R (.index i :: p)) v v'

theorem Listed.at (region : Region r) {R : Members → Members → Prop} {v v' : Value}
    (h : Listed R v v') (p : Pointer) : ListedAt region.zone (fun _ => R) p v v' := h.by

end

private theorem suffix_item (i : Nat) (key : Text) (p : Pointer) :
    p <:+ .index i :: .key key :: p :=
  (List.suffix_cons ..).trans (List.suffix_cons ..)

/-! ## Twins -/

section

variable {r : Renaming} (zone : Zone r)

/-- Two declarations that correspond, each with its address. -/
def Moved (declaration : Pointer → Members → Members → Prop) (c c' : Pointer × Members) : Prop :=
  zone.inside c.1 ∧ c'.1 = r.address c.1 ∧ declaration c.1 c.2 c'.2

/-- Comment and type of two nodes correspond, and so do the inline declarations below the types. -/
structure OwnsAlike (declaration type : Pointer → Members → Members → Prop) (p : Pointer)
    (m m' : Members) : Prop where
  comment : readComment (member m' "comment") = readComment (member m "comment")
  type : BothObjects (type (.key "type" :: p)) (member m "type") (member m' "type")
  inlined : List.Forall₂ (Moved zone declaration) (inlineIn (.key "type" :: p) (member m "type"))
    (inlineIn (r.address (.key "type" :: p)) (member m' "type"))

/-- Two type nodes have one form, and what is to be read inside them corresponds. -/
inductive FormAlike (declaration type : Pointer → Members → Members → Prop)
    (target : Members → Members → Prop) (p : Pointer) (node node' : Members) : Form → Form → Prop
  | leaf (t : TypeNode) : FormAlike declaration type target p node node' (.leaf t)
      (.leaf (t.rename r))
  | array {m m' : Members} : type (.key "elementType" :: p) m m' →
    FormAlike declaration type target p node node' (.array m) (.array m')
  | group (g : Group) : ListedAt zone type (.key g.key :: p) (member node g.key) (member node' g.key) →
    FormAlike declaration type target p node node' (.group g) (.group g)
  | reference : (member node' "name").display = (member node "name").display →
    member node' "qualifiedName" = member node "qualifiedName" →
    ListedAt zone type (.key "typeArguments" :: p) (member node "typeArguments")
      (member node' "typeArguments") →
    target node node' → FormAlike declaration type target p node node' .reference .reference
  | inline {m m' : Members} : declaration (.key "declaration" :: p) m m' →
    FormAlike declaration type target p node node' (.inline m) (.inline m')

end

/-- Type nodes of one category have one form, if what is read inside them corresponds. -/
theorem formAlike_of_category {r : Renaming} {zone : Zone r}
    {declaration type : Pointer → Members → Members → Prop} {target : Members → Members → Prop}
    {p : Pointer} {node node' : Members} (category : categoryOf node' = categoryOf node)
    (source : form node = .leaf (sourceNode node) →
      sourceNode node' = (sourceNode node).rename r)
    (name : (categoryOf node).showsName →
      (member node' "name").display = (member node "name").display)
    (qualifiedName : categoryOf node = .reference →
      member node' "qualifiedName" = member node "qualifiedName")
    (element : categoryOf node = .array →
      BothObjects (type (.key "elementType" :: p)) (member node "elementType")
        (member node' "elementType"))
    (inline : categoryOf node = .inline →
      BothObjects (declaration (.key "declaration" :: p)) (member node "declaration")
        (member node' "declaration"))
    (group : ∀ g : Group, categoryOf node = .group g →
      ListedAt zone type (.key g.key :: p) (member node g.key) (member node' g.key))
    (arguments : categoryOf node = .reference →
      ListedAt zone type (.key "typeArguments" :: p) (member node "typeArguments")
        (member node' "typeArguments"))
    (points : categoryOf node = .reference → target node node') :
    FormAlike zone declaration type target p node node' (form node) (form node') := by
  have held : ∀ {R : Members → Members → Prop} {v v' : Value} {make : Members → Form},
      form node = (asObject? v).elim (.leaf (sourceNode node)) make → BothObjects R v v' →
      (∀ m m', R m m' → FormAlike zone declaration type target p node node' (make m) (make m')) →
      FormAlike zone declaration type target p node node'
        ((asObject? v).elim (.leaf (sourceNode node)) make)
        ((asObject? v').elim (.leaf (sourceNode node')) make) := by
    intro R v v' make form rel step
    unfold BothObjects at rel
    generalize asObject? v = o, asObject? v' = o' at form rel ⊢
    cases rel with
    | none =>
      rw [source form]
      exact .leaf _
    | some h => exact step _ _ h
  unfold form
  simp only [object?_eq_asObject?, category]
  cases hc : categoryOf node with
  | intrinsic =>
    dsimp only
    rw [name (by rw [hc]; rfl)]
    exact .leaf (.intrinsic _)
  | literal value => exact .leaf (.stringLiteral value)
  | array => exact held (by rw [form, hc, ← object?_eq_asObject?]) (element hc) fun _ _ h => .array h
  | group g => exact .group g (group g hc)
  | typeParameter =>
    dsimp only
    rw [name (by rw [hc]; rfl)]
    exact .leaf (.typeParameter _)
  | reference => exact .reference (name (by rw [hc]; rfl)) (qualifiedName hc) (arguments hc) (points hc)
  | inline =>
    exact held (by rw [form, hc, ← object?_eq_asObject?]) (inline hc) fun _ _ h => .inline h
  | other =>
    dsimp only
    rw [source (by rw [form, hc])]
    exact .leaf _

def Header.rename (r : Renaming) (h : Header) : Header := { h with id := h.id.map r.id }

theorem Header.rename_eq_self {r : Renaming} (ids : ∀ i, r.id i = i) (h : Header) :
    h.rename r = h := by
  have same : r.id = fun i => i := funext ids
  simp [rename, same]

theorem Header.map_rename_eq_self {r : Renaming} (ids : ∀ i, r.id i = i) (x : Except Fault Header) :
    x.map (Header.rename r) = x := by
  cases x with
  | error e => rfl
  | ok header => exact congrArg Except.ok (header.rename_eq_self ids)

/-- Which nodes of two documents correspond under a renaming, and that this goes on to what is inside
them. `target` relates references whose targets correspond. No parameter has a new position. -/
structure Twins (r : Renaming) (zone : Zone r) (numbering numbering' : Numbering) where
  declaration : Pointer → Members → Members → Prop
  signature : Pointer → Members → Members → Prop
  parameter : Pointer → Members → Members → Prop
  type : Pointer → Members → Members → Prop
  target : Members → Members → Prop
  header : ∀ {p m m'}, declaration p m m' →
    Header.read numbering' m' = (Header.read numbering m).map (Header.rename r)
  owner : ∀ {p m m'}, zone.inside p → declaration p m m' → OwnsAlike zone declaration type p m m'
  typeParameters : ∀ {p m m'}, declaration p m m' → readTypeParameters m' = readTypeParameters m
  signatures : ∀ {p m m'}, declaration p m m' →
    ListedAt zone signature (.key "signatures" :: p) (member m "signatures") (member m' "signatures")
  children : ∀ {p m m'}, declaration p m m' →
    ListedAt zone declaration (.key "children" :: p) (member m "children") (member m' "children")
  signatureName : ∀ {p m m'}, signature p m m' →
    (member m' "name").displayOrEmpty = (member m "name").displayOrEmpty
  signatureOwner : ∀ {p m m'}, zone.inside p → signature p m m' →
    OwnsAlike zone declaration type p m m'
  positions : ∀ {p m m'}, signature p m m' → ∀ i, zone.position (.key "parameters" :: p) i = i
  parameters : ∀ {p m m'}, signature p m m' →
    ListedWhole (fun i => parameter (.index i :: .key "parameters" :: p)) (member m "parameters")
      (member m' "parameters")
  parameterName : ∀ {p m m'}, parameter p m m' →
    (member m' "name").displayOrEmpty = (member m "name").displayOrEmpty
  parameterOwner : ∀ {p m m'}, zone.inside p → parameter p m m' →
    OwnsAlike zone declaration type p m m'
  parameterOptional : ∀ {p m m'}, parameter p m m' → readOptional m' = readOptional m
  form : ∀ {p m m'}, type p m m' →
    FormAlike zone declaration type target p m m' (form m) (form m')

section

variable {r : Renaming} {zone : Zone r} {numbering numbering' : Numbering}
  (t : Twins r zone numbering numbering')

/-! ## The first pass -/

include t

private theorem roots_twin {p : Pointer} (hp : zone.inside p) {m m' : Members}
    (h : OwnsAlike zone t.declaration t.type p m m') :
    List.Forall₂ (Moved zone t.declaration)
      (inlineIn (.key "type" :: p) (member m "type"))
      (inlineIn (.key "type" :: r.address p) (member m' "type")) := by
  rw [← zone.address_key _ hp]
  exact h.inlined

/-- Two roots whose inline declarations correspond. -/
private def RootAlike (c c' : Pointer × Value) : Prop :=
  List.Forall₂ (Moved zone t.declaration) (inlineIn c.1 c.2) (inlineIn c'.1 c'.2)

private theorem signatureRoots_twin {p : Pointer} (hp : zone.inside p) {m m' : Members}
    (h : t.signature p m m') :
    Alike (List.Forall₂ (RootAlike t)) (signatureRoots p m) (signatureRoots (r.address p) m') := by
  unfold signatureRoots
  refine Alike.bind (t.parameters h).by fun l l' _ hl => .ok ?_
  refine .cons (roots_twin t hp (t.signatureOwner hp h)) ?_
  rw [List.forall₂_map_left_iff, List.forall₂_map_right_iff]
  refine hl.imp fun ⟨i, c⟩ ⟨j, c'⟩ ⟨hi, hc⟩ => ?_
  obtain rfl : j = i := hi
  have inside := zone.inside_item hp j "parameters"
  have moved := roots_twin t inside (t.parameterOwner inside hc)
  rw [zone.address_item hp, t.positions h] at moved
  exact moved

private theorem signaturesRoots_twin {p : Pointer} (hp : zone.inside p)
    {l l' : List (Nat × Members)}
    (h : List.Forall₂ (fun c c' => c'.1 = zone.position (.key "signatures" :: p) c.1 ∧
      t.signature (.index c.1 :: .key "signatures" :: p) c.2 c'.2) l l') :
    Alike (List.Forall₂ (RootAlike t)) (signaturesRoots p l) (signaturesRoots (r.address p) l') := by
  induction h with
  | nil => exact .ok .nil
  | @cons c c' l l' hc _ ih =>
    obtain ⟨i, m⟩ := c
    obtain ⟨j, m'⟩ := c'
    obtain ⟨rfl, hc⟩ := hc
    unfold signaturesRoots
    have first := signatureRoots_twin t (zone.inside_item hp i "signatures") hc
    rw [zone.address_item hp] at first
    refine first.bind fun roots roots' _ hr => ih.bind fun others others' _ ho => .ok ?_
    exact List.rel_append hr ho

/-- The inline declarations of twins correspond. -/
theorem inlineAt_twin {p : Pointer} (hp : zone.inside p) {m m' : Members}
    (h : t.declaration p m m') :
    Alike (List.Forall₂ (Moved zone t.declaration)) (inlineAt p m) (inlineAt (r.address p) m') := by
  unfold inlineAt typeRoots
  refine Alike.map (R := List.Forall₂ (RootAlike t)) ?_ fun roots roots' hr => ?_
  · refine Alike.bind (t.signatures h) fun l l' _ hl => ?_
    refine (signaturesRoots_twin t hp hl).bind fun others others' _ ho => .ok ?_
    exact .cons (roots_twin t hp (t.owner hp h)) ho
  · rw [inlineInRoots_eq, inlineInRoots_eq]
    exact List.rel_flatMap (List.rel_reverse hr) fun _ _ hc => hc

omit t in
/-- The inline declarations of a node are smaller than it, and stand below its type or its
signatures. -/
theorem suffix_of_mem_inlineAt {p : Pointer} {raw : Members} {l : List (Pointer × Members)}
    (h : inlineAt p raw = .ok l) {c : Pointer × Members} (hc : c ∈ l) :
    (.key "type" :: p <:+ c.1 ∨ .key "signatures" :: p <:+ c.1) ∧ sizeOf c.2 < sizeOf raw := by
  obtain ⟨roots, hr, rfl⟩ := map_eq_ok.1 h
  obtain ⟨⟨q, v⟩, hq, hc⟩ := mem_inlineInRoots_iff.1 hc
  have hs := suffix_of_mem_inlineIn v hc
  have small := sizeOf_lt_of_mem_inlineIn (m := c.2) v hc
  have bound := sizeOf_typeRoots_le hr hq
  have side := suffix_of_mem_typeRoots hr hq
  exact ⟨side.imp (·.trans hs) (·.trans hs), by omega⟩

private theorem eachInline_twin {ν ν' α α' : Type} {S : α → α' → Prop} {p : Pointer}
    (hp : zone.inside p) {m m' : Members} (h : t.declaration p m m')
    {f : Pointer → Members → Journal ν Fault α} {f' : Pointer → Members → Journal ν' Fault α'}
    (step : ∀ q n n', zone.inside q → p <:+ q → sizeOf n < sizeOf m → t.declaration q n n' →
      Journal.Alike S (f q n) (f' (r.address q) n')) :
    Journal.Alike (List.Forall₂ S) (eachInline p m f) (eachInline (r.address p) m' f') := by
  refine Journal.Alike.bind (inlineAt_twin t hp h) fun l l' hl hll => ?_
  refine Journal.alike_mapM hll fun c hc c' ⟨hq, hqq, hcc⟩ => ?_
  obtain ⟨side, small⟩ := suffix_of_mem_inlineAt hl hc
  have hpq : p <:+ c.1 := side.elim (List.suffix_cons ..).trans (List.suffix_cons ..).trans
  rw [hqq]
  exact step _ _ _ hq hpq small hcc

/-- The stems of the second outline are those of the first one, renamed. -/
def StemsRenamed (r : Renaming) (o o' : Outline) : Prop := o'.stems = o.stems.map (·.rename r)

omit t in
theorem flatMap_stems {os os' : List Outline} (h : List.Forall₂ (StemsRenamed r) os os') :
    os'.flatMap Outline.stems = (os.flatMap Outline.stems).map (·.rename r) := by
  induction h with
  | nil => rfl
  | cons ho _ ih =>
    rw [List.flatMap_cons, List.flatMap_cons, List.map_append, ← ih]
    exact congrArg (· ++ _) ho

omit t in
/-- Where no ids change, references that give one target point at the same declaration. -/
theorem target?_renamed (ids : r.id = id) {o o' : Outline} (h : o.sites = sitesOf o.stems)
    (h' : o'.sites = sitesOf o'.stems) (stems : StemsRenamed r o o') {m m' : Members}
    (same : Id.ofValue? ((member? m' "id").getD (member m' "target")) =
      Id.ofValue? ((member? m "id").getD (member m "target"))) :
    (Setting.ofOutline o').target? m' = ((Setting.ofOutline o).target? m).map r.site := by
  unfold Setting.target?
  rw [same]
  cases Id.ofValue? ((member? m "id").getD (member m "target")) with
  | none => rfl
  | some i =>
    show o'.sites.lookup i.number = (o.sites.lookup i.number).map r.site
    rw [h, h', stems, lookup_sitesOf_rename ids]

theorem outline_twin {p : Pointer} (hp : zone.inside p) {parent parent' : Option Site}
    (deep : zone.deep (Creation.placeIn parent))
    (hparent : Creation.placeIn parent' = r.around p (Creation.placeIn parent)) {m m' : Members}
    (h : t.declaration p m m') :
    Journal.Alike (StemsRenamed r) (outline numbering parent p m)
      (outline numbering' parent' (r.address p) m') := by
  rw [outline_eq, outline_eq]
  refine Journal.Alike.bind (R := fun a a' => a' = Header.rename r a)
    (Alike.of_map (t.header h)) fun header header' _ hh => ?_
  subst hh
  -- What is created inside has this declaration around it.
  have inner : ∀ {q : Pointer} {c c' : Members}, zone.inside q → p <:+ q → sizeOf c < sizeOf m →
      t.declaration q c c' → Journal.Alike (StemsRenamed r)
        (outline numbering (some ⟨p, header.segment :: Creation.placeIn parent⟩) q c)
        (outline numbering' (some ⟨r.address p, header.segment :: Creation.placeIn parent'⟩)
          (r.address q) c') := by
    intro q c c' hq hpq small hc
    refine outline_twin hq ?_ ?_ hc
    · exact zone.deep_cons _ deep
    show header.segment :: Creation.placeIn parent' = r.around q (header.segment :: _)
    rw [hparent, zone.around_cons _ hp hpq deep]
  refine (Journal.alike_note _ _).bind fun _ _ _ _ => ?_
  have children : Journal.Alike (List.Forall₂ (StemsRenamed r))
      (eachNode m "children" fun i n =>
        outline numbering (some ⟨p, header.segment :: Creation.placeIn parent⟩)
          (.index i :: .key "children" :: p) n)
      (eachNode m' "children" fun i n =>
        outline numbering' (some ⟨r.address p, header.segment :: Creation.placeIn parent'⟩)
          (.index i :: .key "children" :: r.address p) n) :=
    ListedBy.eachNode (t.children h) fun i n n' small hn => zone.address_item hp i "children" ▸
      inner (zone.inside_item hp i "children") (suffix_item i "children" p) small hn
  refine children.bind fun os os' _ hos => ?_
  refine (eachInline_twin t hp h fun q n n' hq hpq small hn => inner hq hpq small hn).bind
    fun is is' _ his => ?_
  refine Journal.alike_pure ?_
  unfold StemsRenamed
  rw [Outline.stems_eq, Outline.stems_eq, List.map_cons, List.map_append, flatMap_stems hos,
    flatMap_stems his]
  refine congrArg (· :: _) ?_
  simp [Outline.stem, Outline.origin, Outline.site, Stem.rename, hparent, Header.rename]
termination_by sizeOf m

/-! ## The second pass -/

omit t

/-- The second setting knows what the first one knows, under its new name. -/
structure SettingTwins (t : Twins r zone numbering numbering') (setting setting' : Setting) :
    Prop where
  created : ∀ p, zone.inside p →
    (setting'.created? (r.address p)).map Declaration.stem =
      (setting.created? p).map fun d => d.stem.rename r
  target : ∀ n n', t.target n n' → setting'.target? n' = (setting.target? n).map r.site

private theorem stem_eq {d : Declaration} {s : Stem} (h : d.stem = s) :
    d.origin = s.origin ∧ d.segment = s.segment ∧ d.enclosing = s.enclosing ∧ d.id = s.id ∧
      d.isOptional = s.isOptional := by
  subst h
  exact ⟨rfl, rfl, rfl, rfl, rfl⟩

private theorem filled_rename {d d' : Declaration} (h : d'.stem = d.stem.rename r)
    (comment : Option Comment) (typeParameters : List Text) (type : Option TypeNode)
    (signatures : List Signature) (children : List Declaration) :
    { d' with
      comment, typeParameters
      type := TypeNode.renameOption r type
      signatures := Signature.renameAll r signatures
      children := Declaration.renameAll r children } =
    Declaration.rename r { d with comment, typeParameters, type, signatures, children } := by
  obtain ⟨ho, hs, he, hi, hp⟩ := stem_eq h
  cases d'
  dsimp only at ho hs he hi hp
  subst ho hs he hi hp
  rw [Declaration.rename]
  rfl

variable {t : Twins r zone numbering numbering'} {setting setting' : Setting}
  (known : SettingTwins t setting setting')

include known

private theorem enter_twin {p : Pointer} (hp : zone.inside p) :
    Journal.Alike (fun d d' => d'.stem = d.stem.rename r) (enter setting p)
      (enter setting' (r.address p)) := by
  have found := known.created p hp
  unfold enter
  refine (Journal.alike_note _ _).bind fun _ _ _ _ => ?_
  cases h : setting.created? p with
  | none =>
    rw [h] at found
    rw [Option.map_eq_none_iff.1 found]
    exact Journal.alike_fail _
  | some d =>
    rw [h] at found
    obtain ⟨d', hd', hs⟩ := Option.map_eq_some_iff.1 found
    rw [hd']
    exact Journal.alike_pure hs

omit known in
private theorem mapM_twin {α β : Type} {R : α → β → Prop} {f : Members → Filling α}
    {f' : Members → Filling β} {T : Members → Members → Prop} {m m' : Members} {key : Text}
    (h : BothObjects T (member m key) (member m' key))
    (step : ∀ n n', sizeOf n < sizeOf m → T n n' → Journal.Alike R (f n) (f' n')) :
    Journal.Alike (Option.Rel R) ((object? m key).mapM f) ((object? m' key).mapM f') := by
  rw [object?_eq_asObject? m', object?_eq_asObject? m]
  refine Journal.alike_mapM_option h fun n hn n' hnn => step n n' ?_ hnn
  rw [← object?_eq_asObject?] at hn
  exact sizeOf_object?_lt hn

omit known in
private theorem renameOption_of_rel {a a' : Option TypeNode}
    (h : Option.Rel (fun t t' : TypeNode => t' = t.rename r) a a') :
    a' = TypeNode.renameOption r a := by
  cases h with
  | none => rfl
  | some h => rw [h, TypeNode.renameOption]

omit known in
theorem eq_map_of_forall₂ {α β : Type} {g : α → β} {l : List α} {l' : List β}
    (h : List.Forall₂ (fun a b => b = g a) l l') : l' = l.map g := by
  induction h with
  | nil => rfl
  | cons ha _ ih => rw [ha, ih, List.map_cons]

omit known in
/-- The types of two nodes correspond where the types below them do. -/
private theorem readTypeOf_twin {p : Pointer} (hp : zone.inside p) {m m' : Members}
    (h : OwnsAlike zone t.declaration t.type p m m')
    (step : ∀ n n', sizeOf n < sizeOf m → t.type (.key "type" :: p) n n' →
      Journal.Alike (fun s s' => s' = s.rename r) (readType setting (.key "type" :: p) n)
        (readType setting' (r.address (.key "type" :: p)) n')) :
    Journal.Alike (fun s s' => s' = TypeNode.renameOption r s) (readTypeOf setting p m)
      (readTypeOf setting' (r.address p) m') := by
  have types := mapM_twin h.type step
  rw [zone.address_key _ hp] at types
  exact types.mono fun _ _ h => renameOption_of_rel h

end

section

variable {r : Renaming} {zone : Zone r} {numbering numbering' : Numbering}
  {t : Twins r zone numbering numbering'} {setting setting' : Setting}

mutual

theorem readDeclaration_twin (known : SettingTwins t setting setting') {p : Pointer}
    (hp : zone.inside p) {m m' : Members}
    (h : t.declaration p m m') :
    Journal.Alike (fun d d' => d' = d.rename r) (readDeclaration setting p m)
      (readDeclaration setting' (r.address p) m') := by
  rw [readDeclaration_eq, readDeclaration_eq]
  refine (enter_twin known hp).bind fun d d' _ hd => ?_
  refine Journal.Alike.bind (Alike.of_eq (t.owner hp h).comment) fun comment comment' _ hcomment => ?_
  refine (readTypeOf_twin hp (t.owner hp h) fun n n' small hn =>
    readType_twin known (zone.inside_cons _ hp) hn).bind fun type type' _ htype => ?_
  refine Journal.Alike.bind (Alike.of_eq (t.typeParameters h)) fun names names' _ hnames => ?_
  have signatures : Journal.Alike (List.Forall₂ fun s s' : Signature => s' = s.rename r)
      (eachNode m "signatures" fun i n =>
        readSignature setting (.index i :: .key "signatures" :: p) n)
      (eachNode m' "signatures" fun i n =>
        readSignature setting' (.index i :: .key "signatures" :: r.address p) n) :=
    ListedBy.eachNode (t.signatures h) fun i n n' small hn => zone.address_item hp i "signatures" ▸
      readSignature_twin known (zone.inside_item hp i "signatures") hn
  refine signatures.bind fun ss ss' _ hss => ?_
  have children : Journal.Alike (List.Forall₂ fun d d' : Declaration => d' = d.rename r)
      (eachNode m "children" fun i n =>
        readDeclaration setting (.index i :: .key "children" :: p) n)
      (eachNode m' "children" fun i n =>
        readDeclaration setting' (.index i :: .key "children" :: r.address p) n) :=
    ListedBy.eachNode (t.children h) fun i n n' small hn => zone.address_item hp i "children" ▸
      readDeclaration_twin known (zone.inside_item hp i "children") hn
  refine children.bind fun cs cs' _ hcs => Journal.alike_pure ?_
  rw [hcomment, hnames, htype, eq_map_of_forall₂ hss, eq_map_of_forall₂ hcs,
    ← Signature.renameAll_eq_map, ← Declaration.renameAll_eq_map]
  exact filled_rename hd _ _ _ _ _
termination_by sizeOf m

theorem readSignature_twin (known : SettingTwins t setting setting') {p : Pointer}
    (hp : zone.inside p) {m m' : Members}
    (h : t.signature p m m') :
    Journal.Alike (fun s s' => s' = s.rename r) (readSignature setting p m)
      (readSignature setting' (r.address p) m') := by
  rw [readSignature_eq, readSignature_eq]
  have parameters : Journal.Alike (List.Forall₂ fun s s' : Parameter => s' = s.rename r)
      (eachElement m "parameters" (readParameterAt setting p))
      (eachElement m' "parameters" (readParameterAt setting' (r.address p))) := by
    refine (t.parameters h).eachElement (fun i n n' small hn => ?_) fun i => Journal.alike_fail _
    have read := readParameter_twin known (zone.inside_item hp i "parameters") hn
    rw [zone.address_item hp, t.positions h] at read
    exact read
  refine parameters.bind fun ps ps' _ hps => ?_
  refine (readTypeOf_twin hp (t.signatureOwner hp h) fun n n' small hn =>
    readType_twin known (zone.inside_cons _ hp) hn).bind fun type type' _ htype => ?_
  refine Journal.Alike.bind (Alike.of_eq (t.signatureOwner hp h).comment)
    fun comment comment' _ hcomment => Journal.alike_pure ?_
  rw [Signature.rename, Parameter.renameAll_eq_map, eq_map_of_forall₂ hps, htype, hcomment,
    t.signatureName h]
termination_by sizeOf m

theorem readParameter_twin (known : SettingTwins t setting setting') {p : Pointer}
    (hp : zone.inside p) {m m' : Members}
    (h : t.parameter p m m') :
    Journal.Alike (fun s s' => s' = s.rename r) (readParameter setting p m)
      (readParameter setting' (r.address p) m') := by
  rw [readParameter_eq, readParameter_eq]
  refine (readTypeOf_twin hp (t.parameterOwner hp h) fun n n' small hn =>
    readType_twin known (zone.inside_cons _ hp) hn).bind fun type type' _ htype => ?_
  refine Journal.Alike.bind (Alike.of_eq (t.parameterOwner hp h).comment)
    fun comment comment' _ hcomment => ?_
  refine Journal.Alike.bind (Alike.of_eq (t.parameterOptional h))
    fun flag flag' _ hflag => Journal.alike_pure ?_
  rw [Parameter.rename, hcomment, hflag, htype, t.parameterName h]
termination_by sizeOf m

theorem readType_twin (known : SettingTwins t setting setting') {p : Pointer}
    (hp : zone.inside p) {m m' : Members}
    (h : t.type p m m') :
    Journal.Alike (fun s s' => s' = s.rename r) (readType setting p m)
      (readType setting' (r.address p) m') := by
  have listed : ∀ key, ListedAt zone t.type (.key key :: p) (member m key) (member m' key) →
      Journal.Alike (fun l l' => l' = TypeNode.renameAll r l) (readListed setting p m key)
        (readListed setting' (r.address p) m' key) := by
    intro key hkey
    have items : Journal.Alike (List.Forall₂ fun s s' : TypeNode => s' = s.rename r)
        (eachNode m key fun i n => readType setting (.index i :: .key key :: p) n)
        (eachNode m' key fun i n => readType setting' (.index i :: .key key :: r.address p) n) :=
      ListedBy.eachNode hkey fun i n n' small hn => zone.address_item hp i key ▸
        readType_twin known (zone.inside_item hp i key) hn
    refine items.mono fun l l' hl => ?_
    rw [TypeNode.renameAll_eq_map, eq_map_of_forall₂ hl]
  rw [readType_eq, readType_eq]
  have forms := t.form h
  generalize hf : form m = f, form m' = f' at forms ⊢
  cases forms with
  | leaf t => exact Journal.alike_pure rfl
  | array hn =>
    have small := sizeOf_object?_lt (object?_of_form_array hf)
    have read := readType_twin known (zone.inside_cons (.key "elementType") hp) hn
    rw [zone.address_key _ hp] at read
    exact read.map fun s s' hs => by rw [hs, TypeNode.rename]
  | group g hg =>
    refine (listed g.key hg).map fun l l' hl => ?_
    subst hl
    cases g <;> rfl
  | reference hname hqualified hlist htarget =>
    refine (listed _ hlist).bind fun l l' _ hl => Journal.alike_pure ?_
    rw [TypeNode.rename, hl, hname, hqualified, known.target _ _ htarget]
  | inline hn =>
    have small := sizeOf_object?_lt (object?_of_form_inline hf)
    have read := readDeclaration_twin known (zone.inside_cons (.key "declaration") hp) hn
    rw [zone.address_key _ hp] at read
    exact read.map fun s s' hs => by rw [hs, TypeNode.rename]
termination_by sizeOf m

end

end

/-! ## Both passes -/

/-- The whole document, where addresses and places stay. -/
def Region.whole (r : Renaming) (address : ∀ p, r.address p = p)
    (around : ∀ p place, r.around p place = place) : Region r where
  inside _ := True
  deep _ := True
  inside_cons _ _ := trivial
  deep_cons _ _ := trivial
  address_cons s _ := by rw [address, address]
  around_cons s _ _ _ := by rw [around, around]

/-- Twins are loaded alike, if what references point at corresponds once the stems do. -/
theorem ofMembers_zone {r : Renaming} {zone : Zone r} {raw raw' : Members}
    (t : Twins r zone (Project.numberingOf raw) (Project.numberingOf raw'))
    (inside : zone.inside []) (deep : zone.deep []) (address : r.address [] = [])
    (around : r.around [] [] = []) (h : t.declaration [] raw raw')
    (target : ∀ o o' : Outline, (outline (Project.numberingOf raw) none [] raw).outcome = .ok o →
      (outline (Project.numberingOf raw') none [] raw').outcome = .ok o' → StemsRenamed r o o' →
      ∀ n n', t.target n n' → (Setting.ofOutline o').target? n' =
        ((Setting.ofOutline o).target? n).map r.site) :
    Alike (fun p p' : Project => p'.root = p.root.rename r ∧ StemsRenamed r p.outline p'.outline)
      (Project.ofMembers raw) (Project.ofMembers raw') := by
  have top : zone.deep (Creation.placeIn none) := deep
  have root : Creation.placeIn none = r.around [] (Creation.placeIn none) := around.symm
  have outlines : Journal.Alike (StemsRenamed r) (outline (Project.numberingOf raw) none [] raw)
      (outline (Project.numberingOf raw') none (r.address []) raw') :=
    outline_twin t inside top root h
  rw [address] at outlines
  unfold Project.ofMembers
  refine (Alike.and_right outlines).bind fun o o' ho ⟨hstems, ho'⟩ => ?_
  have known : SettingTwins t (Setting.ofOutline o) (Setting.ofOutline o') :=
    { created := fun p _ => by
        rw [created?_stem, hstems, find?_rename, ← created?_stem, Option.map_map]
        rfl
      target := target o o' ho ho' hstems }
  have read : Journal.Alike (fun d d' => d' = d.rename r)
      (readDeclaration (Setting.ofOutline o) [] raw)
      (readDeclaration (Setting.ofOutline o') (r.address []) raw') :=
    readDeclaration_twin known inside h
  rw [address] at read
  exact Alike.bind read fun _ _ _ hroot => .ok ⟨hroot, hstems⟩

/-- Twins as a whole are loaded alike. -/
theorem ofMembers_twin {r : Renaming} {address : ∀ p, r.address p = p}
    {around : ∀ p place, r.around p place = place} {raw raw' : Members}
    (t : Twins r (Region.whole r address around).zone (Project.numberingOf raw)
      (Project.numberingOf raw')) (h : t.declaration [] raw raw')
    (target : ∀ o o' : Outline, (outline (Project.numberingOf raw) none [] raw).outcome = .ok o →
      (outline (Project.numberingOf raw') none [] raw').outcome = .ok o' → StemsRenamed r o o' →
      ∀ n n', t.target n n' → (Setting.ofOutline o').target? n' =
        ((Setting.ofOutline o).target? n).map r.site) :
    Alike (fun p p' : Project => p'.root = p.root.rename r ∧ StemsRenamed r p.outline p'.outline)
      (Project.ofMembers raw) (Project.ofMembers raw') :=
  ofMembers_zone t trivial trivial (address _) (around _ _) h target

end DocShape.Document
