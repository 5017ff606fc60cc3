import DocShape.Document.Reading
import DocShape.Proofs.Document.Creation
import DocShape.Proofs.Table

/-!
Reading fills only declarations that the outline has created. The scan for inline declarations finds
more than reading visits (`inlineIn_of_member`, `inlineIn_of_item`), hence `readDeclaration_sound`: all
that is filled is registered, nothing is filled twice, and no look-up fails.
-/

namespace DocShape.Document

open Json

/-! ## The category of an inline declaration -/

private theorem no_letter_r {c : CodePoint} (h : Binary64.isNumberPoint c) : c ≠ 0x72 := by
  rintro rfl
  exact absurd h (by decide)

/-- Only the text itself is spelled as the category of inline declarations. -/
theorem eq_text_of_reflection {v : Value} (h : v.displayOrEmpty = "reflection") :
    v = .text "reflection" := by
  have hr : (0x72 : CodePoint) ∈ ("reflection" : Text) := by simp [Text.ofString, CodePoint.ofChar]
  unfold Value.displayOrEmpty at h
  split at h
  · simp [Text.ofString] at h
  · cases v with
    | text t => exact congrArg Value.text h
    | null => exact absurd h (by decide)
    | bool b => cases b <;> exact absurd h (by decide)
    | int n =>
      simp only [Value.display, Value.spelled, Text.ofInt] at h
      rw [← h] at hr
      split at hr
      · rcases List.mem_append.1 hr with hr | hr
        · exact absurd hr (by decide)
        · exact absurd (Text.isDigit_of_mem_decimal hr) (by decide)
      · exact absurd (Text.isDigit_of_mem_decimal hr) (by decide)
    | float x =>
      simp only [Value.display, Value.spelled] at h
      rw [← h] at hr
      rcases Binary64.mem_write hr with hr | hr | hr
      · exact absurd rfl (no_letter_r hr)
      · exact absurd hr (by decide)
      · exact absurd hr (by decide)
    | array items =>
      simp only [Value.display, Value.spelled] at h
      exact absurd (congrArg List.head? h) (by simp [Text.ofString, CodePoint.ofChar])
    | object members =>
      simp only [Value.display, Value.spelled] at h
      exact absurd (congrArg List.head? h) (by simp [Text.ofString, CodePoint.ofChar])

/-! ## What the scan for inline declarations finds -/

/-- What is inside an object that a value lists is inside the value. -/
theorem inlineIn_of_item {address : Pointer} {e : Pointer × Members} {v : Value} {i : Nat}
    {m : Members} {list : List (Nat × Members)} (hl : nodes v = .ok list) (hm : (i, m) ∈ list)
    (he : e ∈ inlineIn (.index i :: address) (.object m)) : e ∈ inlineIn address v := by
  obtain ⟨items, rfl, hi⟩ := mem_nodes hl hm
  have entry : (Step.index i, Value.object m) ∈ (Value.array items).entries :=
    List.mem_map.2 ⟨(.object m, i), List.mk_mem_zipIdx_iff_getElem?.2 hi, rfl⟩
  exact mem_inlineIn_of_entry rfl entry he

/-- What is inside a member of a node is inside the node, unless it is an inline declaration. -/
theorem inlineIn_of_member {address : Pointer} {e : Pointer × Members} {node : Members} (key : Text)
    (hn : inlineDeclaration? node = none)
    (he : e ∈ inlineIn (.key key :: address) (member node key)) :
    e ∈ inlineIn address (.object node) := by
  unfold member at he
  cases hv : member? node key with
  | none =>
    rw [hv] at he
    simp [inlineIn] at he
  | some v =>
    rw [hv] at he
    have none : inlineAt? address (.object node) = none := by
      rw [inlineAt?, hn]
      rfl
    have entry : (Step.key key, v) ∈ (Value.object node).entries :=
      List.mem_map.2 ⟨(key, v), Table.mem_of_get? hv, rfl⟩
    exact mem_inlineIn_of_entry none entry he

private theorem inlineDeclaration?_eq_none {node : Members}
    (h : (member node "type").displayOrEmpty ≠ "reflection") : inlineDeclaration? node = none := by
  unfold inlineDeclaration?
  split
  · rename_i ht
    rw [Value.isText_iff.1 ht] at h
    exact absurd rfl h
  · rfl

private theorem object?_of_childNode? {raw : Members} {key : Text} {m : Smaller raw}
    (h : childNode? raw key = some m) : object? raw key = some m.1 := by
  unfold childNode? at h
  split at h
  · cases h
  · rename_i found hf
    cases h
    exact hf

private theorem member_of_childNode? {raw : Members} {key : Text} {m : Smaller raw}
    (h : childNode? raw key = some m) : member raw key = .object m.1 := by
  have := object?_of_childNode? h
  unfold object? at this
  split at this
  · rename_i found hf
    cases this
    exact hf
  · cases this

private theorem inlineIn_of_reflection {address : Pointer} {node : Members}
    (ht : (member node "type").displayOrEmpty = "reflection") {m : Smaller node}
    (hm : childNode? node "declaration" = some m) :
    (.key "declaration" :: address, m.1) ∈ inlineIn address (.object node) := by
  have hn : inlineDeclaration? node = some m.1 := by
    unfold inlineDeclaration?
    rw [if_pos (Value.isText_iff.2 (eq_text_of_reflection ht))]
    exact object?_of_childNode? hm
  rw [inlineIn, hn]
  exact List.mem_singleton.2 rfl

/-! ## Sound readings -/

/-- A reading fills registered declarations only, at distinct addresses below the given roots. -/
structure Sound {α : Type} (setting : Setting) (roots : List Pointer) (x : Filling α) : Prop where
  registered : ∀ p ∈ x.notes, (setting.created? p).isSome
  known : x.outcome ≠ .error .unregistered
  covers : Covers roots x.notes

section

variable {α β : Type} {setting : Setting} {roots roots' : List Pointer}

private theorem sound_pure (a : α) : Sound setting roots (pure a) :=
  ⟨by simp, by simp, covers_nil _⟩

private theorem sound_liftM {x : Except Fault α} (h : x ≠ .error .unregistered) :
    Sound setting roots (liftM x) :=
  ⟨by simp, h, covers_nil _⟩

private theorem Sound.bind {x : Filling α} {f : α → Filling β} (hx : Sound setting roots x)
    (hf : ∀ a, x.outcome = .ok a → Sound setting roots' (f a))
    (apart : ∀ a ∈ roots, ∀ b ∈ roots', Apart a b) :
    Sound setting (roots ++ roots') (x >>= f) := by
  cases h : x.outcome with
  | error e =>
    rw [Journal.bind_of_error h]
    refine ⟨hx.registered, ?_, hx.covers.weaken fun a ha => ?_⟩
    · rintro ⟨⟩
      exact hx.known h
    · exact ⟨a, List.mem_append_left _ ha, List.suffix_rfl⟩
  | ok a =>
    rw [Journal.bind_of_ok h]
    exact ⟨fun p hp => (List.mem_append.1 hp).elim (hx.registered p) ((hf a h).registered p),
      (hf a h).known, hx.covers.append (hf a h).covers apart⟩

/-- A step that fills nothing. -/
private theorem Sound.after_liftM {x : Except Fault α} {f : α → Filling β}
    (hx : x ≠ .error .unregistered) (hf : ∀ a, x = .ok a → Sound setting roots (f a)) :
    Sound setting roots (liftM x >>= f) := by
  have hl : Sound setting [] (liftM x : Filling α) := sound_liftM hx
  exact hl.bind hf (by simp)

/-- What comes after fills nothing. -/
private theorem Sound.before {x : Filling α} {f : α → Filling β} (hx : Sound setting roots x)
    (hf : ∀ a, Sound setting [] (f a)) : Sound setting roots (x >>= f) := by
  have := hx.bind (fun a _ => hf a) (by simp)
  rwa [List.append_nil] at this

private theorem Sound.map {x : Filling α} (f : α → β) (hx : Sound setting roots x) :
    Sound setting roots (f <$> x) := by
  refine ⟨by simpa using hx.registered, ?_, by simpa using hx.covers⟩
  rw [Journal.outcome_map]
  cases h : x.outcome with
  | error e =>
    rintro ⟨⟩
    exact hx.known h
  | ok a => simp [Except.map]

private theorem Sound.weaken {x : Filling α} (hx : Sound setting roots x)
    (h : ∀ a ∈ roots, ∃ b ∈ roots', b <:+ a) : Sound setting roots' x :=
  ⟨hx.registered, hx.known, hx.covers.weaken h⟩

private theorem sound_mapM {address : α → Pointer} {f : α → Filling β} {l : List α}
    (apart : l.Pairwise fun a b => Apart (address a) (address b))
    (h : ∀ a ∈ l, Sound setting [address a] (f a)) :
    Sound setting (l.map address) (l.mapM f) := by
  obtain ⟨done, hd, hn⟩ := Journal.notes_mapM_initial f l
  refine ⟨?_, fun he => ?_, ?_⟩
  · rw [hn]
    intro p hp
    obtain ⟨a, ha, hp⟩ := List.mem_flatMap.1 hp
    exact (h a (hd.subset ha)).registered p hp
  · obtain ⟨a, ha, he⟩ := Journal.outcome_mapM_eq_error he
    exact (h a ha).known he
  · rw [hn]
    refine (covers_flatMap (apart.sublist hd.sublist) fun a ha => (h a (hd.subset ha)).covers).weaken
      fun p hp => ?_
    obtain ⟨a, ha, rfl⟩ := List.mem_map.1 hp
    exact ⟨address a, List.mem_map.2 ⟨a, hd.subset ha, rfl⟩, List.suffix_rfl⟩

/-- A declaration is entered, and then only what lies properly inside it is filled. -/
private theorem sound_enter (roots : List Pointer) {origin : Pointer} {f : Declaration → Filling β}
    (hr : (setting.created? origin).isSome) (hf : ∀ d, Sound setting roots (f d))
    (inside : ∀ a ∈ roots, ∃ s, s :: origin <:+ a) :
    Sound setting [origin] (enter setting origin >>= f) := by
  obtain ⟨d, hd⟩ := Option.isSome_iff_exists.1 hr
  have he : enter setting origin = ⟨[origin], .ok d⟩ := by
    simp only [enter, hd]
    rfl
  rw [he, Journal.bind_ok]
  refine ⟨?_, (hf d).known, (hf d).covers.cons inside⟩
  intro p hp
  rcases List.mem_cons.1 hp with rfl | hp
  · exact hr
  · exact (hf d).registered p hp

end

/-! ## Steps that fill nothing -/

private theorem bind_known {α β : Type} {x : Except Fault α} {f : α → Except Fault β}
    (hx : x ≠ .error .unregistered) (hf : ∀ a, f a ≠ .error .unregistered) :
    (x >>= f) ≠ .error .unregistered := by
  cases x with
  | error e =>
    rintro ⟨⟩
    exact hx rfl
  | ok a => exact hf a

private theorem pure_known {α : Type} (a : α) :
    (pure a : Except Fault α) ≠ .error .unregistered := by
  rintro ⟨⟩

private theorem nodes_known (v : Value) : nodes v ≠ .error .unregistered := by
  unfold nodes
  split
  · simp
  · simp
  · simp
  · split <;> simp

private theorem joinParts_known (v : Value) : joinParts v ≠ .error .unregistered :=
  bind_known (nodes_known v) fun _ => pure_known _

private theorem returnsTag_known (v : Value) : returnsTag v ≠ .error .unregistered := by
  refine bind_known (nodes_known v) fun tags => ?_
  split
  · exact joinParts_known _
  · exact pure_known _

private theorem readComment_known (v : Value) : readComment v ≠ .error .unregistered := by
  unfold readComment
  split
  · refine bind_known ?_ fun summary => bind_known ?_ fun returns => pure_known _
    · split
      · exact joinParts_known _
      · simp
    · split
      · exact returnsTag_known _
      · simp
  · exact pure_known _

private theorem readTypeParameters_known (raw : Members) :
    readTypeParameters raw ≠ .error .unregistered :=
  bind_known (nodes_known _) fun _ => pure_known _

private theorem readOptional_known (raw : Members) : readOptional raw ≠ .error .unregistered := by
  unfold readOptional
  split
  · simp
  · split <;> simp

private theorem childNodes_known (raw : Members) (key : Text) :
    childNodes raw key ≠ .error .unregistered := by
  have := nodes_known (member raw key)
  unfold childNodes
  split
  · rename_i e he
    rintro ⟨⟩
    exact this he
  · simp

private theorem childElements_known (raw : Members) (key : Text) :
    childElements raw key ≠ .error .unregistered := by
  unfold childElements
  split
  · simp
  · unfold elements
    split <;> simp [Except.map]

private theorem header_known (numbering : Numbering) (raw : Members) :
    Header.read numbering raw ≠ .error .unregistered := by
  refine bind_known ?_ fun kind => bind_known (readOptional_known raw) fun _ => ?_
  · cases Kind.read numbering (member raw "kind") (member raw "kindString") <;> rintro ⟨⟩
  · exact pure_known _

private theorem signaturesRoots_known (address : Pointer) (signatures : List (Nat × Members)) :
    signaturesRoots address signatures ≠ .error .unregistered := by
  induction signatures with
  | nil => simp [signaturesRoots]
  | cons entry rest ih =>
    rw [signaturesRoots]
    refine bind_known (bind_known (nodes_known _) fun _ => ?_) fun _ => bind_known ih fun _ => ?_
    · exact pure_known _
    · exact pure_known _

private theorem inlineNodes_known (address : Pointer) (raw : Members) :
    inlineNodes address raw ≠ .error .unregistered := by
  have : typeRoots address raw ≠ .error .unregistered := by
    refine bind_known (nodes_known _) fun _ => bind_known (signaturesRoots_known _ _) fun _ => ?_
    exact pure_known _
  unfold inlineNodes
  split
  · rename_i e he
    rintro ⟨⟩
    exact this he
  · simp

/-- Making an outline looks nothing up. -/
theorem outline_known (numbering : Numbering) (parent : Option Site) (origin : Pointer)
    (raw : Members) : (outline numbering parent origin raw).outcome ≠ .error .unregistered := by
  rw [outline]
  simp only [ne_eq, Journal.outcome_bind_eq_error, Journal.outcome_liftM, Journal.outcome_note,
    Journal.outcome_pure, reduceCtorEq, false_or, and_false, exists_false, or_false, not_or,
    not_exists, not_and]
  refine ⟨header_known numbering raw, fun header _ _ _ => ⟨childNodes_known _ _,
    fun children _ => ⟨fun h => ?_, fun _ _ => ⟨inlineNodes_known _ _, fun inlined _ h => ?_⟩⟩⟩⟩
  · obtain ⟨c, -, hc⟩ := Journal.outcome_mapM_eq_error h
    have := c.2.2
    exact outline_known _ _ _ _ hc
  · obtain ⟨c, -, hc⟩ := Journal.outcome_mapM_eq_error h
    have := c.2.2
    exact outline_known _ _ _ _ hc
termination_by sizeOf raw

/-! ## What the outline has prepared -/

/-- The declaration at an address has an outline whose declarations are all registered. -/
def Ready (setting : Setting) (origin : Pointer) (raw : Members) : Prop :=
  ∃ numbering parent o, (outline numbering parent origin raw).outcome = .ok o ∧
    ∀ o' ∈ o.all, (setting.created? o'.origin).isSome

private theorem ready_inner {setting : Setting} {origin : Pointer} {raw : Members}
    (h : Ready setting origin raw) :
    (setting.created? origin).isSome ∧
      (∀ children, childNodes raw "children" = .ok children → ∀ c ∈ children,
        Ready setting (.index c.1 :: .key "children" :: origin) c.2.1) ∧
      ∃ roots, typeRoots origin raw = .ok roots ∧
        ∀ e ∈ inlineInRoots roots, Ready setting e.1 e.2 := by
  obtain ⟨numbering, parent, o, ho, hr⟩ := h
  obtain ⟨children, inlined, hc, hi, horigin, -, hcs, his⟩ := outline_ok ho
  obtain ⟨roots, hroots, hl⟩ := inlineNodes_ok hi
  rw [all_eq] at hr
  refine ⟨horigin ▸ hr o (List.mem_cons_self ..), ?_, roots, hroots, ?_⟩
  · intro children' hc' c hm
    cases hc.symm.trans hc'
    obtain ⟨o', ho', he⟩ := Journal.exists_result hcs hm
    refine ⟨numbering, _, o', he, fun o'' hm'' => hr o'' ?_⟩
    exact List.mem_cons_of_mem _ (List.mem_append_left _ (List.mem_flatMap.2 ⟨o', ho', hm''⟩))
  · intro e he
    rw [hl] at he
    obtain ⟨c, hm, rfl⟩ := List.mem_map.1 he
    obtain ⟨o', ho', he⟩ := Journal.exists_result his hm
    refine ⟨numbering, _, o', he, fun o'' hm'' => hr o'' ?_⟩
    exact List.mem_cons_of_mem _ (List.mem_append_right _ (List.mem_flatMap.2 ⟨o', ho', hm''⟩))

private theorem mem_inlineInRoots {roots : List (Pointer × Value)} {root : Pointer × Value}
    (hm : root ∈ roots) {e : Pointer × Members} (he : e ∈ inlineIn root.1 root.2) :
    e ∈ inlineInRoots roots :=
  mem_inlineInRoots_iff.2 ⟨root, hm, he⟩

private theorem signatureRoots_of_mem {address : Pointer} {signatures : List (Nat × Members)}
    {roots : List (Pointer × Value)} (h : signaturesRoots address signatures = .ok roots)
    {s : Nat × Members} (hs : s ∈ signatures) :
    ∃ own, signatureRoots (.index s.1 :: .key "signatures" :: address) s.2 = .ok own ∧
      ∀ root ∈ own, root ∈ roots := by
  induction signatures generalizing roots with
  | nil => simp at hs
  | cons entry rest ih =>
    obtain ⟨first, others, hf, ho, rfl⟩ := signaturesRoots_ok h
    rcases List.mem_cons.1 hs with rfl | hs
    · exact ⟨first, hf, fun root hr => List.mem_append_left _ hr⟩
    · obtain ⟨own, how, hsub⟩ := ih ho hs
      exact ⟨own, how, fun root hr => List.mem_append_right _ (hsub root hr)⟩

/-- The objects among the elements of a member are the nodes that it lists. -/
private theorem mem_nodes_of_childElements {raw : Members} {key : Text}
    {list : List (Option (Smaller raw))} (h : childElements raw key = .ok list) {m : Smaller raw}
    {i : Nat} (hm : (some m, i) ∈ list.zipIdx) :
    ∃ found, nodes (member raw key) = .ok found ∧ (i, m.1) ∈ found := by
  rw [List.mem_zipIdx_iff_getElem?] at hm
  unfold childElements at h
  split at h
  · rename_i items hv
    cases h
    refine ⟨objectsFrom 0 items, by rw [hv]; rfl, ?_⟩
    rw [List.getElem?_map] at hm
    obtain ⟨item, hitem, heq⟩ := Option.map_eq_some_iff.1 hm
    have hi : items[i]? = some item.1 := by
      have := congrArg (Option.map Subtype.val) hitem
      rwa [← List.getElem?_map, List.attach_map_subtype_val] at this
    split at heq
    · cases heq
      exact mem_objectsFrom_iff.2 (List.mk_mem_zipIdx_iff_getElem?.2 hi)
    · cases heq
  · obtain ⟨found, -, rfl⟩ := map_eq_ok.1 h
    rw [List.getElem?_map] at hm
    obtain ⟨_, -, ⟨⟩⟩ := Option.map_eq_some_iff.1 hm

private theorem zipIdx_pairwise {α : Type} (l : List α) :
    l.zipIdx.Pairwise fun a b => a.2 ≠ b.2 := by
  have : (l.zipIdx.map Prod.snd).Nodup := by
    rw [List.zipIdx_map_snd]
    exact List.nodup_range'
  exact List.pairwise_map.1 this

/-! ## Readings are sound -/

section

variable {β γ : Type} {setting : Setting} {roots : List Pointer} {address : Pointer}
  {raw : Members} {key : Text}

private theorem childNodes_pairwise {list : List (Nat × Smaller raw)}
    (h : childNodes raw key = .ok list) : list.Pairwise fun a b => a.1 ≠ b.1 := by
  have := nodes_pairwise (childNodes_ok h)
  rwa [List.pairwise_map] at this

/-- What is read at positions below a key. -/
private theorem sound_positions {α : Type} {index : α → Nat} {f : α → Filling β} {l : List α}
    (apart : l.Pairwise fun a b => index a ≠ index b)
    (h : ∀ a ∈ l, Sound setting [.index (index a) :: .key key :: address] (f a)) :
    Sound setting [.key key :: address] (l.mapM f) := by
  have hl := apart.imp fun {a b} hab => apart_of_step_ne (.key key :: address)
    fun he : Step.index (index a) = .index (index b) => hab (Step.index.inj he)
  refine (sound_mapM hl h).weaken fun a ha => ?_
  obtain ⟨c, -, rfl⟩ := List.mem_map.1 ha
  exact ⟨_, List.mem_singleton.2 rfl, List.suffix_cons ..⟩

/-- The nodes that a member lists are read, and then something apart from them. -/
private theorem Sound.after_nodes {f : Nat × Smaller raw → Filling β} {g : List β → Filling γ}
    (hf : ∀ list, childNodes raw key = .ok list → ∀ c ∈ list,
      Sound setting [.index c.1 :: .key key :: address] (f c))
    (hg : ∀ bs, Sound setting roots (g bs)) (apart : ∀ b ∈ roots, Apart (.key key :: address) b) :
    Sound setting ([.key key :: address] ++ roots)
      (liftM (childNodes raw key) >>= fun list => list.mapM f >>= g) := by
  refine Sound.after_liftM (childNodes_known _ _) fun list hl => ?_
  refine Sound.bind (sound_positions (childNodes_pairwise hl) (hf list hl)) (fun bs _ => hg bs) ?_
  rintro a ha b hb
  rw [List.mem_singleton.1 ha]
  exact apart b hb

private theorem sound_nodes {f : Nat × Smaller raw → Filling β}
    (hf : ∀ list, childNodes raw key = .ok list → ∀ c ∈ list,
      Sound setting [.index c.1 :: .key key :: address] (f c)) :
    Sound setting [.key key :: address]
      (liftM (childNodes raw key) >>= fun list => list.mapM f) :=
  Sound.after_liftM (childNodes_known _ _) fun list hl =>
    sound_positions (childNodes_pairwise hl) (hf list hl)

/-- The type of a declaration, signature or parameter, if it has one. -/
private theorem sound_type {f : Smaller raw → Filling β}
    (hf : ∀ node, member raw key = .object node.1 → Sound setting [.key key :: address] (f node)) :
    Sound setting [.key key :: address] ((childNode? raw key).mapM f) := by
  cases hn : childNode? raw key with
  | none => exact sound_pure none
  | some node => exact Sound.map some (hf node (member_of_childNode? hn))

end

private theorem suffix_singleton {s : Step} {address a : Pointer} (h : a ∈ [s :: address]) :
    ∃ b ∈ [address], b <:+ a := by
  rw [List.mem_singleton.1 h]
  exact ⟨_, List.mem_singleton.2 rfl, List.suffix_cons ..⟩

mutual

theorem readDeclaration_sound {setting : Setting} {origin : Pointer} {raw : Members}
    (h : Ready setting origin raw) :
    Sound setting [origin] (readDeclaration setting origin raw) := by
  obtain ⟨hr, hchildren, roots, hroots, hinline⟩ := ready_inner h
  obtain ⟨signatures, others, hs, ho, rfl⟩ := typeRoots_ok hroots
  rw [readDeclaration]
  refine sound_enter ([.key "type" :: origin] ++
    ([.key "signatures" :: origin] ++ ([.key "children" :: origin] ++ []))) hr (fun d => ?_) ?_
  · refine Sound.after_liftM (readComment_known _) fun comment _ => ?_
    refine Sound.bind (sound_type fun node hn => ?_) (fun type _ => ?_) ?_
    · refine readType_sound fun e he => hinline e (mem_inlineInRoots (List.mem_cons_self ..) ?_)
      rwa [hn]
    · refine Sound.after_liftM (readTypeParameters_known _) fun typeParameters _ => ?_
      refine Sound.after_nodes (fun list hl c hc => ?_) (fun _ => ?_) ?_
      · have hn := childNodes_ok hl
        cases hs.symm.trans hn
        obtain ⟨own, hown, hsub⟩ := signatureRoots_of_mem ho (List.mem_map.2 ⟨c, hc, rfl⟩)
        refine readSignature_sound hown fun e he => hinline e ?_
        obtain ⟨root, hroot, he⟩ := mem_inlineInRoots_iff.1 he
        exact mem_inlineInRoots (List.mem_cons_of_mem _ (hsub root hroot)) he
      · exact Sound.after_nodes (fun list hl c hc => readDeclaration_sound (hchildren list hl c hc))
          (fun _ => sound_pure _) (by simp)
      · simp only [List.append_nil, List.mem_singleton, forall_eq]
        exact apart_of_step_ne _ (by decide)
    · simp only [List.append_nil, List.singleton_append, List.mem_cons, List.not_mem_nil, or_false,
        forall_eq, forall_eq_or_imp]
      exact ⟨apart_of_step_ne _ (by decide), apart_of_step_ne _ (by decide)⟩
  · simp only [List.append_nil, List.singleton_append, List.mem_cons, List.not_mem_nil, or_false,
      forall_eq, forall_eq_or_imp]
    exact ⟨⟨_, List.suffix_rfl⟩, ⟨_, List.suffix_rfl⟩, ⟨_, List.suffix_rfl⟩⟩
termination_by sizeOf raw
decreasing_by
  · exact node.2
  · exact c.2.2
  · exact c.2.2

theorem readSignature_sound {setting : Setting} {address : Pointer} {raw : Members}
    {roots : List (Pointer × Value)} (hr : signatureRoots address raw = .ok roots)
    (h : ∀ e ∈ inlineInRoots roots, Ready setting e.1 e.2) :
    Sound setting [address] (readSignature setting address raw) := by
  obtain ⟨parameters, hp, rfl⟩ := signatureRoots_ok hr
  rw [readSignature]
  suffices hs : Sound setting ([.key "parameters" :: address] ++ [.key "type" :: address]) _ by
    refine hs.weaken fun a ha => ?_
    rcases List.mem_append.1 ha with ha | ha
    · exact suffix_singleton ha
    · exact suffix_singleton ha
  refine Sound.after_liftM (childElements_known _ _) fun list hl => ?_
  refine Sound.bind (sound_positions (zipIdx_pairwise list) fun e he => ?_) (fun _ _ => ?_) ?_
  · obtain ⟨_ | m, i⟩ := e
    · exact ⟨by simp, by simp, covers_nil _⟩
    · obtain ⟨found, hf, hm⟩ := mem_nodes_of_childElements hl he
      cases hp.symm.trans hf
      refine readParameter_sound fun e he => h e ?_
      exact mem_inlineInRoots (List.mem_cons_of_mem _ (List.mem_map.2 ⟨_, hm, rfl⟩)) he
  · refine (sound_type fun node hn => ?_).before fun _ => ?_
    · refine readType_sound fun e he => h e (mem_inlineInRoots (List.mem_cons_self ..) ?_)
      rwa [hn]
    · exact Sound.after_liftM (readComment_known _) fun _ _ => sound_pure _
  · simp only [List.mem_singleton, forall_eq]
    exact apart_of_step_ne _ (by decide)
termination_by sizeOf raw
decreasing_by
  · exact m.2
  · exact node.2

theorem readParameter_sound {setting : Setting} {address : Pointer} {raw : Members}
    (h : ∀ e ∈ inlineIn (.key "type" :: address) (member raw "type"), Ready setting e.1 e.2) :
    Sound setting [address] (readParameter setting address raw) := by
  rw [readParameter]
  refine ((sound_type fun node hn => ?_).before fun _ => ?_).weaken fun a ha => suffix_singleton ha
  · refine readType_sound fun e he => h e ?_
    rwa [hn]
  · refine Sound.after_liftM (readComment_known _) fun _ _ => ?_
    exact Sound.after_liftM (readOptional_known _) fun _ _ => sound_pure _
termination_by sizeOf raw
decreasing_by exact node.2

theorem readType_sound {setting : Setting} {address : Pointer} {node : Members}
    (h : ∀ e ∈ inlineIn address (.object node), Ready setting e.1 e.2) :
    Sound setting [address] (readType setting address node) := by
  -- Unless the node is an inline declaration, the scan goes through all its members.
  have hlist : ∀ key, inlineDeclaration? node = none →
      Sound setting [address] (do
        (← liftM (childNodes node key)).mapM fun c =>
          readType setting (.index c.1 :: .key key :: address) c.2.1) := by
    intro key hn
    refine (sound_nodes fun list hl c hc => ?_).weaken fun a ha => suffix_singleton ha
    refine readType_sound fun e he => h e (inlineIn_of_member key hn ?_)
    exact inlineIn_of_item (childNodes_ok hl) (List.mem_map.2 ⟨c, hc, rfl⟩) he
  rw [readType]
  split
  · exact sound_pure _
  split
  · exact sound_pure _
  split
  · rename_i ht
    have hn : inlineDeclaration? node = none := inlineDeclaration?_eq_none (by rw [ht]; decide)
    split
    · rename_i element hsmall hc
      refine Sound.map _ ((readType_sound fun e he => h e ?_).weaken fun a ha => suffix_singleton ha)
      refine inlineIn_of_member "elementType" hn ?_
      rwa [member_of_childNode? hc]
    · exact sound_pure _
  split
  · rename_i ht
    exact Sound.map _ (hlist _ (inlineDeclaration?_eq_none (by rw [ht]; decide)))
  split
  · rename_i ht
    exact Sound.map _ (hlist _ (inlineDeclaration?_eq_none (by rw [ht]; decide)))
  split
  · rename_i ht
    exact Sound.map _ (hlist _ (inlineDeclaration?_eq_none (by rw [ht]; decide)))
  split
  · exact sound_pure _
  split
  · rename_i ht
    exact (hlist _ (inlineDeclaration?_eq_none (by rw [ht]; decide))).before fun _ => sound_pure _
  split
  · rename_i ht
    split
    · rename_i m hsmall hc
      exact Sound.map _ ((readDeclaration_sound (h _ (inlineIn_of_reflection ht hc))).weaken
        fun a ha => suffix_singleton ha)
    · exact sound_pure _
  · exact sound_pure _
termination_by sizeOf node
decreasing_by
  · exact c.2.2
  · assumption
  · assumption

end

end DocShape.Document
