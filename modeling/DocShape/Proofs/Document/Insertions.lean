import DocShape.Proofs.Document.Filling
import DocShape.Proofs.Document.Moves

/-!
Values put into the lists of a document. `View.opens` tells what loading takes the members of a node for,
and `PutIn` puts a value into a list of nodes at any depth. Then lists hold the same nodes at new positions
(`Near.listedAt`), and the search for inline declarations finds the same ones at new addresses
(`descends_near`).
-/

namespace DocShape.Document

open Json Journal

/-! ## What loading looks at -/

/-- What loading takes a value for. -/
inductive View
  | declaration
  | signature
  | parameter
  | typeParameter
  | type
  | comment
  /-- A piece of the text of a comment. -/
  | part
  | tag
  | list (item : View)
  /-- What is only searched for inline declarations. -/
  | searched
  deriving DecidableEq

namespace View

/-- The keys of a type node whose values say of what category it is, or are shown as they stand. -/
def shownKeys : Category → List Text
  | .intrinsic | .typeParameter => ["type", "name"]
  | .literal _ => ["type", "value"]
  | .reference => ["type", "name", "qualifiedName"]
  | _ => ["type"]

/-- What loading takes a member of a type node for that holds no types to be read. -/
def beside (m : Members) (key : Text) : Option View :=
  if key ∈ shownKeys (categoryOf m) then none else some searched

/-- What loading takes a member of a type node for. In a node that is not modelled all members are text. -/
def opensInType (m : Members) (key : Text) : Option View :=
  match form m with
  | .leaf (.unmodelled _ _) => none
  | .leaf _ => beside m key
  | .array _ => if key = "elementType" then some type else beside m key
  | .group g => if key = g.key then some (list type) else beside m key
  | .reference => if key = "typeArguments" then some (list type) else beside m key
  | .inline _ => if key = "declaration" then some declaration else none

/-- What the search for inline declarations takes a member of an object for. -/
def opensInSearch (m : Members) (key : Text) : Option View :=
  match inlineDeclaration? m with
  | some _ => if key = "declaration" then some declaration else none
  | none => some searched

/-- The members of other nodes that loading looks into. -/
def table : View → Table View
  | declaration =>
    [("children", list declaration), ("signatures", list signature), ("type", type),
      ("typeParameter", list typeParameter), ("typeParameters", list typeParameter),
      ("comment", comment)]
  | signature => [("parameters", list parameter), ("type", type), ("comment", comment)]
  | parameter => [("type", type), ("comment", comment)]
  | comment => [("summary", list part), ("blockTags", list tag)]
  | tag => [("content", list part)]
  | typeParameter | part | type | searched | list _ => []

/-- What loading takes a member of a node for, where it looks into it. -/
def opens : View → Members → Text → Option View
  | type, m, key => opensInType m key
  | list type, m, key | searched, m, key => opensInSearch m key
  | view, _, key => Table.get? view.table key

/-- What loading takes the items of an array for. -/
def item? : View → Option View
  | list item => some item
  | type | searched => some searched
  | _ => none

/-- Whether the search for inline declarations comes to a value. -/
def isSearched : View → Bool
  | type | list type | searched => true
  | _ => false

end View

/-! ## What is opened -/

section

variable {m d : Members}

private theorem categoryOf_of_reflection (h : (member m "type").isText "reflection") :
    categoryOf m = .inline := by
  have spelled : (member m "type").displayOrEmpty = Text.ofString "reflection" := by
    rw [Value.isText_iff.1 h]
    rfl
  unfold categoryOf
  dsimp only
  rw [spelled, stringLiteral?_eq_none (by decide) (by decide)]
  rfl

/-- The search for inline declarations finds at a type node what is read there. -/
theorem inlineDeclaration?_eq_some_iff : inlineDeclaration? m = some d ↔ form m = .inline d := by
  rw [form_eq_inline_iff]
  unfold inlineDeclaration?
  constructor
  · intro h
    split at h
    · rename_i ht
      exact ⟨categoryOf_of_reflection ht, h⟩
    · cases h
  · rintro ⟨hc, ho⟩
    rw [if_pos (Value.isText_iff.2 (eq_text_of_reflection (type_of_categoryOf.1 hc))), ho]

end

namespace View

variable {m : Members} {key : Text} {below : View}

theorem name_mem_shownKeys {c : Category} (h : c.showsName) : Text.ofString "name" ∈ shownKeys c := by
  cases c with
  | intrinsic | typeParameter | reference => exact List.mem_cons_of_mem _ (List.mem_cons_self ..)
  | _ => cases h

theorem opensInType_shown (h : key ∈ shownKeys (categoryOf m)) : opensInType m key = none := by
  have aside : beside m key = none := if_pos h
  have shown : key ∈ [Text.ofString "type", "name", "value", "qualifiedName"] := by
    revert h
    unfold shownKeys
    split <;> grind
  have ne : ∀ w : Text, w ∉ [Text.ofString "type", "name", "value", "qualifiedName"] → key ≠ w :=
    fun w hw hk => hw (hk ▸ shown)
  unfold opensInType
  split
  · rfl
  · exact aside
  · rw [if_neg (ne _ (by decide)), aside]
  · rename_i g _
    rw [if_neg (ne _ (by cases g <;> decide)), aside]
  · rw [if_neg (ne _ (by decide)), aside]
  · rw [if_neg (ne _ (by decide))]

private theorem isSearched_of_beside (h : beside m key = some below) : below.isSearched := by
  unfold beside at h
  split at h
  · cases h
  · cases h
    rfl

private theorem opensInType_inline {d : Members} (hf : form m = .inline d)
    (h : opensInType m key = some below) : key = "declaration" ∧ below = .declaration := by
  rw [opensInType, hf] at h
  dsimp only at h
  split at h
  · rename_i hk
    exact ⟨hk, (Option.some.inj h).symm⟩
  · cases h

private theorem isSearched_of_opensInType (hf : ∀ d, form m ≠ .inline d)
    (h : opensInType m key = some below) : below.isSearched := by
  have opened : ∀ {c : Prop} [Decidable c] {view : View}, view.isSearched →
      (if c then some view else beside m key) = some below → below.isSearched := by
    intro c _ view searched h
    split at h
    · cases h
      exact searched
    · exact isSearched_of_beside h
  unfold opensInType at h
  split at h
  · cases h
  · exact isSearched_of_beside h
  · exact opened rfl h
  · exact opened rfl h
  · exact opened rfl h
  · rename_i d hd
    exact absurd hd (hf d)

private theorem below_of_opensInSearch (h : opensInSearch m key = some below) :
    (∀ d, inlineDeclaration? m = some d → key = "declaration" ∧ below = .declaration) ∧
      (inlineDeclaration? m = none → below.isSearched) := by
  cases hd : inlineDeclaration? m with
  | some d =>
    simp only [opensInSearch, hd] at h
    refine ⟨fun _ _ => ?_, nofun⟩
    split at h
    · rename_i hk
      exact ⟨hk, (Option.some.inj h).symm⟩
    · cases h
  | none =>
    simp only [opensInSearch, hd] at h
    cases h
    exact ⟨nofun, fun _ => rfl⟩

/-- Below what is searched, all is searched up to the inline declarations. -/
theorem below_of_isSearched {view : View} (searched : view.isSearched)
    (h : view.opens m key = some below) :
    (∀ d, inlineDeclaration? m = some d → key = "declaration" ∧ below = .declaration) ∧
      (inlineDeclaration? m = none → below.isSearched) := by
  cases view with
  | type =>
    refine ⟨fun d hd => opensInType_inline (inlineDeclaration?_eq_some_iff.1 hd) h, fun none => ?_⟩
    refine isSearched_of_opensInType (fun d hd => ?_) h
    cases none.symm.trans (inlineDeclaration?_eq_some_iff.2 hd)
  | searched => exact below_of_opensInSearch h
  | list item =>
    cases item with
    | type => exact below_of_opensInSearch h
    | _ => cases searched
  | _ => cases searched

/-- The items of what is searched are searched, too. -/
theorem exists_item_of_isSearched {view : View} (searched : view.isSearched) :
    ∃ item : View, view.item? = some item ∧ item.isSearched := by
  cases view with
  | list item =>
    cases item with
    | type => exact ⟨.type, rfl, rfl⟩
    | _ => cases searched
  | type | searched => exact ⟨.searched, rfl, rfl⟩
  | _ => cases searched

end View

/-! ## Values put in -/

/-- Two objects that have other values for one key, which they have once. -/
inductive Replaced (key : Text) (v v' : Value) : Members → Members → Prop
  | middle {before after : Members} : key ∉ Table.keys before → key ∉ Table.keys after →
    Replaced key v v' (before ++ (key, v) :: after) (before ++ (key, v') :: after)

/-- The second value is the first one with `s` put in, at position `k` of the list of nodes at `base`. The
list is not empty, and it lists no parameters. -/
inductive PutIn (base : Pointer) (k : Nat) (s : Value) : View → Pointer → Value → Value → Prop
  | here {item : View} {before after : List Value} :
    item ≠ .parameter → before ++ after ≠ [] → before.length = k →
    PutIn base k s (.list item) base (.array (before ++ after)) (.array (before ++ s :: after))
  | item {view item : View} {p : Pointer} {before after : List Value} {v v' : Value} :
    view.item? = some item → PutIn base k s item (.index before.length :: p) v v' →
    PutIn base k s view p (.array (before ++ v :: after)) (.array (before ++ v' :: after))
  | member {view below : View} {p : Pointer} {m m' : Members} {key : Text} {v v' : Value} :
    view.opens m key = some below → Replaced key v v' m m' →
    PutIn base k s below (.key key :: p) v v' → PutIn base k s view p (.object m) (.object m')

/-! ## One key -/

section

variable {key : Text} {v v' : Value} {m m' : Members}

private theorem member?_middle {before after : Members} (h : key ∉ Table.keys before) :
    member? (before ++ (key, v) :: after) key = some v := by
  have absent : before.lookup key = none := Table.get?_eq_none_iff.2 h
  rw [member?, Table.get?, List.lookup_append, absent, Option.none_or, List.lookup_cons_self]

private theorem member?_middle_of_ne {before after : Members} {other : Text} (h : other ≠ key) :
    member? (before ++ (key, v) :: after) other = member? (before ++ after) other := by
  have apart : (other == key) = false := beq_eq_false_iff_ne.2 h
  unfold member? Table.get?
  rw [List.lookup_append, List.lookup_append, List.lookup_cons, apart]

namespace Replaced

variable (h : Replaced key v v' m m')

include h

theorem old : member? m key = some v := by
  obtain ⟨hb, -⟩ := h
  exact member?_middle hb

theorem new : member? m' key = some v' := by
  obtain ⟨hb, -⟩ := h
  exact member?_middle hb

theorem other {k : Text} (hk : k ≠ key) : member? m' k = member? m k := by
  obtain ⟨-, -⟩ := h
  rw [member?_middle_of_ne hk, member?_middle_of_ne hk]

theorem entries {R : Text × Value → Text × Value → Prop} (replaced : R (key, v) (key, v'))
    (same : ∀ e, e.1 ≠ key → R e e) : List.Forall₂ R m m' := by
  obtain ⟨hb, ha⟩ := h
  have ne : ∀ {l : Members}, key ∉ Table.keys l → ∀ e ∈ l, R e e := fun hl e he =>
    same e fun hk => hl (hk ▸ List.mem_map_of_mem he)
  exact List.rel_append (List.forall₂_same.2 (ne hb)) (.cons replaced (List.forall₂_same.2 (ne ha)))

end Replaced

end

/-! ## On the way to the list -/

section

variable {base p : Pointer} {k : Nat} {s : Value} {view : View} {v v' : Value}

theorem PutIn.suffix (h : PutIn base k s view p v v') : p <:+ base := by
  induction h with
  | here => exact List.suffix_rfl
  | item _ _ ih => exact (List.suffix_cons ..).trans ih
  | member _ _ _ ih => exact (List.suffix_cons ..).trans ih

theorem PutIn.isContainer (h : PutIn base k s view p v v') : v.isContainer ∧ v'.isContainer := by
  cases h <;> exact ⟨rfl, rfl⟩

/-- Two values at an address of a document: one value apart from the list, and else values that differ in
what is put into it. -/
def Near (base : Pointer) (k : Nat) (s : Value) (view : View) (p : Pointer) (v v' : Value) : Prop :=
  v' = v ∧ ¬ p <:+ base ∨ PutIn base k s view p v v'

/-- Two nodes at an address of a document. -/
abbrev NearNodes (base : Pointer) (k : Nat) (s : Value) (view : View) (p : Pointer) (m m' : Members) :
    Prop := Near base k s view p (.object m) (.object m')

private theorem not_suffix_below (h : ¬ p <:+ base) (t : Step) : ¬ t :: p <:+ base :=
  mt (List.suffix_cons ..).trans h

private theorem not_suffix_beside {t u : Step} (h : t :: p <:+ base) (hu : u ≠ t) : ¬ u :: p <:+ base := by
  intro h'
  have apart := apart_of_step_ne p hu
  exact (List.suffix_or_suffix_of_suffix h' h).elim apart.1 apart.2

theorem near_of_apart (h : ¬ p <:+ base) : Near base k s view p v v := .inl ⟨rfl, h⟩

namespace Near

variable {below : View} {m m' : Members}

/-- What loading takes a member for differs as the object does. -/
theorem member (h : Near base k s view p (.object m) (.object m')) (key : Text)
    (opens : p <:+ base → view.opens m key = some below) :
    Near base k s below (.key key :: p) (Json.member m key) (Json.member m' key) := by
  rcases h with ⟨same, apart⟩ | put
  · cases same
    exact near_of_apart (not_suffix_below apart _)
  · have opened := opens put.suffix
    cases put with
    | @member _ below' _ _ _ key' v v' opens' replaced put =>
      by_cases hk : key = key'
      · subst hk
        cases opened.symm.trans opens'
        rw [Json.member, Json.member, replaced.old, replaced.new]
        exact .inr put
      · rw [Json.member, Json.member, replaced.other hk]
        exact near_of_apart (not_suffix_beside put.suffix fun hs => hk (Step.key.inj hs))

/-- Members that loading does not look into stay. -/
theorem member?_eq (h : Near base k s view p (.object m) (.object m')) (key : Text)
    (closed : view.opens m key = none) :
    member? m' key = member? m key := by
  rcases h with ⟨same, -⟩ | put
  · cases same
    rfl
  · cases put with
    | @member _ _ _ _ _ key' _ _ opens' replaced =>
      refine replaced.other fun hk => ?_
      subst hk
      cases closed.symm.trans opens'

theorem member_eq (h : Near base k s view p (.object m) (.object m')) (key : Text)
    (closed : view.opens m key = none) :
    Json.member m' key = Json.member m key := by
  rw [Json.member, Json.member, h.member?_eq key closed]

/-- A value is an object in both documents or in none of them. -/
theorem bothObjects (h : Near base k s view p v v') :
    BothObjects (NearNodes base k s view p) v v' := by
  rcases h with ⟨rfl, apart⟩ | put
  · unfold BothObjects
    cases v' with
    | object m => exact .some (near_of_apart apart)
    | _ => exact .none
  · cases put with
    | here | item => exact .none
    | member opens replaced put => exact .some (.inr (.member opens replaced put))

/-- The member of a key stays, or it is an array or an object in both documents. -/
theorem member?_cases (h : Near base k s view p (.object m) (.object m')) (key : Text) :
    member? m' key = member? m key ∨ ∃ v v', member? m key = some v ∧ member? m' key = some v' ∧
      v.isContainer ∧ v'.isContainer := by
  rcases h with ⟨same, -⟩ | put
  · cases same
    exact .inl rfl
  · cases put with
    | @member _ _ _ _ _ key' _ _ _ replaced put =>
      by_cases hk : key = key'
      · subst hk
        exact .inr ⟨_, _, replaced.old, replaced.new, put.isContainer⟩
      · exact .inl (replaced.other hk)

theorem member_cases (h : Near base k s view p (.object m) (.object m')) (key : Text) :
    Json.member m' key = Json.member m key ∨
      (Json.member m key).isContainer ∧ (Json.member m' key).isContainer := by
  rcases h.member?_cases key with same | ⟨v, v', hv, hv', containers⟩
  · rw [Json.member, Json.member, same]
    exact .inl rfl
  · rw [Json.member, Json.member, hv, hv']
    exact .inr containers

end Near

end

/-! ## Lists -/

/-- The new positions of what is in a list when an entry is put in at position `k`. -/
def shift (k i : Nat) : Nat := if i < k then i else i + 1

theorem shift_injective (k : Nat) : Function.Injective (shift k) := by
  intro i j h
  unfold shift at h
  split at h <;> split at h <;> omega

/-- The new positions in the list at an address. -/
def positionIn (base : Pointer) (k : Nat) (p : Pointer) (i : Nat) : Nat :=
  if p = base then shift k i else i

/-- The whole document, in which an entry is put into one list. -/
def zoneAround (base : Pointer) (k : Nat) : Zone (reordering base (shift k) (shift_injective k)) where
  inside _ := True
  deep _ := True
  position := positionIn base k
  inside_cons _ _ := trivial
  deep_cons _ _ := trivial
  address_key _ _ := rfl
  address_index {p} i _ := by
    show relocate base _ (.index i :: p) = .index (positionIn base k p i) :: relocate base _ p
    unfold positionIn
    by_cases hp : p = base
    · subst hp
      have still : relocate p (fun i => [.index (shift k i)]) p = p :=
        relocate_elsewhere fun c _ hp => not_suffix_of_cons ⟨c, hp.symm⟩ List.suffix_rfl
      rw [relocate_item, if_pos rfl, still, List.singleton_append]
    · rw [relocate_cons _ hp, if_neg hp]
  around_cons _ _ _ _ := rfl

section

variable {base p : Pointer} {k : Nat} {s : Value} {view item : View} {v' : Value} {items : List Value}

namespace Near

/-- Away from the list, items have the same positions. -/
theorem zipIdx (h : Near base k s view p (.array items) v') (away : p ≠ base)
    (hitem : p <:+ base → view.item? = some item) :
    ∃ items', v' = .array items' ∧ List.Forall₂ (fun c c' : Value × Nat =>
      c'.2 = c.2 ∧ Near base k s item (.index c.2 :: p) c.1 c'.1) items.zipIdx items'.zipIdx := by
  rcases h with ⟨rfl, apart⟩ | put
  · exact ⟨items, rfl, List.forall₂_same.2 fun c _ =>
      ⟨rfl, near_of_apart (not_suffix_below apart _)⟩⟩
  · have hview := hitem put.suffix
    cases put with
    | here => exact absurd rfl away
    | @item _ _ _ before after w w' hitem' put =>
      cases hview.symm.trans hitem'
      have beside : ∀ n ≠ before.length, ∀ u, Near base k s item (.index n :: p) u u := fun n hn u =>
        near_of_apart (not_suffix_beside put.suffix fun hs => hn (Step.index.inj hs))
      refine ⟨_, rfl, ?_⟩
      rw [List.zipIdx_append, List.zipIdx_append, List.zipIdx_cons, List.zipIdx_cons]
      refine List.rel_append ?_ (.cons ⟨rfl, ?_⟩ ?_)
      · refine List.forall₂_same.2 fun c hc => ⟨rfl, beside _ ?_ _⟩
        have := List.snd_lt_of_mem_zipIdx hc
        omega
      · rw [Nat.zero_add]
        exact .inr put
      · refine List.forall₂_same.2 fun c hc => ⟨rfl, beside _ ?_ _⟩
        have := List.le_snd_of_mem_zipIdx hc
        omega

/-- Items at their new positions, with the new entry between them. -/
theorem spaced (plain : s.isContainer = false) (h : Near base k s view p (.array items) v')
    (hitem : p <:+ base → view.item? = some item) :
    ∃ items', v' = .array items' ∧ Spaced (fun i j w w' => j = positionIn base k p i ∧
      Near base k s item (.index i :: p) w w') 0 0 items items' := by
  by_cases away : p = base
  · subst away
    rcases h with ⟨-, apart⟩ | put
    · exact absurd List.suffix_rfl apart
    · have below : ∀ i u, Near p k s item (.index i :: p) u u := fun i u =>
        near_of_apart fun hs => not_suffix_of_cons hs List.suffix_rfl
      cases put with
      | @here item before after _ _ hk =>
        refine ⟨_, rfl, .append (.same before 0 0 fun n hn u => ⟨?_, below _ u⟩)
          (.further plain (.same after _ _ fun n _ u => ⟨?_, below _ u⟩))⟩
        · rw [positionIn, if_pos rfl, shift, if_pos (by omega)]
        · rw [positionIn, if_pos rfl, shift, if_neg (by omega)]
          omega
      | item _ put => exact absurd List.suffix_rfl (not_suffix_of_cons put.suffix)
  · obtain ⟨items', rfl, same⟩ := h.zipIdx away hitem
    refine ⟨items', rfl, Spaced.of_zipIdx (same.imp fun c c' hc => ⟨hc.1, ?_, hc.2⟩)⟩
    rw [positionIn, if_neg away]

private theorem nodes_eq_of_not_array {v : Value} (h : Near base k s view p v v')
    (other : ∀ items, v ≠ .array items) : nodes v' = nodes v := by
  rcases h with ⟨rfl, -⟩ | put
  · rfl
  · cases put with
    | here => exact absurd rfl (other _)
    | item => exact absurd rfl (other _)
    | member => rfl

/-- Lists of nodes list corresponding nodes at their new positions. -/
theorem listedAt (plain : s.isContainer = false) {v : Value} (h : Near base k s (.list item) p v v') :
    ListedAt (zoneAround base k) (NearNodes base k s item) p v v' := by
  unfold ListedAt ListedBy
  by_cases array : ∃ items, v = .array items
  · obtain ⟨items, rfl⟩ := array
    obtain ⟨items', rfl, hs⟩ := h.spaced plain fun _ => rfl
    exact .ok (Spaced.objectsFrom (hs.imp fun w _ i j w' hw => ⟨hw.1, hw.2.bothObjects⟩))
  · have other : ∀ items, v ≠ .array items := fun items hv => array ⟨items, hv⟩
    rw [h.nodes_eq_of_not_array other]
    cases hn : nodes v with
    | error e => exact .error e
    | ok l =>
      obtain rfl : l = [] := (nodes_ok hn).resolve_right fun ⟨items, hv, _⟩ => other items hv
      exact .ok .nil

/-- Lists of parameters have nothing put into them. -/
theorem listedWhole {v : Value} (h : Near base k s (.list .parameter) p v v') (away : p ≠ base) :
    ListedWhole (fun i => NearNodes base k s .parameter (.index i :: p)) v v' := by
  unfold ListedWhole
  by_cases array : ∃ items, v = .array items
  · obtain ⟨items, rfl⟩ := array
    obtain ⟨items', rfl, hs⟩ := h.zipIdx away fun _ => rfl
    have whole : ∀ items : List Value, elements (.array items) = .ok items := fun items => by
      cases items <;> rfl
    rw [whole, whole]
    exact .ok (hs.imp fun c c' hc => ⟨hc.1, hc.2.bothObjects⟩)
  · have other : ∀ items, v ≠ .array items := fun items hv => array ⟨items, hv⟩
    have same : v' = v := by
      rcases h with ⟨same, -⟩ | put
      · exact same
      · cases put with
        | here => exact absurd rfl (other _)
        | item => exact absurd rfl (other _)
        | member opens => cases opens
    rw [same]
    cases he : elements v with
    | error e => exact .error e
    | ok items =>
      refine .ok (List.forall₂_same.2 fun c hc => ⟨rfl, ?_⟩)
      rw [asObject?_of_mem_elements other he (List.fst_mem_of_mem_zipIdx hc)]
      exact .none

end Near

end

/-! ## Inline declarations -/

section

variable {base p : Pointer} {k : Nat} {s : Value} {view : View} {v v' : Value} {m m' : Members}

/-- What is put into an object leaves it one, and an array an array. -/
theorem PutIn.asObject? (h : PutIn base k s view p v v') :
    (asObject? v').isSome = (asObject? v).isSome := by
  cases h <;> rfl

theorem PutIn.isText (h : PutIn base k s view p v v') (t : Text) : v'.isText t = v.isText t := by
  cases h <;> rfl

/-- Two declarations at an address of a document and at its new address. -/
abbrev MovedNear (base : Pointer) (k : Nat) (s : Value) : Pointer × Members → Pointer × Members → Prop :=
  Moved (zoneAround base k) (NearNodes base k s .declaration)

/-- An object with something put into a member, as the search for inline declarations sees it. -/
private theorem inlineDeclaration?_put {key : Text} {below : View} (searched : view.isSearched)
    (opens : view.opens m key = some below) (replaced : Replaced key v v' m m')
    (put : PutIn base k s below (.key key :: p) v v') :
    Option.Rel (NearNodes base k s .declaration (.key "declaration" :: p)) (inlineDeclaration? m)
      (inlineDeclaration? m') := by
  obtain ⟨declared, -⟩ := View.below_of_isSearched searched opens
  have category : (member m' "type").isText "reflection" = (member m "type").isText "reflection" := by
    by_cases hk : key = "type"
    · subst hk
      rw [member, member, replaced.old, replaced.new]
      exact put.isText _
    · rw [member, member, replaced.other (Ne.symm hk)]
  have held : (object? m' "declaration").isSome = (object? m "declaration").isSome := by
    rw [object?_eq_asObject?, object?_eq_asObject?]
    by_cases hk : key = "declaration"
    · subst hk
      rw [member, member, replaced.old, replaced.new]
      exact put.asObject?
    · rw [member, member, replaced.other (Ne.symm hk)]
  cases hd : inlineDeclaration? m with
  | none =>
    have none : inlineDeclaration? m' = none := by
      unfold inlineDeclaration? at hd ⊢
      rw [category]
      split
      · rename_i ht
        rw [if_pos ht] at hd
        rw [hd] at held
        simpa using held
      · rfl
    rw [none]
    exact .none
  | some d =>
    obtain ⟨rfl, rfl⟩ := declared d hd
    have hv : v = .object d := by
      have := member_of_inlineDeclaration? hd
      rw [member, replaced.old] at this
      exact this
    subst hv
    cases put with
    | @member _ below' _ _ n _ w w' opens' replaced' put' =>
      have found : inlineDeclaration? m' = some n := by
        unfold inlineDeclaration? at hd ⊢
        rw [category]
        split
        · rw [object?_eq_asObject?, member, replaced.new]
          rfl
        · rename_i ht
          rw [if_neg ht] at hd
          cases hd
      rw [found]
      exact .some (.inr (.member opens' replaced' put'))

/-- Both values hold the same inline declarations, in the second one at their new addresses. -/
theorem descends_near (plain : s.isContainer = false) :
    Descends (fun p p' v v' => p' = (reordering base (shift k) (shift_injective k)).address p ∧
      ∃ view : View, view.isSearched ∧ Near base k s view p v v') (MovedNear base k s) where
  array := by
    rintro p _ items v' ⟨rfl, view, searched, h⟩
    obtain ⟨item, hitem, hsearched⟩ := View.exists_item_of_isSearched searched
    obtain ⟨items', rfl, hs⟩ := h.spaced plain fun _ => hitem
    refine ⟨items', rfl, hs.imp fun w _ i j w' hw => ⟨?_, item, hsearched, hw.2⟩⟩
    rw [hw.1]
    exact ((zoneAround base k).address_index i trivial).symm
  object := by
    rintro p _ m v' ⟨rfl, view, searched, h⟩
    have address : ∀ key, .key key :: (reordering base (shift k) (shift_injective k)).address p =
        (reordering base (shift k) (shift_injective k)).address (.key key :: p) := fun key => rfl
    have same : ∀ key w, ¬ .key key :: p <:+ base → ∃ view : View, view.isSearched ∧
        Near base k s view (.key key :: p) w w := fun key w hk => ⟨.searched, rfl, near_of_apart hk⟩
    rcases h with ⟨rfl, apart⟩ | put
    · refine ⟨m, rfl, ?_, fun _ => List.forall₂_same.2 fun e _ =>
        ⟨address _, same _ _ (not_suffix_below apart _)⟩⟩
      cases inlineDeclaration? m with
      | none => exact .none
      | some d => exact .some ⟨trivial, address _, near_of_apart (not_suffix_below apart _)⟩
    · cases put with
      | @member _ below _ _ m' key w w' opens replaced put =>
        refine ⟨m', rfl, ?_, fun none => ?_⟩
        · have inlined := inlineDeclaration?_put searched opens replaced put
          generalize inlineDeclaration? m = o, inlineDeclaration? m' = o' at inlined
          cases inlined with
          | none => exact .none
          | some hd => exact .some ⟨trivial, address _, hd⟩
        · refine replaced.entries ⟨address _, below,
            (View.below_of_isSearched searched opens).2 none, .inr put⟩ fun e he => ?_
          exact ⟨address _, same _ _ (not_suffix_beside put.suffix fun hs => he (Step.key.inj hs))⟩
  plain := by
    rintro p _ v v' hv ⟨-, view, -, h⟩
    rcases h with ⟨rfl, -⟩ | put
    · exact hv
    · rw [put.isContainer.1] at hv
      cases hv

end

end DocShape.Document
