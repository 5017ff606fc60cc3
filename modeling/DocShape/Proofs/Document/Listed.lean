import DocShape.Proofs.Document.Steps

/-!
Two documents side by side, list by list. `Listed` relates two values that list the same but for related
objects, and `ListedBy` two that list related objects at new positions; what goes through the nodes of the
one goes through those of the other (`ListedBy.eachNode`). `Descends` does the same for the search for
inline declarations (`inlineIn_descends`).
-/

namespace DocShape.Document

open Json

/-! ## Lists -/

/-- Both values are objects, and related, or neither is one. -/
abbrev BothObjects (R : Members → Members → Prop) (v v' : Value) : Prop :=
  Option.Rel R (asObject? v) (asObject? v')

/-- Two values list related objects at the same positions. -/
def Listed (R : Members → Members → Prop) (v v' : Value) : Prop :=
  Alike (List.Forall₂ (BothObjects R)) (elements v) (elements v')

theorem listed_array {R : Members → Members → Prop} {items items' : List Value}
    (h : List.Forall₂ (BothObjects R) items items') : Listed R (.array items) (.array items') := by
  have whole : ∀ items : List Value, elements (.array items) = .ok items := fun items => by
    cases items <;> rfl
  unfold Listed
  rw [whole, whole]
  exact .ok h

/-- Only what an array lists can be objects. -/
theorem listed_other {R : Members → Members → Prop} {v : Value} (h : ∀ items, v ≠ .array items) :
    Listed R v v := by
  unfold Listed
  cases he : elements v with
  | error e => exact .error e
  | ok items =>
    refine .ok (List.forall₂_same.2 fun item hi => ?_)
    unfold BothObjects
    rw [asObject?_of_mem_elements h he hi]
    exact .none

/-- Of an object it is the keys that are listed. -/
theorem listed_object {R : Members → Members → Prop} {m m' : Members} (h : m'.length = m.length) :
    Listed R (.object m) (.object m') := by
  have keys : ∀ m : Members, elements (.object m) = .ok (m.map fun e => .text e.1) := fun m => by
    cases m <;> rfl
  unfold Listed
  rw [keys, keys]
  refine .ok (List.forall₂_iff_get.2 ⟨by simpa using h.symm, fun i _ _ => ?_⟩)
  simp only [List.get_eq_getElem, List.getElem_map]
  exact .none

theorem listed_refl {R : Members → Members → Prop} (h : ∀ m, R m m) (v : Value) : Listed R v v :=
  Alike.refl (fun items => List.forall₂_same.2 fun item _ => by
    cases item <;> first | exact .none | exact .some (h _)) _

theorem objectsFrom_cons (i : Nat) (item : Value) (rest : List Value) :
    objectsFrom i (item :: rest) =
      (asObject? item).toList.map (i, ·) ++ objectsFrom (i + 1) rest := by
  cases item <;> rfl

theorem asObject?_of_not_isContainer {v : Value} (h : v.isContainer = false) : asObject? v = none := by
  cases v with
  | object m => cases h
  | _ => rfl

/-- The items of two lists side by side, each with its position. Between those of the second list there may
be further ones, which hold nothing. -/
inductive Spaced (Q : Nat → Nat → Value → Value → Prop) : Nat → Nat → List Value → List Value → Prop
  | nil {i j : Nat} : Spaced Q i j [] []
  | item {i j : Nat} {v v' : Value} {rest rest' : List Value} :
    Q i j v v' → Spaced Q (i + 1) (j + 1) rest rest' → Spaced Q i j (v :: rest) (v' :: rest')
  | further {i j : Nat} {v' : Value} {rest rest' : List Value} :
    v'.isContainer = false → Spaced Q i (j + 1) rest rest' → Spaced Q i j rest (v' :: rest')

namespace Spaced

variable {Q Q' : Nat → Nat → Value → Value → Prop} {i j : Nat} {items items' rest rest' : List Value}

theorem of_forall₂ (h : List.Forall₂ (fun v v' => ∀ i, Q i i v v') items items') (i : Nat) :
    Spaced Q i i items items' := by
  induction h generalizing i with
  | nil => exact .nil
  | cons hv _ ih => exact .item (hv i) (ih (i + 1))

theorem of_zipIdx {i : Nat} (h : List.Forall₂ (fun c c' : Value × Nat => c'.2 = c.2 ∧ Q c.2 c.2 c.1 c'.1)
    (items.zipIdx i) (items'.zipIdx i)) : Spaced Q i i items items' := by
  induction items generalizing i items' with
  | nil =>
    cases items' with
    | nil => exact .nil
    | cons => cases h
  | cons v rest ih =>
    cases items' with
    | nil => cases h
    | cons v' rest' =>
      obtain ⟨⟨-, hv⟩, hrest⟩ := List.forall₂_cons.1 h
      exact .item hv (ih hrest)

theorem imp (h : Spaced Q i j items items') (step : ∀ v ∈ items, ∀ i j v', Q i j v v' → Q' i j v v') :
    Spaced Q' i j items items' := by
  induction h with
  | nil => exact .nil
  | @item _ _ v _ _ _ hv _ ih =>
    exact .item (step v (List.mem_cons_self ..) _ _ _ hv)
      (ih fun w hw => step w (List.mem_cons_of_mem _ hw))
  | further plain _ ih => exact .further plain (ih step)

theorem append (h : Spaced Q i j items items')
    (h' : Spaced Q (i + items.length) (j + items'.length) rest rest') :
    Spaced Q i j (items ++ rest) (items' ++ rest') := by
  induction h with
  | nil => exact h'
  | item hv _ ih =>
    refine .item hv (ih ?_)
    convert h' using 1 <;> simp only [List.length_cons] <;> omega
  | further plain _ ih =>
    refine .further plain (ih ?_)
    convert h' using 1
    simp only [List.length_cons]
    omega

/-- Items that stay, each at a new position. -/
theorem same (items : List Value) (i j : Nat) (h : ∀ n < items.length, ∀ v, Q (i + n) (j + n) v v) :
    Spaced Q i j items items := by
  induction items generalizing i j with
  | nil => exact .nil
  | cons v rest ih =>
    refine .item (h 0 (by simp) v) (ih (i + 1) (j + 1) fun n hn w => ?_)
    have := h (n + 1) (by simpa using hn) w
    rwa [Nat.add_right_comm, Nat.add_right_comm j]

/-- The objects of both lists, where what lies between those of the second list is passed over. -/
theorem objectsFrom {f : Nat → Nat} {R : Nat → Members → Members → Prop}
    (h : Spaced (fun i j v v' => j = f i ∧ BothObjects (R i) v v') i j items items') :
    List.Forall₂ (fun c c' => c'.1 = f c.1 ∧ R c.1 c.2 c'.2) (Document.objectsFrom i items)
      (Document.objectsFrom j items') := by
  induction h with
  | nil => exact .nil
  | @item i j v v' rest rest' hv _ ih =>
    obtain ⟨hj, hv⟩ := hv
    rw [objectsFrom_cons, objectsFrom_cons]
    refine List.rel_append ?_ ih
    unfold BothObjects at hv
    generalize asObject? v = o, asObject? v' = o' at hv ⊢
    cases hv with
    | none => exact .nil
    | some hm => exact .cons ⟨hj, hm⟩ .nil
  | @further i j v' rest rest' plain _ ih =>
    rw [objectsFrom_cons, asObject?_of_not_isContainer plain]
    exact ih

end Spaced

/-- Two values list related objects, the second one at new positions. -/
def ListedBy (f : Nat → Nat) (R : Nat → Members → Members → Prop) (v v' : Value) : Prop :=
  Alike (List.Forall₂ fun c c' => c'.1 = f c.1 ∧ R c.1 c.2 c'.2) (nodes v) (nodes v')

private theorem zipIdx_both {R : Members → Members → Prop} {items items' : List Value}
    (h : List.Forall₂ (BothObjects R) items items') (i : Nat) :
    List.Forall₂ (fun c c' : Value × Nat => c'.2 = c.2 ∧ BothObjects R c.1 c'.1)
      (items.zipIdx i) (items'.zipIdx i) := by
  induction h generalizing i with
  | nil => exact .nil
  | cons hitem _ ih => exact .cons ⟨rfl, hitem⟩ (ih (i + 1))

/-- Two values list the same, but for related objects. -/
def ListedWhole (R : Nat → Members → Members → Prop) (v v' : Value) : Prop :=
  Alike (fun l l' : List Value => List.Forall₂ (fun c c' : Value × Nat =>
    c'.2 = c.2 ∧ Option.Rel (R c.2) (asObject? c.1) (asObject? c'.1)) l.zipIdx l'.zipIdx)
    (elements v) (elements v')

theorem Listed.whole {R : Members → Members → Prop} {v v' : Value} (h : Listed R v v') :
    ListedWhole (fun _ => R) v v' := h.mono fun _ _ hl => zipIdx_both hl 0

theorem ListedWhole.by {R : Nat → Members → Members → Prop} {v v' : Value} (h : ListedWhole R v v') :
    ListedBy (fun i => i) R v v' := by
  unfold ListedBy
  rw [nodes_eq_elements, nodes_eq_elements]
  refine h.map fun l l' hl => ?_
  have spaced : Spaced (fun i j v v' => j = i ∧ BothObjects (R i) v v') 0 0 l l' :=
    .of_zipIdx (hl.imp fun c c' hc => ⟨hc.1, rfl, hc.2⟩)
  exact spaced.objectsFrom

theorem Listed.by {R : Members → Members → Prop} {v v' : Value} (h : Listed R v v') :
    ListedBy (fun i => i) (fun _ => R) v v' :=
  h.whole.by

section

variable {f : Nat → Nat} {R : Nat → Members → Members → Prop} {v v' : Value} (h : ListedBy f R v v')

include h

/-- What is read of each of the nodes is the same if it is of nodes that correspond. -/
theorem ListedBy.map_eq {α : Type} {g : Members → α} (kept : ∀ i m m', R i m m' → g m' = g m) :
    (nodes v').map (fun l => l.map fun c => g c.2) = (nodes v).map fun l => l.map fun c => g c.2 := by
  refine Alike.eq (h.map fun l l' hl => ?_)
  induction hl with
  | nil => rfl
  | cons hc _ ih => rw [List.map_cons, List.map_cons, ih, kept _ _ _ hc.2]

theorem joinParts_listedBy (text : ∀ i m m', R i m m' →
    (member m' "text").displayOrEmpty = (member m "text").displayOrEmpty) :
    joinParts v' = joinParts v := by
  have read : ∀ v, joinParts v = ((nodes v).map fun l => l.map fun c =>
      (member c.2 "text").displayOrEmpty).map List.flatten := fun v => by
    unfold joinParts
    cases nodes v <;> rfl
  rw [read, read, h.map_eq text]

theorem returnsTag_listedBy (tag : ∀ i m m', R i m m' →
      (member m' "tag").isText "@returns" = (member m "tag").isText "@returns")
    (content : ∀ i m m', R i m m' →
      joinParts (member m' "content") = joinParts (member m "content")) :
    returnsTag v' = returnsTag v := by
  refine Alike.eq (Alike.bind h fun l l' hl hll => Alike.of_eq ?_)
  clear hl
  induction hll with
  | nil => rfl
  | @cons c c' l l' hc _ ih =>
    rw [List.find?_cons, List.find?_cons]
    dsimp only
    rw [tag _ _ _ hc.2]
    cases (member c.2 "tag").isText "@returns" with
    | true => exact content _ _ _ hc.2
    | false => exact ih

end

/-- The names of type parameters at one of the members that may list them. -/
private theorem names_listedBy {f : Nat → Nat} {R : Nat → Members → Members → Prop} {v v' : Value}
    (h : ListedBy f R v v')
    (name : ∀ i m m', R i m m' → (member m' "name").display = (member m "name").display) :
    (nodes v' >>= fun l => pure (l.map fun c => (member c.2 "name").display)) =
      (nodes v >>= fun l => pure (l.map fun c => (member c.2 "name").display)) := by
  have read := h.map_eq name
  cases hv : nodes v <;> cases hv' : nodes v' <;> rw [hv, hv'] at read <;> exact read

/-- Type parameters are listed by an older member or, where that one is missing, by a newer one. -/
theorem readTypeParameters_listedBy {f f' : Nat → Nat} {R R' : Nat → Members → Members → Prop}
    {m m' : Members}
    (missing : (member m' "typeParameter").isEmpty = (member m "typeParameter").isEmpty)
    (older : ListedBy f R (member m "typeParameter") (member m' "typeParameter"))
    (newer : ListedBy f' R' (member m "typeParameters") (member m' "typeParameters"))
    (name : ∀ i m m', R i m m' → (member m' "name").display = (member m "name").display)
    (name' : ∀ i m m', R' i m m' → (member m' "name").display = (member m "name").display) :
    readTypeParameters m' = readTypeParameters m := by
  unfold readTypeParameters
  dsimp only
  rw [missing]
  split
  · exact names_listedBy newer name'
  · exact names_listedBy older name

theorem readComment_congr {raw raw' : Members}
    (short : (member raw' "shortText").displayOrEmpty = (member raw "shortText").displayOrEmpty)
    (text : (member raw' "text").displayOrEmpty = (member raw "text").displayOrEmpty)
    (returns : (member raw' "returns").displayOrEmpty = (member raw "returns").displayOrEmpty)
    (summary : joinParts (member raw' "summary") = joinParts (member raw "summary"))
    (tags : returnsTag (member raw' "blockTags") = returnsTag (member raw "blockTags")) :
    readComment (.object raw') = readComment (.object raw) := by
  simp only [readComment, short, text, returns, summary, tags]

/-- Two runs through nodes that correspond. -/
theorem ListedBy.eachNode {ν ν' α α' : Type} {f : Nat → Nat} {R : Nat → Members → Members → Prop}
    {S : α → α' → Prop} {m m' : Members} {key : Text} {g : Nat → Members → Journal ν Fault α}
    {g' : Nat → Members → Journal ν' Fault α'} (h : ListedBy f R (member m key) (member m' key))
    (step : ∀ i n n', sizeOf n < sizeOf m → R i n n' → Journal.Alike S (g i n) (g' (f i) n')) :
    Journal.Alike (List.Forall₂ S) (eachNode m key g) (eachNode m' key g') := by
  refine Journal.Alike.bind h fun l l' hl hll => ?_
  refine Journal.alike_mapM hll fun c hc c' hcc => ?_
  rw [hcc.1]
  exact step _ _ _ (sizeOf_lt_of_mem_nodes (i := c.1) hl hc) hcc.2

private theorem sizeOf_lt_of_mem_elements {raw m : Members} {key : Text} {items : List Value}
    {item : Value} (h : elements (member raw key) = .ok items) (hi : item ∈ items)
    (hm : asObject? item = some m) : sizeOf m < sizeOf raw := by
  have hn := nodes_eq_elements (member raw key)
  rw [h] at hn
  obtain ⟨i, hmem⟩ : ∃ i, (i, m) ∈ objectsFrom 0 items := by
    clear h hn
    generalize 0 = k
    induction items generalizing k with
    | nil => cases hi
    | cons item' rest ih =>
      rw [objectsFrom_cons]
      rcases List.mem_cons.1 hi with rfl | hi
      · exact ⟨k, by simp [hm]⟩
      · obtain ⟨i, hi⟩ := ih hi (k + 1)
        exact ⟨i, List.mem_append_right _ hi⟩
  exact sizeOf_lt_of_mem_nodes hn hmem

/-- The same, where what is no object has to correspond, too. -/
theorem ListedWhole.eachElement {ν ν' α α' : Type} {R : Nat → Members → Members → Prop}
    {S : α → α' → Prop} {m m' : Members} {key : Text} {f : Nat → Option Members → Journal ν Fault α}
    {f' : Nat → Option Members → Journal ν' Fault α'}
    (h : ListedWhole R (member m key) (member m' key))
    (step : ∀ i n n', sizeOf n < sizeOf m → R i n n' →
      Journal.Alike S (f i (some n)) (f' i (some n')))
    (other : ∀ i, Journal.Alike S (f i none) (f' i none)) :
    Journal.Alike (List.Forall₂ S) (eachElement m key f) (eachElement m' key f') := by
  refine Journal.Alike.bind h fun l l' hl hll => ?_
  refine Journal.alike_mapM hll fun c hc c' ⟨hi, hcc⟩ => ?_
  have hmem : c.1 ∈ l := List.fst_mem_of_mem_zipIdx hc
  rw [hi]
  cases ho : asObject? c.1 with
  | none =>
    rw [ho] at hcc
    cases ho' : asObject? c'.1 with
    | none => exact other _
    | some n' =>
      rw [ho'] at hcc
      cases hcc
  | some n =>
    rw [ho] at hcc
    cases ho' : asObject? c'.1 with
    | none =>
      rw [ho'] at hcc
      cases hcc
    | some n' =>
      rw [ho'] at hcc
      cases hcc with
      | some hn => exact step _ _ _ (sizeOf_lt_of_mem_elements hl hmem ho) hn

theorem object?_eq_asObject? (raw : Members) (key : Text) :
    object? raw key = asObject? (member raw key) := by
  unfold object? asObject?
  cases member raw key <;> rfl

/-! ## Inline declarations -/

/-- A relation of values, each at its address, that goes on to what is inside them: to the inline
declarations as `D`, and else to all items and members. -/
structure Descends (S : Pointer → Pointer → Value → Value → Prop)
    (D : Pointer × Members → Pointer × Members → Prop) : Prop where
  array : ∀ {p p' items v'}, S p p' (.array items) v' → ∃ items', v' = .array items' ∧
    Spaced (fun i j => S (.index i :: p) (.index j :: p')) 0 0 items items'
  object : ∀ {p p' m v'}, S p p' (.object m) v' → ∃ m', v' = .object m' ∧
    Option.Rel (fun d d' => D (.key "declaration" :: p, d) (.key "declaration" :: p', d'))
      (inlineDeclaration? m) (inlineDeclaration? m') ∧
    (inlineDeclaration? m = none →
      List.Forall₂ (fun e e' => S (.key e.1 :: p) (.key e'.1 :: p') e.2 e'.2) m m')
  plain : ∀ {p p' v v'}, v.isContainer = false → S p p' v v' → v'.isContainer = false

theorem member_of_inlineDeclaration? {m d : Members} (h : inlineDeclaration? m = some d) :
    member m "declaration" = .object d :=
  (inlineDeclaration?_eq_some.1 h).2

theorem inlineIn_of_not_isContainer {v : Value} (h : v.isContainer = false) (p : Pointer) :
    inlineIn p v = [] := by
  cases v with
  | array items => cases h
  | object m => cases h
  | _ => rfl

section

variable {S : Pointer → Pointer → Value → Value → Prop}
  {D : Pointer × Members → Pointer × Members → Prop} {p p' : Pointer}

private theorem inlineInItems_spaced {i j : Nat} {items items' : List Value}
    (h : Spaced (fun i j v v' => List.Forall₂ D (inlineIn (.index i :: p) v)
      (inlineIn (.index j :: p') v')) i j items items') :
    List.Forall₂ D (inlineInItems p i items) (inlineInItems p' j items') := by
  induction h with
  | nil => exact .nil
  | item hv _ ih =>
    rw [inlineInItems, inlineInItems]
    exact List.rel_append hv ih
  | further plain _ ih =>
    rw [inlineInItems, inlineIn_of_not_isContainer plain, List.nil_append]
    exact ih

private theorem inlineInMembers_forall₂ {m m' : Members}
    (h : List.Forall₂ (fun e e' => List.Forall₂ D (inlineIn (.key e.1 :: p) e.2)
      (inlineIn (.key e'.1 :: p') e'.2)) m m') :
    List.Forall₂ D (inlineInMembers p m) (inlineInMembers p' m') := by
  induction h with
  | nil => exact .nil
  | cons he _ ih =>
    rw [inlineInMembers, inlineInMembers]
    exact List.rel_append he ih

private theorem forall₂_imp_mem {α β : Type} {R R' : α → β → Prop} {l : List α} {l' : List β}
    (h : List.Forall₂ R l l') (step : ∀ a ∈ l, ∀ b, R a b → R' a b) : List.Forall₂ R' l l' := by
  induction h with
  | nil => exact .nil
  | cons ha _ ih =>
    exact .cons (step _ (List.mem_cons_self ..) _ ha) (ih fun a hm => step a (List.mem_cons_of_mem _ hm))

/-- Values that correspond have inline declarations that do. -/
theorem inlineIn_descends (h : Descends S D) (v : Value) {v' : Value} {p p' : Pointer}
    (hv : S p p' v v') : List.Forall₂ D (inlineIn p v) (inlineIn p' v') := by
  match v with
  | .array items =>
    obtain ⟨items', rfl, hitems⟩ := h.array hv
    rw [inlineIn, inlineIn]
    exact inlineInItems_spaced (hitems.imp fun item hi _ _ _ hs => inlineIn_descends h item hs)
  | .object m =>
    obtain ⟨m', rfl, declared, members⟩ := h.object hv
    rw [inlineIn, inlineIn]
    generalize inlineDeclaration? m = o, inlineDeclaration? m' = o' at declared members
    cases declared with
    | none =>
      exact inlineInMembers_forall₂ (forall₂_imp_mem (members rfl) fun e he _ hs =>
        inlineIn_descends h e.2 hs)
    | some hd => exact .cons hd .nil
  | .null | .bool _ | .int _ | .float _ | .text _ =>
    rw [inlineIn, inlineIn_of_not_isContainer (h.plain rfl hv)]
    exact .nil
termination_by sizeOf v
decreasing_by
  · have := List.sizeOf_lt_of_mem hi
    simp only [Value.array.sizeOf_spec]
    omega
  · have small := List.sizeOf_lt_of_mem he
    obtain ⟨key, w⟩ := e
    simp only [Prod.mk.sizeOf_spec] at small
    simp only [Value.object.sizeOf_spec]
    omega

end

end DocShape.Document
