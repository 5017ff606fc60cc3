import DocShape.Proofs.Document.Twins

/-!
Nodes that are moved as they are. `relocate` gives new addresses to what lies below the items of one
array, `insertAt` puts a place in at one depth, and `Twins.same` has a document as its own twin where all
that it holds is moved so.
-/

namespace DocShape

open Json (Pointer Step)

/-! ## Addresses below one array -/

namespace Document

variable {base : Pointer} {code : Nat → Pointer}

/-- The address after the item at each position of one array has moved to `code`. -/
def relocate (base : Pointer) (code : Nat → Pointer) : Pointer → Pointer
  | [] => []
  | .index i :: rest =>
    if rest = base then code i ++ base else .index i :: relocate base code rest
  | .key name :: rest => .key name :: relocate base code rest

@[simp] theorem relocate_item (i : Nat) :
    relocate base code (.index i :: base) = code i ++ base := by
  rw [relocate, if_pos rfl]

theorem relocate_cons {p : Pointer} (s : Step) (h : p ≠ base) :
    relocate base code (s :: p) = s :: relocate base code p := by
  cases s with
  | index i => rw [relocate, if_neg h]
  | key name => rw [relocate]

theorem relocate_below (c : Pointer) (i : Nat) :
    relocate base code (c ++ .index i :: base) = c ++ (code i ++ base) := by
  induction c with
  | nil => exact relocate_item i
  | cons s c ih =>
    have longer : c ++ .index i :: base ≠ base := fun h => by
      have := congrArg List.length h
      simp only [List.length_append, List.length_cons] at this
      omega
    rw [List.cons_append, relocate_cons s longer, ih, List.cons_append]

theorem relocate_elsewhere {p : Pointer} (h : ∀ c i, p ≠ c ++ .index i :: base) :
    relocate base code p = p := by
  induction p with
  | nil => rfl
  | cons s p ih =>
    have rest := ih fun c i hp => h (s :: c) i (by rw [hp, List.cons_append])
    cases s with
    | index i =>
      have other : p ≠ base := fun hp => h [] i (by rw [hp, List.nil_append])
      rw [relocate_cons _ other, rest]
    | key name => rw [relocate, rest]

/-- No new position lies inside another one, and all are items. -/
structure Codes (code : Nat → Pointer) : Prop where
  free : ∀ i j c c', c ++ code i = c' ++ code j → i = j ∧ c = c'
  item : ∀ i, ∃ c j, code i = c ++ [.index j]

theorem relocate_injective (h : Codes code) : Function.Injective (relocate base code) := by
  -- What is moved stays below the array, so that it meets nothing that is not moved.
  have meets : ∀ c i p, (∀ c j, p ≠ c ++ .index j :: base) → c ++ (code i ++ base) ≠ p := by
    rintro c i p hp rfl
    obtain ⟨k, j, hk⟩ := h.item i
    exact hp (c ++ k) j (by simp [hk])
  intro p q hpq
  by_cases hp : ∃ c i, p = c ++ .index i :: base
  · obtain ⟨c, i, rfl⟩ := hp
    by_cases hq : ∃ c i, q = c ++ .index i :: base
    · obtain ⟨c', j, rfl⟩ := hq
      rw [relocate_below, relocate_below, ← List.append_assoc, ← List.append_assoc] at hpq
      obtain ⟨rfl, rfl⟩ := h.free i j c c' (List.append_cancel_right hpq)
      rfl
    · simp only [not_exists] at hq
      rw [relocate_below, relocate_elsewhere hq] at hpq
      exact absurd hpq (meets c i q hq)
  · simp only [not_exists] at hp
    rw [relocate_elsewhere hp] at hpq
    by_cases hq : ∃ c i, q = c ++ .index i :: base
    · obtain ⟨c', j, rfl⟩ := hq
      rw [relocate_below] at hpq
      exact absurd hpq.symm (meets c' j p hp)
    · simp only [not_exists] at hq
      rw [relocate_elsewhere hq] at hpq
      exact hpq

/-- The renaming of a document in which the items of a list have new positions. -/
def reordering (base : Pointer) (f : Nat → Nat) (hf : Function.Injective f) : Renaming where
  address := relocate base fun i => [.index (f i)]
  around _ place := place
  id := id
  unmodelled := id
  address_injective := relocate_injective
    { free := fun i j c c' h => by
        obtain ⟨hc, hs⟩ := List.append_inj' h rfl
        exact ⟨hf (by simpa using hs), hc⟩
      item := fun i => ⟨[], f i, rfl⟩ }
  around_padded := Place.padded_same
  unmodelled_injective := Renaming.sources_injective

end Document

/-! ## A place put in -/

namespace Place

/-- Puts a segment around the `n` outermost ones. -/
def insertAt (n : Nat) (w : Segment) : Place → Place
  | [] => []
  | s :: rest => if rest.length + 1 = n then w :: s :: rest else s :: insertAt n w rest

theorem insertAt_padded {w : Segment} (hw : w.kind = some .externalModule) (n : Nat) :
    ∀ place : Place, place.Padded (insertAt n w place)
  | [] => .nil
  | s :: rest => by
    rw [insertAt]
    split
    · exact .fileModule hw (.refl _)
    · exact (insertAt_padded hw n rest).cons s

theorem insertAt_cons {n : Nat} {w : Segment} {place : Place} (h : n ≤ place.length)
    (s : Segment) : insertAt n w (s :: place) = s :: insertAt n w place := by
  rw [insertAt, if_neg (by omega)]

theorem insertAt_length {n : Nat} {w : Segment} {place : Place} (h : place.length = n + 1) :
    insertAt (n + 1) w place = w :: place := by
  cases place with
  | nil => simp at h
  | cons s rest => rw [insertAt, if_pos (by simpa using h)]

end Place

namespace Document

open Json

/-! ## Nodes that stay as they are -/

section

variable {r : Renaming} (region : Region r)

/-- What a value in the region holds is there again at the new address. -/
private theorem descends_moved :
    Descends (fun p p' v v' => region.inside p ∧ p' = r.address p ∧ v' = v)
      (Moved region.zone fun _ => Eq) where
  array := by
    rintro p _ items _ ⟨hp, rfl, rfl⟩
    exact ⟨items, rfl, .of_forall₂ (List.forall₂_same.2 fun item _ i =>
      ⟨region.inside_cons _ hp, (region.address_cons _ hp).symm, rfl⟩) 0⟩
  object := by
    rintro p _ m _ ⟨hp, rfl, rfl⟩
    refine ⟨m, rfl, ?_, fun _ => List.forall₂_same.2 fun e _ =>
      ⟨region.inside_cons _ hp, (region.address_cons _ hp).symm, rfl⟩⟩
    cases inlineDeclaration? m with
    | none => exact .none
    | some d => exact .some ⟨region.inside_cons _ hp, (region.address_cons _ hp).symm, rfl⟩
  plain := by
    rintro p _ v _ hv ⟨-, -, rfl⟩
    exact hv

private theorem ownsAlike_same {p : Pointer} (hp : region.inside p) (m : Members) :
    OwnsAlike region.zone (fun _ => Eq) (fun _ => Eq) p m m where
  comment := rfl
  type := by
    unfold BothObjects
    cases asObject? (member m "type") with
    | none => exact .none
    | some n => exact .some rfl
  inlined := inlineIn_descends (descends_moved region) _ ⟨region.inside_cons _ hp, rfl, rfl⟩

/-- A document is its own twin where ids and nodes that are not modelled stay. -/
def Twins.same (ids : r.id = id) (sources : r.unmodelled = id) (numbering : Numbering) :
    Twins r region.zone numbering numbering where
  declaration _ := Eq
  signature _ := Eq
  parameter _ := Eq
  type _ := Eq
  target := Eq
  header := by
    rintro _ m _ rfl
    exact (Header.map_rename_eq_self (congrFun ids) _).symm
  owner := by
    rintro _ m _ hp rfl
    exact ownsAlike_same region hp m
  typeParameters := by
    rintro _ m _ rfl
    rfl
  signatures := by
    rintro _ m _ rfl
    exact (listed_refl (fun _ => rfl) _).at region _
  children := by
    rintro _ m _ rfl
    exact (listed_refl (fun _ => rfl) _).at region _
  signatureName := by
    rintro _ m _ rfl
    rfl
  signatureOwner := by
    rintro _ m _ hp rfl
    exact ownsAlike_same region hp m
  positions _ _ := rfl
  parameters := by
    rintro _ m _ rfl
    exact (listed_refl (fun _ => rfl) _).whole
  parameterName := by
    rintro _ m _ rfl
    rfl
  parameterOwner := by
    rintro _ m _ hp rfl
    exact ownsAlike_same region hp m
  parameterOptional := by
    rintro _ m _ rfl
    rfl
  form := by
    rintro _ m _ rfl
    have source : sourceNode m = (sourceNode m).rename r := by
      unfold sourceNode unmodelled
      rw [TypeNode.rename, sources]
      rfl
    have objects : ∀ v, BothObjects Eq v v := fun v => by
      cases v <;> first | exact .none | exact .some rfl
    have lists : ∀ p v, ListedAt region.zone (fun _ => Eq) p v v := fun p v =>
      (listed_refl (fun _ => rfl) v).at region p
    exact formAlike_of_category rfl (fun _ => source) (fun _ => rfl) (fun _ => rfl)
      (fun _ => objects _) (fun _ => objects _) (fun g _ => lists _ _) (fun _ => lists _ _) fun _ => rfl

end

end Document

end DocShape
