import DocShape.Proofs.Config.Layers

/-!
The same update twice. The second merge of an update changes nothing just where each of its additive lists
that meets no list of the base ascends without repeats already (`mergeMembers_again`): such a list is taken
as it is at first, and is sorted when it meets itself (`mergeMembers_again_overNothing`). A list that is
united with one of the base ascends from then on.

The proof is by induction on the values of the update. An object that meets no object is merged with itself
the second time, which is the case of an update of nothing (`mergeMembers_nil`).
-/

namespace DocShape.Config

open Json

/-! ## Nothing to do -/

theorem mergeMember_none (key : Text) (v : Value) : mergeMember key none v = .ok v := by
  rw [mergeMember.eq_def]
  cases v <;> rfl

theorem mergeMembers_append {base : Members} {update : Members}
    (nodup : (Table.keys (base ++ update)).Nodup) : mergeMembers base update = .ok (base ++ update) := by
  induction update generalizing base with
  | nil => rw [mergeMembers, List.append_nil]
  | cons entry rest ih =>
    obtain ⟨key, v⟩ := entry
    have absent : key ∉ Table.keys base := by
      rw [Table.keys, List.map_append] at nodup
      exact fun hk => List.disjoint_of_nodup_append nodup hk (List.mem_cons_self ..)
    have none : member? base key = none := Table.get?_eq_none_iff.2 absent
    have next : mergeMembers (base ++ [(key, v)]) rest = .ok (base ++ [(key, v)] ++ rest) :=
      ih (by rwa [List.append_assoc])
    rw [mergeMembers, none, mergeMember_none]
    show mergeMembers (Table.put base key v) rest = _
    rw [Table.put_of_not_mem absent, next, List.append_assoc]
    rfl

/-- An update of nothing is taken as it is. -/
theorem mergeMembers_nil {update : Members} (distinct : (Value.object update).hasDistinctKeys) :
    mergeMembers [] update = .ok update :=
  mergeMembers_append (distinctKeysInMembers_iff.1 distinct).1

/-- An update changes nothing just where none of its members does. -/
theorem mergeMembers_self_iff {base update : Members} (nodup : (Table.keys update).Nodup) :
    mergeMembers base update = .ok base ↔ ∀ key v, member? update key = some v →
      ∃ w, member? base key = some w ∧ mergeMember key (some w) v = .ok w := by
  constructor
  · intro h key v hv
    obtain ⟨w, hw, hmember⟩ := (mergeMembers_member h nodup key).2 v hv
    rw [hmember] at hw
    exact ⟨w, hmember, hw⟩
  · intro h
    have each : ∀ e ∈ update, ∃ w, member? base e.1 = some w ∧ mergeMember e.1 (some w) e.2 = .ok w :=
      fun e he => h e.1 e.2 (Table.lookup_of_mem nodup he)
    clear h nodup
    induction update with
    | nil => rw [mergeMembers]
    | cons entry rest ih =>
      obtain ⟨⟨w, hw, same⟩, others⟩ := List.forall_mem_cons.1 each
      rw [mergeMembers, hw, same]
      show mergeMembers (Table.put base entry.1 w) rest = _
      rw [Table.put_of_get? hw]
      exact ih others

/-! ## Lists under additive keys -/

/-- The list that a value has at a path under an additive key. -/
def AdditiveAt (v : Value) (path : List Text) (entries : List Value) : Prop :=
  valueAt? v path = some (.array entries) ∧ EndsAdditive path

/-- The list that the value of a member has at a path under an additive key. -/
def AdditiveUnder (key : Text) (v : Value) (path : List Text) (entries : List Value) : Prop :=
  valueAt? v path = some (.array entries) ∧ EndsAdditive (key :: path)

section

variable {members : Members} {key : Text} {path : List Text} {entries items : List Value} {v : Value}

theorem not_additiveAt_nil : ¬ AdditiveAt v [] entries := by
  rintro ⟨-, key, h, -⟩
  cases h

theorem additiveAt_cons : AdditiveAt (.object members) (key :: path) entries ↔
    ∃ v, member? members key = some v ∧ AdditiveUnder key v path entries := by
  simp only [AdditiveAt, AdditiveUnder, valueAt?_cons, Option.bind_eq_some_iff]
  constructor
  · rintro ⟨⟨v, hv, h⟩, ends⟩
    exact ⟨v, hv, h, ends⟩
  · rintro ⟨v, hv, h, ends⟩
    exact ⟨⟨v, hv, h⟩, ends⟩

theorem additiveUnder_object :
    AdditiveUnder key (.object members) path entries ↔ AdditiveAt (.object members) path entries := by
  cases path with
  | nil =>
    refine iff_of_false ?_ not_additiveAt_nil
    rintro ⟨h, -⟩
    cases h
  | cons next path => exact and_congr_right fun _ => endsAdditive_cons_cons

theorem additiveUnder_array :
    AdditiveUnder key (.array items) path entries ↔ path = [] ∧ entries = items ∧ isAdditive key := by
  cases path with
  | nil =>
    rw [AdditiveUnder, endsAdditive_singleton]
    constructor
    · rintro ⟨⟨⟩, additive⟩
      exact ⟨rfl, rfl, additive⟩
    · rintro ⟨-, rfl, additive⟩
      exact ⟨rfl, additive⟩
  | cons next path =>
    refine iff_of_false ?_ (by simp)
    rintro ⟨h, -⟩
    cases h

theorem not_additiveUnder_scalar (h : v.isContainer = false) : ¬ AdditiveUnder key v path entries := by
  rintro ⟨hv, -⟩
  cases v with
  | array | object => cases h
  | _ => cases path <;> cases hv

end

/-- All entries of additive lists have places: none of them is no number. -/
def HasPlaces (v : Value) : Prop := ∀ path entries, AdditiveAt v path entries → ∀ e ∈ entries, HasPlace e

def HasPlacesUnder (key : Text) (v : Value) : Prop :=
  ∀ path entries, AdditiveUnder key v path entries → ∀ e ∈ entries, HasPlace e

/-- The additive lists of an update that meet no list of the base ascend. -/
def Settled (base update : Members) : Prop :=
  ∀ path entries, AdditiveAt (.object update) path entries →
    (∀ met, valueAt? (.object base) path ≠ some (.array met)) → Ascending entries

def SettledUnder (key : Text) (old : Option Value) (v : Value) : Prop :=
  ∀ path entries, AdditiveUnder key v path entries →
    (∀ met, old.bind (valueAt? · path) ≠ some (.array met)) → Ascending entries

section

variable {base update members : Members} {key : Text} {old : Option Value} {new : List Value} {v : Value}

theorem HasPlaces.under (h : HasPlaces (.object members)) (hv : member? members key = some v) :
    HasPlacesUnder key v :=
  fun path entries hp => h (key :: path) entries (additiveAt_cons.2 ⟨v, hv, hp⟩)

theorem hasPlacesUnder_object : HasPlacesUnder key (.object members) ↔ HasPlaces (.object members) := by
  simp only [HasPlacesUnder, HasPlaces, additiveUnder_object]

theorem hasPlacesUnder_array (additive : isAdditive key) (h : HasPlacesUnder key (.array new)) :
    ∀ e ∈ new, HasPlace e := h [] new (additiveUnder_array.2 ⟨rfl, rfl, additive⟩)

theorem settled_iff : Settled base update ↔
    ∀ key v, member? update key = some v → SettledUnder key (member? base key) v := by
  constructor
  · intro h key v hv path entries hp
    exact h (key :: path) entries (additiveAt_cons.2 ⟨v, hv, hp⟩)
  · intro h path entries hp
    cases path with
    | nil => exact absurd hp not_additiveAt_nil
    | cons key path =>
      obtain ⟨v, hv, hp⟩ := additiveAt_cons.1 hp
      exact h key v hv path entries hp

theorem settledUnder_objects :
    SettledUnder key (some (.object base)) (.object update) ↔ Settled base update := by
  simp only [SettledUnder, Settled, additiveUnder_object, Option.bind_some]

/-- An object that meets no object has nothing to meet further inside. -/
theorem settledUnder_object (other : ∀ members, old ≠ some (.object members)) :
    SettledUnder key old (.object update) ↔ Settled [] update := by
  have nothing : ∀ next path, old.bind (valueAt? · (next :: path)) = none := by
    intro next path
    cases old with
    | none => rfl
    | some v => exact valueAt?_of_not_object (fun members he => other members (congrArg some he)) _ _
  simp only [SettledUnder, Settled, additiveUnder_object]
  refine forall₂_congr fun path entries => forall_congr' fun hp => ?_
  cases path with
  | nil => exact absurd hp not_additiveAt_nil
  | cons next path =>
    rw [nothing]
    rfl

theorem settledUnder_array : SettledUnder key old (.array new) ↔
    (isAdditive key → (∀ met, old ≠ some (.array met)) → Ascending new) := by
  have whole : old.bind (valueAt? · []) = old := by cases old <;> rfl
  constructor
  · intro h additive unmet
    exact h [] new (additiveUnder_array.2 ⟨rfl, rfl, additive⟩) (by rwa [whole])
  · intro h path entries hp
    obtain ⟨rfl, rfl, additive⟩ := additiveUnder_array.1 hp
    rw [whole]
    exact h additive

theorem settledUnder_scalar (h : v.isContainer = false) : SettledUnder key old v :=
  fun _ _ hp => absurd hp (not_additiveUnder_scalar h)

end

/-! ## The same update twice -/

/-- The second merge of a value under a key changes nothing just where the value is settled. -/
def SettlesAlike (v : Value) : Prop :=
  ∀ key old w, v.hasDistinctKeys → HasPlacesUnder key v → (∀ o, old = some o → HasPlacesUnder key o) →
    mergeMember key old v = .ok w → (mergeMember key (some w) v = .ok w ↔ SettledUnder key old v)

section

variable {base update merged : Members}

/-- An update whose values settle, member by member. -/
theorem mergeMembers_again_of_parts (settles : ∀ e ∈ update, SettlesAlike e.2)
    (distinct : (Value.object update).hasDistinctKeys) (hb : HasPlaces (.object base))
    (hu : HasPlaces (.object update)) (h : mergeMembers base update = .ok merged) :
    mergeMembers merged update = .ok merged ↔ Settled base update := by
  obtain ⟨nodup, below⟩ := distinctKeysInMembers_iff.1 distinct
  rw [mergeMembers_self_iff nodup, settled_iff]
  refine forall₂_congr fun key v => forall_congr' fun hv => ?_
  obtain ⟨w, hw, hmerged⟩ := (mergeMembers_member h nodup key).2 v hv
  have member := Table.mem_of_get? hv
  have here := settles _ member key _ w (below _ member) (hu.under hv)
    (fun o ho => hb.under ho) hw
  rw [hmerged, ← here]
  simp

theorem mergeMember_array_other {key : Text} {old : Option Value} (new : List Value)
    (unmet : ¬ (isAdditive key ∧ ∃ met, old = some (.array met))) :
    mergeMember key old (.array new) = .ok (.array new) := by
  rw [mergeMember.eq_def]
  dsimp only
  split
  · rename_i met
    exact if_neg fun additive => unmet ⟨additive, met, rfl⟩
  · rfl

theorem settlesAlike (v : Value) : SettlesAlike v := by
  refine Value.byParts (fun v parts => ?_) v
  intro key old w distinct places placesOld h
  cases v with
  | object update =>
    have settles : ∀ e ∈ update, SettlesAlike e.2 := fun e he => parts e.2 (List.mem_map_of_mem he)
    have hu := hasPlacesUnder_object.1 places
    rcases mergeMember_object_cases h with ⟨base, merged, rfl, hm, rfl⟩ | ⟨other, rfl⟩
    · have hb := hasPlacesUnder_object.1 (placesOld _ rfl)
      simp only [mergeMember, map_eq_ok, Value.object.injEq, exists_eq_right', settledUnder_objects]
      exact mergeMembers_again_of_parts settles distinct hb hu hm
    · have hb : HasPlaces (.object []) := by
        intro path entries hp
        cases path with
        | nil => exact absurd hp not_additiveAt_nil
        | cons key path => cases hp.1
      simp only [mergeMember, map_eq_ok, Value.object.injEq, exists_eq_right', settledUnder_object other]
      exact mergeMembers_again_of_parts settles distinct hb hu (mergeMembers_nil distinct)
  | array new =>
    rw [settledUnder_array]
    by_cases united : isAdditive key ∧ ∃ met, old = some (.array met)
    · obtain ⟨additive, met, rfl⟩ := united
      rw [mergeMember_arrays, if_pos additive] at h
      obtain ⟨all, hall, rfl⟩ := map_eq_ok.1 h
      have placesMet := hasPlacesUnder_array additive (placesOld _ rfl)
      have placesNew := hasPlacesUnder_array additive places
      rw [mergeMember_arrays, if_pos additive, unite_again placesMet placesNew hall]
      exact iff_of_true rfl fun _ unmet => absurd rfl (unmet met)
    · rw [mergeMember_array_other new united] at h
      cases h
      by_cases additive : isAdditive key
      · have unmet : ∀ met, old ≠ some (.array met) := fun met he => united ⟨additive, met, he⟩
        rw [mergeMember_arrays, if_pos additive, map_eq_ok]
        simp only [Value.array.injEq, exists_eq_right', additive, unmet, ne_eq, not_false_eq_true,
          implies_true, forall_const]
        exact unite_self_iff (hasPlacesUnder_array additive places)
      · rw [mergeMember_arrays, if_neg additive]
        exact iff_of_true rfl fun h => absurd h additive
  | _ =>
    refine iff_of_true ?_ (settledUnder_scalar rfl)
    rw [mergeMember.eq_def] at h ⊢
    exact h

/-- The same update laid over its own result changes nothing just where its additive lists that meet no list
of the base ascend without repeats. -/
theorem mergeMembers_again (distinct : (Value.object update).hasDistinctKeys)
    (hb : HasPlaces (.object base)) (hu : HasPlaces (.object update))
    (h : mergeMembers base update = .ok merged) :
    mergeMembers merged update = .ok merged ↔ Settled base update :=
  mergeMembers_again_of_parts (fun e _ => settlesAlike e.2) distinct hb hu h

end

/-- Two names that are skipped, out of order. -/
def skipped : Members := [("skip", .array [.text "b", .text "a"])]

private theorem additiveAt_single {items entries : List Value} {path : List Text}
    (h : AdditiveAt (.object [("skip", .array items)]) path entries) : path = ["skip"] ∧ entries = items := by
  cases path with
  | nil => exact absurd h not_additiveAt_nil
  | cons key path =>
    obtain ⟨v, hv, h⟩ := additiveAt_cons.1 h
    obtain ⟨⟨⟩⟩ := List.mem_singleton.1 (Table.mem_of_get? hv)
    obtain ⟨rfl, rfl, -⟩ := additiveUnder_array.1 h
    exact ⟨rfl, rfl⟩

/-- Over a list they are sorted at once, and stay. -/
theorem mergeMembers_again_overList : ∃ merged, mergeMembers [("skip", .array [])] skipped = .ok merged ∧
    SkipsExactly merged ["a", "b"] ∧ mergeMembers merged skipped = .ok merged := by
  obtain ⟨merged, hm, hs⟩ : ∃ merged, mergeMembers [("skip", .array [])] skipped = .ok merged ∧
      SkipsExactly merged ["a", "b"] := ⟨_, rfl, rfl, by decide⟩
  have base : HasPlaces (.object [("skip", .array [])]) := by
    intro path entries h
    rw [(additiveAt_single h).2]
    exact nofun
  have update : HasPlaces (.object skipped) := by
    intro path entries h
    rw [(additiveAt_single h).2]
    simp [HasPlace]
  have settled : Settled [("skip", .array [])] skipped := by
    intro path entries h unmet
    obtain ⟨rfl, -⟩ := additiveAt_single h
    exact absurd rfl (unmet [])
  exact ⟨merged, hm, hs, (mergeMembers_again (by decide) base update hm).2 settled⟩

/-- Over nothing they are taken as they are, and sorted when they are merged again. -/
theorem mergeMembers_again_overNothing : ∃ merged again, mergeMembers [] skipped = .ok merged ∧
    mergeMembers merged skipped = .ok again ∧ again ≠ merged := by
  refine ⟨skipped, [("skip", .array [.text "a", .text "b"])], rfl, rfl, fun same => ?_⟩
  have names : (["a", "b"] : List Text) = ["b", "a"] := by simpa [skipped] using same
  exact absurd names (by decide)

end DocShape.Config
