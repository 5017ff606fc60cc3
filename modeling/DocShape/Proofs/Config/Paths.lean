import DocShape.Config.Settings
import DocShape.Proofs.Json.Keys

/-!
Merged configurations, path by path. A member that both sides have as an object is merged inside, and every
other member of an update takes the place of the old one. So a path of keys is lost just where the update
has something else than an object on the way to it (`mergeMembers_path`).
-/

namespace DocShape.Config

open Json

/-- The value at a path of keys inside a value. -/
def valueAt? : Value → List Text → Option Value
  | v, [] => some v
  | .object members, key :: path => (member? members key).bind (valueAt? · path)
  | _, _ :: _ => none

/-- A value has a path of keys. -/
def HasPath (v : Value) (path : List Text) : Prop := (valueAt? v path).isSome

instance (v : Value) (path : List Text) : Decidable (HasPath v path) :=
  inferInstanceAs (Decidable ((valueAt? v path).isSome = true))

/-- A value has something else than an object on the way to a path. -/
def CutsOff (v : Value) (path : List Text) : Prop :=
  ∃ way rest, way ≠ [] ∧ rest ≠ [] ∧ path = way ++ rest ∧
    ∃ w, valueAt? v way = some w ∧ ∀ members, w ≠ .object members

/-! ## One key -/

section

variable {members : Members} {key : Text} {path : List Text} {v : Value}

theorem hasPath_cons : HasPath (.object members) (key :: path) ↔
    ∃ v, member? members key = some v ∧ HasPath v path := by
  simp only [HasPath, valueAt?, Option.isSome_iff_exists, Option.bind_eq_some_iff]
  constructor
  · rintro ⟨w, v, hv, hw⟩
    exact ⟨v, hv, w, hw⟩
  · rintro ⟨v, hv, w, hw⟩
    exact ⟨w, v, hv, hw⟩

theorem not_hasPath_cons (h : ∀ members, v ≠ .object members) : ¬ HasPath v (key :: path) := by
  cases v with
  | object members => exact absurd rfl (h members)
  | _ => simp [HasPath, valueAt?]

theorem valueAt?_cons (members : Members) (key : Text) (path : List Text) :
    valueAt? (.object members) (key :: path) = (member? members key).bind (valueAt? · path) := rfl

theorem valueAt?_of_not_object (h : ∀ members, v ≠ .object members) (key : Text) (path : List Text) :
    valueAt? v (key :: path) = none :=
  Option.not_isSome_iff_eq_none.1 (not_hasPath_cons h)

theorem cutsOff_cons : CutsOff (.object members) (key :: path) ↔ path ≠ [] ∧
    ∃ v, member? members key = some v ∧ ((∀ members, v ≠ .object members) ∨ CutsOff v path) := by
  constructor
  · rintro ⟨_ | ⟨_, way⟩, rest, hway, hrest, hpath, w, hw, other⟩
    · exact absurd rfl hway
    · obtain ⟨rfl, rfl⟩ := List.cons.inj hpath
      obtain ⟨v, hv, hw⟩ := Option.bind_eq_some_iff.1 hw
      refine ⟨by simp [hrest], v, hv, ?_⟩
      cases way with
      | nil =>
        cases hw
        exact Or.inl other
      | cons next way => exact Or.inr ⟨_, rest, List.cons_ne_nil _ _, hrest, rfl, w, hw, other⟩
  · rintro ⟨hpath, v, hv, other | ⟨way, rest, -, hrest, rfl, w, hw, other⟩⟩
    · refine ⟨[key], path, List.cons_ne_nil _ _, hpath, rfl, v, ?_, other⟩
      simp [valueAt?, hv]
    · refine ⟨key :: way, rest, List.cons_ne_nil _ _, hrest, rfl, w, ?_, other⟩
      simp [valueAt?, hv, hw]

/-- A path of two keys can only be cut off at the first one. -/
theorem CutsOff.first {key' : Text} (h : CutsOff v [key, key']) :
    ∃ w, valueAt? v [key] = some w ∧ ∀ members, w ≠ .object members := by
  obtain ⟨way, rest, hway, hrest, hpath, w, hw, other⟩ := h
  obtain ⟨k, way, rfl⟩ := List.exists_cons_of_ne_nil hway
  obtain ⟨rfl, hbelow⟩ := List.cons.inj hpath
  cases way with
  | nil => exact ⟨w, hw, other⟩
  | cons k way =>
    have none : [] = way ++ rest := (List.cons.inj hbelow).2
    exact absurd (List.append_eq_nil_iff.1 none.symm).2 hrest

end

/-! ## Merging -/

/-- What a merge leaves under a key: the old value, or what the new one makes of it. -/
theorem mergeMembers_member {base update merged : Members} (h : mergeMembers base update = .ok merged)
    (nodup : (Table.keys update).Nodup) (key : Text) :
    (member? update key = none → member? merged key = member? base key) ∧
      ∀ v, member? update key = some v →
        ∃ w, mergeMember key (member? base key) v = .ok w ∧ member? merged key = some w := by
  induction update generalizing base with
  | nil =>
    cases h
    refine ⟨fun _ => rfl, ?_⟩
    rintro _ ⟨⟩
  | cons entry rest ih =>
    obtain ⟨k, u⟩ := entry
    rw [mergeMembers] at h
    obtain ⟨x, hu, h⟩ := bind_eq_ok.1 h
    obtain ⟨hk, nodup⟩ := List.nodup_cons.1 nodup
    have below := ih h nodup
    have put := Table.get?_put base k key x
    by_cases he : key = k
    · subst he
      have absent : member? rest key = none := Table.get?_eq_none_iff.2 hk
      have here : member? ((key, u) :: rest) key = some u := by simp [member?, Table.get?]
      rw [if_pos rfl] at put
      rw [here]
      refine ⟨by rintro ⟨⟩, ?_⟩
      rintro v ⟨⟩
      exact ⟨x, hu, (below.1 absent).trans put⟩
    · have there : member? ((k, u) :: rest) key = member? rest key := by
        simp [member?, Table.get?, List.lookup_cons, beq_eq_false_iff_ne.2 he]
      rw [if_neg he] at put
      rw [there]
      unfold member? at below ⊢
      rwa [put] at below

/-- Two objects are merged inside. -/
theorem mergeMember_objects {key : Text} {old new : Members} {w : Value}
    (h : mergeMember key (some (.object old)) (.object new) = .ok w) :
    ∃ merged, mergeMembers old new = .ok merged ∧ w = .object merged := by
  rw [mergeMember] at h
  exact map_eq_ok.1 h

/-- What is no object takes the place of the old value, unless it is a list that is united with it. -/
theorem mergeMember_cases {key : Text} {old : Option Value} {v w : Value}
    (h : mergeMember key old v = .ok w) (other : ∀ members, v ≠ .object members) :
    w = v ∨ isAdditive key ∧ ∃ all, w = .array all := by
  rw [mergeMember.eq_def] at h
  cases v with
  | object members => exact absurd rfl (other members)
  | array new =>
    dsimp only at h
    split at h
    · split at h
      · rename_i additive
        obtain ⟨all, -, hw⟩ := map_eq_ok.1 h
        exact Or.inr ⟨additive, all, hw⟩
      · cases h
        exact Or.inl rfl
    · cases h
      exact Or.inl rfl
  | _ =>
    cases h
    exact Or.inl rfl

/-- What is no object stays none. -/
theorem mergeMember_other {key : Text} {old : Option Value} {v w : Value}
    (h : mergeMember key old v = .ok w) (other : ∀ members, v ≠ .object members) :
    ∀ members, w ≠ .object members := by
  rcases mergeMember_cases h other with rfl | ⟨-, all, rfl⟩
  · exact other
  · rintro members ⟨⟩

/-- An object that meets no object is taken as it is. -/
theorem mergeMember_object_other {key : Text} {old : Option Value} {new : Members} {w : Value}
    (h : mergeMember key old (.object new) = .ok w) (other : ∀ members, old ≠ some (.object members)) :
    w = .object new := by
  rw [mergeMember.eq_def] at h
  dsimp only at h
  split at h
  · exact absurd rfl (other _)
  · cases h
    rfl

/-- Two lists are united under an additive key. -/
theorem mergeMember_arrays (key : Text) (old new : List Value) :
    mergeMember key (some (.array old)) (.array new) =
      if isAdditive key then .array <$> unite old new else .ok (.array new) := by
  rw [mergeMember]

/-- What is no object and not united takes the place of the old value. -/
theorem mergeMember_replaces {key : Text} {old : Option Value} {w : Value}
    (h : mergeMember key old v = .ok w) (other : ∀ members, v ≠ .object members)
    (alone : ¬ isAdditive key) : w = v :=
  (mergeMember_cases h other).resolve_right fun united => alone united.1

/-- An object in an update is merged with the object that it meets, if it meets one. -/
theorem mergeMember_object_cases {key : Text} {old : Option Value} {new : Members} {w : Value}
    (h : mergeMember key old (.object new) = .ok w) :
    (∃ members merged, old = some (.object members) ∧ mergeMembers members new = .ok merged ∧
      w = .object merged) ∨ (∀ members, old ≠ some (.object members)) ∧ w = .object new := by
  by_cases met : ∃ members, old = some (.object members)
  · obtain ⟨members, rfl⟩ := met
    obtain ⟨merged, hm, hw⟩ := mergeMember_objects h
    exact Or.inl ⟨members, merged, rfl, hm, hw⟩
  · have other : ∀ members, old ≠ some (.object members) := fun members he => met ⟨members, he⟩
    exact Or.inr ⟨other, mergeMember_object_other h other⟩

/-- A merge keeps a path of the base unless the update has something else than an object on the way. -/
theorem mergeMembers_path {base update merged : Members} {path : List Text}
    (h : mergeMembers base update = .ok merged)
    (distinct : (Value.object update).hasDistinctKeys) (hp : HasPath (.object base) path) :
    HasPath (.object merged) path ↔ ¬ CutsOff (.object update) path := by
  induction path generalizing base update merged with
  | nil =>
    refine iff_of_true rfl ?_
    rintro ⟨way, rest, hway, -, hpath, -⟩
    exact hway (List.append_eq_nil_iff.1 hpath.symm).1
  | cons key path ih =>
    obtain ⟨nodup, below⟩ := distinctKeysInMembers_iff.1 distinct
    obtain ⟨absent, present⟩ := mergeMembers_member h nodup key
    obtain ⟨old, hold, hp⟩ := hasPath_cons.1 hp
    rw [hasPath_cons, cutsOff_cons]
    cases hu : member? update key with
    | none =>
      rw [absent hu, hold]
      exact iff_of_true ⟨old, rfl, hp⟩ (by simp)
    | some v =>
      obtain ⟨w, hw, hmerged⟩ := present v hu
      rw [hold] at hw
      rw [hmerged]
      simp only [Option.some.injEq, exists_eq_left']
      cases path with
      | nil => exact iff_of_true rfl (by simp)
      | cons next path =>
        cases old with
        | object old =>
          by_cases hv : ∃ new, v = .object new
          · obtain ⟨new, rfl⟩ := hv
            obtain ⟨merged', hm, rfl⟩ := mergeMember_objects hw
            have distinct' : (Value.object new).hasDistinctKeys := below _ (Table.mem_of_get? hu)
            simpa using ih hm distinct' hp
          · have other : ∀ new, v ≠ .object new := fun new he => hv ⟨new, he⟩
            exact iff_of_false (not_hasPath_cons (mergeMember_other hw other)) (by simp [other])
        | _ => exact absurd hp (not_hasPath_cons nofun)

end DocShape.Config
