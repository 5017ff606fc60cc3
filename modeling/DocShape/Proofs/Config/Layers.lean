import DocShape.Config.Settings
import DocShape.Proofs.Config.Additive
import DocShape.Proofs.Config.Paths

/-!
Layers of configurations: updates that are laid over the defaults one after the other. The last update that
sets a path decides what is there, as long as no later one puts an object in its place or cuts the path off,
and what no update touches keeps its default. Only the skipped names are gathered from all updates, into one
ascending list that does not depend on the order of the updates (`mergeAll_defaults`).

Each of these is shown of one update first, by induction on the path, and then of all updates in a row.
-/

namespace DocShape.Config

open Json

/-! ## One update -/

theorem isAdditive_iff {key : Text} : isAdditive key ↔ key = "skip" := beq_iff_eq

/-- A path leads to a member whose lists are united. -/
def EndsAdditive (path : List Text) : Prop := ∃ key, path.getLast? = some key ∧ isAdditive key

theorem endsAdditive_singleton {key : Text} : EndsAdditive [key] ↔ isAdditive key := by
  simp [EndsAdditive]

theorem endsAdditive_cons_cons {key next : Text} {path : List Text} :
    EndsAdditive (key :: next :: path) ↔ EndsAdditive (next :: path) := by
  simp [EndsAdditive, List.getLast?_cons_cons]

/-- An update says nothing about a path: it has no value there, and does not cut the path off. -/
def Leaves (update : Members) (path : List Text) : Prop :=
  ¬ HasPath (.object update) path ∧ ¬ CutsOff (.object update) path

section

variable {base update merged : Members} {path : List Text} {v : Value}

/-- Where an update says nothing, the base stays. -/
theorem valueAt?_of_leaves (h : mergeMembers base update = .ok merged)
    (distinct : (Value.object update).hasDistinctKeys) (leaves : Leaves update path) :
    valueAt? (.object merged) path = valueAt? (.object base) path := by
  induction path generalizing base update merged with
  | nil => exact absurd rfl leaves.1
  | cons key path ih =>
    obtain ⟨nodup, below⟩ := distinctKeysInMembers_iff.1 distinct
    obtain ⟨absent, present⟩ := mergeMembers_member h nodup key
    rw [valueAt?_cons, valueAt?_cons]
    cases hu : member? update key with
    | none => rw [absent hu]
    | some v =>
      obtain ⟨w, hw, hmerged⟩ := present v hu
      obtain ⟨noPath, noCut⟩ := leaves
      rw [hasPath_cons] at noPath
      rw [cutsOff_cons] at noCut
      have noPath : ¬ HasPath v path := fun hp => noPath ⟨v, hu, hp⟩
      have longer : path ≠ [] := by
        rintro rfl
        exact noPath rfl
      -- Only an object neither has the rest of the path nor cuts it off.
      obtain ⟨new, rfl⟩ : ∃ new, v = .object new := by
        by_contra other
        exact noCut ⟨longer, v, hu, Or.inl fun new he => other ⟨new, he⟩⟩
      have leaves : Leaves new path := ⟨noPath, fun cut => noCut ⟨longer, _, hu, Or.inr cut⟩⟩
      have distinct' : (Value.object new).hasDistinctKeys := below _ (Table.mem_of_get? hu)
      rw [hmerged]
      rcases mergeMember_object_cases hw with ⟨members, merged', hold, hm, rfl⟩ | ⟨other, rfl⟩
      · rw [hold]
        exact ih hm distinct' leaves
      · obtain ⟨next, path, rfl⟩ := List.exists_cons_of_ne_nil longer
        have nothing : (member? base key).bind (valueAt? · (next :: path)) = none := by
          cases hold : member? base key with
          | none => rfl
          | some old =>
            exact valueAt?_of_not_object (fun members he => other members (hold.trans (congrArg some he))) _ _
        rw [nothing]
        exact Option.not_isSome_iff_eq_none.1 noPath

/-- What is no object and not united stands in the result where the update has it. -/
theorem valueAt?_of_sets (h : mergeMembers base update = .ok merged)
    (distinct : (Value.object update).hasDistinctKeys) (sets : valueAt? (.object update) path = some v)
    (other : ∀ members, v ≠ .object members) (alone : ¬ EndsAdditive path) :
    valueAt? (.object merged) path = some v := by
  induction path generalizing base update merged with
  | nil => exact absurd (Option.some.inj sets).symm (other update)
  | cons key path ih =>
    obtain ⟨nodup, below⟩ := distinctKeysInMembers_iff.1 distinct
    obtain ⟨u, hu, sets⟩ := Option.bind_eq_some_iff.1 sets
    obtain ⟨w, hw, hmerged⟩ := (mergeMembers_member h nodup key).2 u hu
    rw [valueAt?_cons, hmerged]
    cases path with
    | nil =>
      cases sets
      rw [mergeMember_replaces hw other (mt endsAdditive_singleton.2 alone)]
      rfl
    | cons next path =>
      obtain ⟨new, rfl⟩ : ∃ new, u = .object new := by
        by_contra single
        rw [valueAt?_of_not_object fun new he => single ⟨new, he⟩] at sets
        cases sets
      rcases mergeMember_object_cases hw with ⟨members, merged', -, hm, rfl⟩ | ⟨-, rfl⟩
      · have distinct' : (Value.object new).hasDistinctKeys := below _ (Table.mem_of_get? hu)
        exact ih hm distinct' sets (mt endsAdditive_cons_cons.2 alone)
      · exact sets

end

/-! ## Skipped names -/

/-- The names that an update skips. -/
def Skips (update : Members) (name : Text) : Prop :=
  ∃ entries, member? update "skip" = some (.array entries) ∧ .text name ∈ entries

/-- A configuration skips an ascending list of names. -/
def SkipsExactly (config : Members) (names : List Text) : Prop :=
  member? config "skip" = some (.array (names.map .text)) ∧ names.Pairwise (· < ·)

/-- An update has no list of skipped names, or one of texts. -/
def SkipsTexts (update : Members) : Prop :=
  ∀ v, member? update "skip" = some v → ∃ names : List Text, v = .array (names.map .text)

theorem skips_of_member {update : Members} {names : List Text} {name : Text}
    (h : member? update "skip" = some (.array (names.map .text))) : Skips update name ↔ name ∈ names := by
  simp [Skips, h]

/-- An update adds its names to those that are skipped. -/
theorem SkipsExactly.merge {base update merged : Members} {names : List Text}
    (hb : SkipsExactly base names) (texts : SkipsTexts update) (nodup : (Table.keys update).Nodup)
    (h : mergeMembers base update = .ok merged) :
    ∃ names', SkipsExactly merged names' ∧ ∀ t, t ∈ names' ↔ t ∈ names ∨ Skips update t := by
  obtain ⟨absent, present⟩ := mergeMembers_member h nodup "skip"
  cases hu : member? update "skip" with
  | none =>
    refine ⟨names, ⟨(absent hu).trans hb.1, hb.2⟩, fun t => (or_iff_left ?_).symm⟩
    rintro ⟨entries, he, -⟩
    cases hu.symm.trans he
  | some v =>
    obtain ⟨new, rfl⟩ := texts v hu
    obtain ⟨w, hw, hmerged⟩ := present _ hu
    obtain ⟨all, united, ascends, mem⟩ := unite_texts names new
    rw [hb.1, mergeMember_arrays, if_pos (isAdditive_iff.2 rfl), united] at hw
    cases hw
    exact ⟨all, ⟨hmerged, ascends⟩, fun t => by rw [mem, skips_of_member hu]⟩

/-- Ascending lists of the same names are the same. -/
theorem SkipsExactly.unique {config config' : Members} {names names' : List Text}
    (h : SkipsExactly config names) (h' : SkipsExactly config' names')
    (same : ∀ t, t ∈ names ↔ t ∈ names') : member? config' "skip" = member? config "skip" := by
  have perm : names.Perm names' := by
    have nodup : ∀ {l : List Text}, l.Pairwise (· < ·) → l.Nodup := fun hl => hl.imp (by
      rintro a _ hlt rfl
      exact List.lt_irrefl a hlt)
    exact (List.perm_ext_iff_of_nodup (nodup h.2) (nodup h'.2)).2 same
  have equal : names = names' :=
    perm.eq_of_pairwise (fun a b _ _ hab hba => (List.lt_asymm hab hba).elim) h.2 h'.2
  rw [h.1, h'.1, equal]

/-! ## All updates -/

/-- Updates laid over a base one after the other. -/
def mergeAll (base : Members) (updates : List Members) : Except MergeFault Members :=
  updates.foldlM mergeMembers base

theorem mergeAll_cons {base update merged : Members} {rest : List Members} :
    mergeAll base (update :: rest) = .ok merged ↔
      ∃ next, mergeMembers base update = .ok next ∧ mergeAll next rest = .ok merged := by
  unfold mergeAll
  rw [List.foldlM_cons]
  exact bind_eq_ok

section

variable {base merged : Members} {updates : List Members}

theorem valueAt?_of_all_leave {path : List Text} (h : mergeAll base updates = .ok merged)
    (distinct : ∀ u ∈ updates, (Value.object u).hasDistinctKeys)
    (leave : ∀ u ∈ updates, Leaves u path) :
    valueAt? (.object merged) path = valueAt? (.object base) path := by
  induction updates generalizing base with
  | nil =>
    cases h
    rfl
  | cons u rest ih =>
    obtain ⟨next, first, others⟩ := mergeAll_cons.1 h
    obtain ⟨distinctFirst, distinct⟩ := List.forall_mem_cons.1 distinct
    obtain ⟨leaves, leave⟩ := List.forall_mem_cons.1 leave
    rw [ih others distinct leave, valueAt?_of_leaves first distinctFirst leaves]

theorem valueAt?_of_last_sets {before after : List Members} {u : Members} {path : List Text} {v : Value}
    (h : mergeAll base (before ++ u :: after) = .ok merged)
    (distinct : ∀ w ∈ before ++ u :: after, (Value.object w).hasDistinctKeys)
    (sets : valueAt? (.object u) path = some v) (other : ∀ members, v ≠ .object members)
    (alone : ¬ EndsAdditive path) (leave : ∀ w ∈ after, Leaves w path) :
    valueAt? (.object merged) path = some v := by
  induction before generalizing base with
  | nil =>
    obtain ⟨next, first, others⟩ := mergeAll_cons.1 h
    obtain ⟨distinctFirst, distinct⟩ := List.forall_mem_cons.1 distinct
    rw [valueAt?_of_all_leave others distinct leave]
    exact valueAt?_of_sets first distinctFirst sets other alone
  | cons first before ih =>
    obtain ⟨next, -, others⟩ := mergeAll_cons.1 h
    exact ih others (List.forall_mem_cons.1 distinct).2

theorem SkipsExactly.mergeAll {names : List Text} (hb : SkipsExactly base names)
    (texts : ∀ u ∈ updates, SkipsTexts u) (distinct : ∀ u ∈ updates, (Value.object u).hasDistinctKeys)
    (h : mergeAll base updates = .ok merged) :
    ∃ names', SkipsExactly merged names' ∧ ∀ t, t ∈ names' ↔ t ∈ names ∨ ∃ u ∈ updates, Skips u t := by
  induction updates generalizing base names with
  | nil =>
    cases h
    exact ⟨names, hb, by simp⟩
  | cons u rest ih =>
    obtain ⟨next, first, others⟩ := mergeAll_cons.1 h
    obtain ⟨distinctFirst, distinct⟩ := List.forall_mem_cons.1 distinct
    obtain ⟨textsFirst, texts⟩ := List.forall_mem_cons.1 texts
    have nodup := (distinctKeysInMembers_iff.1 distinctFirst).1
    obtain ⟨names', hn, mem⟩ := hb.merge textsFirst nodup first
    obtain ⟨names'', hn', mem'⟩ := ih hn texts distinct others
    refine ⟨names'', hn', fun t => ?_⟩
    rw [mem', mem, or_assoc, List.exists_mem_cons_iff]

end

/-- What a configuration holds after some updates of the defaults. -/
structure IsLayered (updates : List Members) (merged : Members) : Prop where
  /-- The skipped names are those of all updates, in ascending order. -/
  skipped : ∃ names, SkipsExactly merged names ∧ ∀ t, t ∈ names ↔ ∃ u ∈ updates, Skips u t
  /-- They are the same when the updates come in another order or are repeated. -/
  anyOrder : ∀ updates' merged', (∀ u, u ∈ updates' ↔ u ∈ updates) →
    mergeAll defaults updates' = .ok merged' → member? merged' "skip" = member? merged "skip"
  /-- At any other path stands what the last update has there that has something else than an object, if the
  later ones leave the path alone. -/
  last : ∀ before u after path v, updates = before ++ u :: after → valueAt? (.object u) path = some v →
    (∀ members, v ≠ .object members) → ¬ EndsAdditive path → (∀ w ∈ after, Leaves w path) →
    valueAt? (.object merged) path = some v
  /-- A path that all updates leave alone keeps its default. -/
  default : ∀ path, (∀ u ∈ updates, Leaves u path) →
    valueAt? (.object merged) path = valueAt? (.object defaults) path

/-- The last update of a path wins, and skipped names are gathered from all updates. -/
theorem mergeAll_defaults {updates : List Members} {merged : Members}
    (h : mergeAll defaults updates = .ok merged)
    (distinct : ∀ u ∈ updates, (Value.object u).hasDistinctKeys)
    (texts : ∀ u ∈ updates, SkipsTexts u) : IsLayered updates merged := by
  have start : SkipsExactly defaults [] := ⟨rfl, List.Pairwise.nil⟩
  obtain ⟨names, hn, mem⟩ := start.mergeAll texts distinct h
  have gathered : ∀ t, t ∈ names ↔ ∃ u ∈ updates, Skips u t := by simpa using mem
  refine ⟨⟨names, hn, gathered⟩, fun updates' merged' same h' => ?_, ?_, fun path leave => ?_⟩
  · obtain ⟨names', hn', mem'⟩ := start.mergeAll (fun u hu => texts u ((same u).1 hu))
      (fun u hu => distinct u ((same u).1 hu)) h'
    refine hn.unique hn' fun t => ?_
    simp [gathered, mem', same]
  · rintro before u after path v rfl sets other alone leave
    exact valueAt?_of_last_sets h distinct sets other alone leave
  · exact valueAt?_of_all_leave h distinct leave

/-- A layer that skips two names and sets the root of the links. -/
def innerLayer : Members :=
  [("skip", .array [.text "b", .text "a"]), ("links", .object [("api_root", .text "/a")])]

/-- A layer over it with another root, and with one of the names once more. -/
def outerLayer : Members :=
  [("links", .object [("api_root", .text "/b")]), ("skip", .array [.text "c", .text "a"])]

/-- The names of both layers are skipped, and the root of the outer one stands. -/
theorem mergeAll_defaults_twoLayers : ∃ merged, mergeAll defaults [innerLayer, outerLayer] = .ok merged ∧
    IsLayered [innerLayer, outerLayer] merged ∧ SkipsExactly merged ["a", "b", "c"] ∧
    valueAt? (.object merged) ["links", "api_root"] = some (.text "/b") := by
  obtain ⟨merged, hm, skipped⟩ : ∃ merged, mergeAll defaults [innerLayer, outerLayer] = .ok merged ∧
      SkipsExactly merged ["a", "b", "c"] := ⟨_, rfl, rfl, by decide⟩
  have distinct : ∀ u ∈ [innerLayer, outerLayer], (Value.object u).hasDistinctKeys := by decide
  have inner : SkipsTexts innerLayer := fun v hv => ⟨["b", "a"], (Option.some.inj hv).symm⟩
  have outer : SkipsTexts outerLayer := fun v hv => ⟨["c", "a"], (Option.some.inj hv).symm⟩
  have layered := mergeAll_defaults hm distinct
    (List.forall_mem_cons.2 ⟨inner, List.forall_mem_cons.2 ⟨outer, nofun⟩⟩)
  have alone : ¬ EndsAdditive ["links", "api_root"] := by
    rw [endsAdditive_cons_cons, endsAdditive_singleton]
    decide
  exact ⟨merged, hm, layered, skipped, layered.last [innerLayer] outerLayer [] _ _ rfl rfl nofun alone nofun⟩

end DocShape.Config
