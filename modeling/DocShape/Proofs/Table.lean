import DocShape.Table
import Mathlib.Data.List.Induction
import Mathlib.Data.List.Nodup
import Mathlib.Data.List.Perm.Subperm

/-!
Assignments to tables. A key keeps the place of its first assignment and the value of its last one
(`keys_ofList`, `get?_ofList`), and just where no key is repeated a table is the list of its assignments
(`ofList_of_nodup`, `length_ofList_eq_iff`). The part of a table with some keys is made by the
assignments to those keys (`filter_ofList`). Where no key is repeated, the order does not matter to
look-ups (`lookup_of_perm`).
-/

namespace DocShape.Table

variable {α β : Type}

/-! ## One assignment -/

theorem put_of_not_mem {table : Table α} {key : Text} (h : key ∉ keys table) (value : α) :
    put table key value = table ++ [(key, value)] := by
  induction table with
  | nil => rfl
  | cons entry rest ih =>
    obtain ⟨k, v⟩ := entry
    simp only [keys, List.map_cons, List.mem_cons, not_or] at h
    rw [put, if_neg fun hk => h.1 hk.symm, ih h.2, List.cons_append]

theorem keys_put_of_not_mem {table : Table α} {key : Text} (h : key ∉ keys table) (value : α) :
    keys (put table key value) = keys table ++ [key] := by
  rw [put_of_not_mem h, keys, List.map_append]
  rfl

theorem keys_put_of_mem {table : Table α} {key : Text} (h : key ∈ keys table) (value : α) :
    keys (put table key value) = keys table := by
  induction table with
  | nil => simp [keys] at h
  | cons entry rest ih =>
    obtain ⟨k, v⟩ := entry
    unfold put
    by_cases hk : k = key
    · rw [if_pos hk]
      rfl
    · have hrest : key ∈ keys rest := by
        simp only [keys, List.map_cons, List.mem_cons] at h
        exact h.resolve_left fun h => hk h.symm
      rw [if_neg hk]
      exact congrArg (k :: ·) (ih hrest)

theorem nodup_keys_put {table : Table α} (h : (keys table).Nodup) (key : Text) (value : α) :
    (keys (put table key value)).Nodup := by
  by_cases hk : key ∈ keys table
  · rwa [keys_put_of_mem hk]
  · rw [keys_put_of_not_mem hk]
    exact List.Nodup.append h (List.nodup_singleton key) (by simpa using hk)

theorem mem_put {table : Table α} {key : Text} {value : α} {entry : Text × α}
    (h : entry ∈ put table key value) : entry.2 = value ∨ entry ∈ table := by
  induction table with
  | nil => exact Or.inl (by rw [List.mem_singleton.1 h])
  | cons first rest ih =>
    obtain ⟨k, v⟩ := first
    unfold put at h
    split at h
    · rcases List.mem_cons.1 h with rfl | h
      · exact Or.inl rfl
      · exact Or.inr (List.mem_cons_of_mem _ h)
    · rcases List.mem_cons.1 h with rfl | h
      · exact Or.inr (List.mem_cons_self ..)
      · exact (ih h).imp_right (List.mem_cons_of_mem _)

theorem get?_put (table : Table α) (key key' : Text) (value : α) :
    get? (put table key value) key' = if key' = key then some value else get? table key' := by
  unfold get?
  induction table with
  | nil =>
    by_cases hk : key' = key <;> simp [put, hk]
  | cons entry rest ih =>
    obtain ⟨k, v⟩ := entry
    unfold put
    by_cases hk : k = key
    · subst hk
      by_cases hk' : key' = k
      · simp [hk']
      · simp [hk', beq_eq_false_iff_ne.2 hk', List.lookup_cons]
    · rw [if_neg hk, List.lookup_cons, List.lookup_cons, ih]
      by_cases hk' : key' = k
      · subst hk'
        simp [hk]
      · simp [beq_eq_false_iff_ne.2 hk']

/-- Assigning the value that is there changes nothing. -/
theorem put_of_get? {table : Table α} {key : Text} {value : α} (h : get? table key = some value) :
    put table key value = table := by
  unfold get? at h
  induction table with
  | nil => cases h
  | cons entry rest ih =>
    obtain ⟨k, v⟩ := entry
    unfold put
    by_cases hk : k = key
    · subst hk
      have same : v = value := by simpa using h
      rw [if_pos rfl, same]
    · have hrest : List.lookup key rest = some value := by
        simpa [List.lookup_cons, beq_eq_false_iff_ne.2 (Ne.symm hk)] using h
      rw [if_neg hk, ih hrest]

theorem mem_of_get? {table : Table α} {key : Text} {value : α} (h : get? table key = some value) :
    (key, value) ∈ table := by
  obtain ⟨before, after, rfl, -⟩ := List.lookup_eq_some_iff.1 h
  exact List.mem_append_right before (List.mem_cons_self ..)

theorem get?_eq_none_iff {table : Table α} {key : Text} : get? table key = none ↔ key ∉ keys table := by
  rw [get?, List.lookup_eq_none_iff, keys, List.mem_map]
  constructor
  · rintro h ⟨entry, he, rfl⟩
    simpa using h entry he
  · intro h entry he
    exact bne_iff_ne.2 fun hk => h ⟨entry, he, hk.symm⟩

/-! ## Assignments in order -/

private theorem ofList_append_singleton (entries : List (Text × α)) (entry : Text × α) :
    ofList (entries ++ [entry]) = put (ofList entries) entry.1 entry.2 := by
  simp [ofList]

/-- Keys stand in the order of their first assignments. -/
theorem keys_ofList (entries : List (Text × α)) :
    keys (ofList entries) = (entries.map (·.1)).eraseDups := by
  induction entries using List.reverseRecOn with
  | nil => rfl
  | append_singleton entries entry ih =>
    rw [ofList_append_singleton, List.map_append, List.eraseDups_append]
    by_cases hm : entry.1 ∈ entries.map (·.1)
    · rw [keys_put_of_mem (by rwa [ih, List.mem_eraseDups]), ih]
      simp [List.cons_removeAll, hm]
    · rw [keys_put_of_not_mem (by rwa [ih, List.mem_eraseDups]), ih]
      simp [List.cons_removeAll, hm, List.eraseDups_cons]

/-- A key has the value of its last assignment. -/
theorem get?_ofList (entries : List (Text × α)) (key : Text) :
    get? (ofList entries) key = entries.reverse.lookup key := by
  induction entries using List.reverseRecOn with
  | nil => rfl
  | append_singleton entries entry ih =>
    rw [ofList_append_singleton, get?_put, ih, List.reverse_append, List.reverse_singleton,
      List.singleton_append, List.lookup_cons]
    by_cases hk : key = entry.1
    · simp [hk]
    · simp [beq_eq_false_iff_ne.2 hk, hk]

theorem mem_of_get?_ofList {entries : List (Text × α)} {key : Text} {value : α}
    (h : get? (ofList entries) key = some value) : (key, value) ∈ entries := by
  rw [get?_ofList, List.lookup_eq_some_iff] at h
  obtain ⟨before, after, hl, -⟩ := h
  exact List.mem_reverse.1 (hl ▸ List.mem_append_right before (List.mem_cons_self ..))

theorem get?_ofList_of_last {before after : List (Text × α)} {key : Text} {value : α}
    (h : key ∉ after.map (·.1)) :
    get? (ofList (before ++ (key, value) :: after)) key = some value := by
  have none : after.reverse.lookup key = none := by
    rw [List.lookup_eq_none_iff]
    intro entry he
    have : key ≠ entry.1 := fun hk => h (hk ▸ List.mem_map.2 ⟨entry, List.mem_reverse.1 he, rfl⟩)
    exact bne_iff_ne.2 this
  rw [get?_ofList, List.reverse_append, List.reverse_cons, List.append_assoc, List.lookup_append,
    none]
  simp

theorem ofList_of_nodup {entries : List (Text × α)} (h : (entries.map (·.1)).Nodup) :
    ofList entries = entries := by
  induction entries using List.reverseRecOn with
  | nil => rfl
  | append_singleton entries entry ih =>
    rw [List.map_append] at h
    have hi := ih h.of_append_left
    rw [ofList_append_singleton, hi, put_of_not_mem]
    intro hm
    exact List.disjoint_of_nodup_append h hm (by simp)

theorem nodup_keys_ofList (entries : List (Text × α)) : (keys (ofList entries)).Nodup := by
  induction entries using List.reverseRecOn with
  | nil => exact List.nodup_nil
  | append_singleton entries entry ih =>
    rw [ofList_append_singleton]
    exact nodup_keys_put ih _ _

/-- No assignment is lost just when no key is repeated. -/
theorem length_ofList_eq_iff (entries : List (Text × α)) :
    (ofList entries).length = entries.length ↔ (entries.map (·.1)).Nodup := by
  constructor
  · intro h
    have hsub : keys (ofList entries) ⊆ entries.map (·.1) := by
      intro key hk
      rwa [keys_ofList, List.mem_eraseDups] at hk
    have hperm : (keys (ofList entries)).Perm (entries.map (·.1)) := by
      refine (List.subperm_of_subset (nodup_keys_ofList entries) hsub).perm_of_length_le ?_
      simp [keys, h]
    exact hperm.nodup_iff.1 (nodup_keys_ofList entries)
  · intro h
    rw [ofList_of_nodup h]

/-! ## Tables seen in part -/

theorem map_put (f : α → β) (table : Table α) (key : Text) (value : α) :
    (put table key value).map (fun e => (e.1, f e.2)) =
      put (table.map fun e => (e.1, f e.2)) key (f value) := by
  induction table with
  | nil => rfl
  | cons entry rest ih =>
    obtain ⟨k, v⟩ := entry
    unfold put
    by_cases hk : k = key
    · simp [hk]
    · simp only [if_neg hk, List.map_cons]
      rw [ih]

theorem map_ofList (f : α → β) (entries : List (Text × α)) :
    (ofList entries).map (fun e => (e.1, f e.2)) = ofList (entries.map fun e => (e.1, f e.2)) := by
  induction entries using List.reverseRecOn with
  | nil => rfl
  | append_singleton entries entry ih =>
    rw [ofList_append_singleton, map_put, ih, List.map_append, List.map_singleton,
      ofList_append_singleton]

private theorem filter_put_of_pos {p : Text → Bool} {key : Text} (h : p key) (table : Table α)
    (value : α) : (put table key value).filter (fun e => p e.1) =
      put (table.filter fun e => p e.1) key value := by
  induction table with
  | nil => simp [put, h]
  | cons entry rest ih =>
    obtain ⟨k, v⟩ := entry
    by_cases hk : k = key
    · subst hk
      simp [put, h]
    · by_cases hp : p k
      · simp [put, hk, hp, ih]
      · simp [put, hk, hp, ih]

private theorem filter_put_of_neg {p : Text → Bool} {key : Text} (h : ¬ p key) (table : Table α)
    (value : α) : (put table key value).filter (fun e => p e.1) =
      table.filter fun e => p e.1 := by
  induction table with
  | nil => simp [put, h]
  | cons entry rest ih =>
    obtain ⟨k, v⟩ := entry
    by_cases hk : k = key
    · subst hk
      simp [put, h]
    · simp [put, hk, List.filter_cons, ih]

/-- The assignments to some keys make the part of the table that has those keys. -/
theorem filter_ofList (p : Text → Bool) (entries : List (Text × α)) :
    (ofList entries).filter (fun e => p e.1) = ofList (entries.filter fun e => p e.1) := by
  induction entries using List.reverseRecOn with
  | nil => rfl
  | append_singleton entries entry ih =>
    rw [ofList_append_singleton, List.filter_append]
    by_cases h : p entry.1
    · rw [filter_put_of_pos h, ih, List.filter_singleton, h, cond_true,
      ofList_append_singleton]
    · rw [filter_put_of_neg h, ih, List.filter_singleton, Bool.eq_false_iff.2 h,
        cond_false, List.append_nil]

theorem get?_map (f : α → β) (table : Table α) (key : Text) :
    get? (table.map fun e => (e.1, f e.2)) key = (get? table key).map f := by
  unfold get?
  induction table with
  | nil => rfl
  | cons entry rest ih =>
    obtain ⟨k, v⟩ := entry
    rw [List.map_cons, List.lookup_cons, List.lookup_cons, ih]
    by_cases hk : key = k
    · simp [hk]
    · simp [beq_eq_false_iff_ne.2 hk]

theorem get?_filter {p : Text → Bool} {key : Text} (h : p key) (table : Table α) :
    get? (table.filter fun e => p e.1) key = get? table key := by
  unfold get?
  induction table with
  | nil => rfl
  | cons entry rest ih =>
    obtain ⟨k, v⟩ := entry
    by_cases hk : key = k
    · subst hk
      simp [h]
    · have hne := beq_eq_false_iff_ne.2 hk
      by_cases hp : p k
      · simp [hp, List.lookup_cons, hne, ih]
      · simp [hp, List.lookup_cons, hne, ih]

/-! ## Look-ups where no key is repeated -/

section

variable {κ : Type} [BEq κ] [LawfulBEq κ] {l l' : List (κ × α)}

theorem lookup_of_mem (nodup : (l.map (·.1)).Nodup) {key : κ} {value : α}
    (h : (key, value) ∈ l) : l.lookup key = some value := by
  induction l with
  | nil => cases h
  | cons entry rest ih =>
    rw [List.map_cons, List.nodup_cons] at nodup
    rw [List.lookup_cons]
    rcases List.mem_cons.1 h with rfl | h
    · simp
    · have other : (key == entry.1) = false :=
        beq_eq_false_iff_ne.2 fun he => nodup.1 (List.mem_map.2 ⟨_, h, he⟩)
      rw [other]
      exact ih nodup.2 h

theorem lookup_of_perm (h : l.Perm l') (nodup : (l.map (·.1)).Nodup) (key : κ) :
    l'.lookup key = l.lookup key := by
  induction h with
  | nil => rfl
  | cons entry _ ih =>
    rw [List.map_cons, List.nodup_cons] at nodup
    rw [List.lookup_cons, List.lookup_cons, ih nodup.2]
  | swap a b l =>
    simp only [List.map_cons, List.nodup_cons, List.mem_cons, not_or] at nodup
    rw [List.lookup_cons, List.lookup_cons, List.lookup_cons, List.lookup_cons]
    by_cases ha : key = a.1
    · have hb : (key == b.1) = false := beq_eq_false_iff_ne.2 fun hb => nodup.1.1 (hb.symm.trans ha)
      rw [hb, beq_iff_eq.2 ha]
    · rw [beq_eq_false_iff_ne.2 ha]
  | trans hl _ ih ih' =>
    rw [ih' ((hl.map _).nodup_iff.1 nodup), ih nodup]

end

end DocShape.Table
