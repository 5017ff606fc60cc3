import DocShape.Json.Equality
import DocShape.Proofs.Table
import Mathlib.Data.List.Forall2
import Mathlib.Data.Option.Basic

/-!
Strict equality of objects is equality member by member, in any order (`strictEq_object_iff`). Objects that
are made of the same fields, of which some may be absent, are equal if each field is absent in both or equal
in both (`strictEq_present_iff`).
-/

namespace DocShape.Json

/-- Both absent, or equal. -/
abbrev AlikeFields : Option Value → Option Value → Prop := Option.Rel fun v w => v.strictEq w

theorem AlikeFields.eq_none_iff {o o' : Option Value} (h : AlikeFields o o') :
    o = none ↔ o' = none := by
  cases h <;> simp

theorem AlikeFields.exists_some {v : Value} {o : Option Value} (h : AlikeFields (some v) o) :
    ∃ w, o = some w ∧ v.strictEq w := by
  cases h
  exact ⟨_, rfl, by assumption⟩

/-! ## Objects -/

theorem strictEqMembers_iff {a b : Members} :
    Value.strictEqMembers a b ↔ ∀ e ∈ a, ∃ w, Table.get? b e.1 = some w ∧ e.2.strictEq w := by
  unfold Table.get?
  induction a with
  | nil => simp [Value.strictEqMembers]
  | cons e rest ih =>
    obtain ⟨key, v⟩ := e
    rw [Value.strictEqMembers, List.forall_mem_cons, ← ih]
    cases b.lookup key <;> simp

private theorem mem_keys_of_get? {m : Members} {key : Text} {v : Value}
    (h : Table.get? m key = some v) : key ∈ Table.keys m := by
  by_contra absent
  rw [Table.get?_eq_none_iff.2 absent] at h
  cases h

theorem strictEq_object_iff {a b : Members} (ha : (Table.keys a).Nodup)
    (hb : (Table.keys b).Nodup) :
    (Value.object a).strictEq (.object b) ↔
      ∀ key, AlikeFields (Table.get? a key) (Table.get? b key) := by
  have keys_length : ∀ m : Members, (Table.keys m).length = m.length := fun m => List.length_map ..
  rw [Value.strictEq, Bool.and_eq_true, beq_iff_eq, strictEqMembers_iff, ← keys_length a,
    ← keys_length b]
  constructor
  · rintro ⟨length, each⟩ key
    have sub : Table.keys a ⊆ Table.keys b := by
      intro k hk
      obtain ⟨e, he, rfl⟩ := List.mem_map.1 hk
      obtain ⟨w, hw, -⟩ := each e he
      exact mem_keys_of_get? hw
    -- There are as many keys on both sides, so there are no others on the right.
    have perm : (Table.keys a).Perm (Table.keys b) :=
      (List.subperm_of_subset ha sub).perm_of_length_le (Nat.le_of_eq length.symm)
    cases hv : Table.get? a key with
    | some v =>
      obtain ⟨w, hw, same⟩ := each (key, v) (Table.mem_of_get? hv)
      rw [hw]
      exact .some same
    | none =>
      rw [Table.get?_eq_none_iff, perm.mem_iff] at hv
      rw [Table.get?_eq_none_iff.2 hv]
      exact .none
  · intro each
    have keys : ∀ k, k ∈ Table.keys a ↔ k ∈ Table.keys b := by
      intro k
      rw [← not_iff_not, ← Table.get?_eq_none_iff, ← Table.get?_eq_none_iff]
      exact (each k).eq_none_iff
    refine ⟨((List.perm_ext_iff_of_nodup ha hb).2 keys).length_eq, fun e he => ?_⟩
    have there := each e.1
    rw [show Table.get? a e.1 = some e.2 from Table.lookup_of_mem ha he] at there
    exact there.exists_some

/-! ## Fields -/

/-- The members of an object, of whose fields some may be absent. -/
def present (fields : List (Text × Option Value)) : Members :=
  fields.filterMap fun f => f.2.map (f.1, ·)

section

variable {fields a b : List (Text × Option Value)}

theorem mem_present {key : Text} {v : Value} : (key, v) ∈ present fields ↔ (key, some v) ∈ fields := by
  simp only [present, List.mem_filterMap, Option.map_eq_some_iff, Prod.mk.injEq]
  constructor
  · rintro ⟨⟨k, o⟩, hm, w, rfl, rfl, rfl⟩
    exact hm
  · exact fun hm => ⟨_, hm, v, rfl, rfl, rfl⟩

theorem keys_present_sublist : (Table.keys (present fields)).Sublist (fields.map (·.1)) := by
  induction fields with
  | nil => exact List.Sublist.refl _
  | cons f rest ih =>
    obtain ⟨key, _ | v⟩ := f
    · exact ih.cons key
    · exact ih.cons_cons key

theorem get?_present (nodup : (fields.map (·.1)).Nodup) {key : Text} {o : Option Value}
    (h : (key, o) ∈ fields) : Table.get? (present fields) key = o := by
  cases o with
  | some v => exact Table.lookup_of_mem (nodup.sublist keys_present_sublist) (mem_present.2 h)
  | none =>
    refine Table.get?_eq_none_iff.2 fun hk => ?_
    obtain ⟨⟨_, v⟩, hm, rfl⟩ := List.mem_map.1 hk
    have := List.inj_on_of_nodup_map nodup h (mem_present.1 hm) rfl
    cases this

/-- Look-ups in objects whose fields are alike one by one. -/
private theorem alike_get? (h : List.Forall₂ (fun f g => f.1 = g.1 ∧ AlikeFields f.2 g.2) a b)
    (key : Text) : AlikeFields (Table.get? (present a) key) (Table.get? (present b) key) := by
  induction h with
  | nil => exact .none
  | @cons f g a b hfg _ ih =>
    obtain ⟨k, o⟩ := f
    obtain ⟨_, o'⟩ := g
    obtain ⟨rfl, alike⟩ := hfg
    cases alike with
    | none => exact ih
    | @some v w same =>
      show AlikeFields (List.lookup key ((k, v) :: present a)) (List.lookup key ((k, w) :: present b))
      rw [List.lookup_cons, List.lookup_cons]
      cases key == k with
      | true => exact .some same
      | false => exact ih

theorem strictEq_present_iff (keys : a.map (·.1) = b.map (·.1)) (nodup : (a.map (·.1)).Nodup) :
    (Value.object (present a)).strictEq (.object (present b)) ↔
      List.Forall₂ (fun f g => AlikeFields f.2 g.2) a b := by
  have nodup' : (b.map (·.1)).Nodup := keys ▸ nodup
  have aligned : List.Forall₂ (fun f g => f.1 = g.1) a b := by
    rwa [← List.forall₂_eq_eq_eq, List.forall₂_map_left_iff, List.forall₂_map_right_iff] at keys
  rw [strictEq_object_iff (nodup.sublist keys_present_sublist) (nodup'.sublist keys_present_sublist)]
  rw [List.forall₂_iff_zip] at aligned
  constructor
  · intro each
    refine List.forall₂_iff_zip.2 ⟨aligned.1, fun {f g} hm => ?_⟩
    have left := get?_present nodup (List.of_mem_zip hm).1
    have right := get?_present nodup' (List.of_mem_zip hm).2
    rw [← left, ← right, aligned.2 hm]
    exact each g.1
  · intro each
    rw [List.forall₂_iff_zip] at each
    exact alike_get? (List.forall₂_iff_zip.2 ⟨aligned.1, fun hm => ⟨aligned.2 hm, each.2 hm⟩⟩)

end

end DocShape.Json
