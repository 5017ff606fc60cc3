import DocShape.Document.Inline
import DocShape.Proofs.Json.Keys

/-!
Nodes of a document: those that a member lists have distinct positions, and nodes inside a document
without repeated keys have no repeated keys.
-/

namespace DocShape.Document

open Json

/-! ## Nodes -/

private theorem objectsFrom_ascending (i : Nat) (items : List Value) :
    (objectsFrom i items).Pairwise fun a b => a.1 < b.1 := by
  induction items generalizing i with
  | nil => exact List.Pairwise.nil
  | cons item rest ih =>
    cases item with
    | object members =>
      refine List.pairwise_cons.2 ⟨fun b hb => ?_, ih (i + 1)⟩
      have := List.le_snd_of_mem_zipIdx (mem_objectsFrom_iff.1 hb)
      show i < b.1
      omega
    | _ => exact ih (i + 1)

theorem nodes_ascending {v : Value} {list : List (Nat × Members)} (h : nodes v = .ok list) :
    list.Pairwise fun a b => a.1 < b.1 := by
  rcases nodes_ok h with rfl | ⟨items, -, rfl⟩
  · exact List.Pairwise.nil
  · exact objectsFrom_ascending 0 items

theorem nodes_pairwise {v : Value} {list : List (Nat × Members)} (h : nodes v = .ok list) :
    list.Pairwise fun a b => a.1 ≠ b.1 :=
  (nodes_ascending h).imp Nat.ne_of_lt

theorem childNodes_ok {raw : Members} {key : Text} {list : List (Nat × Smaller raw)}
    (h : childNodes raw key = .ok list) :
    nodes (member raw key) = .ok (list.map fun e => (e.1, e.2.1)) := by
  unfold childNodes at h
  split at h
  · cases h
  · rename_i found hf
    cases h
    refine hf.trans ?_
    rw [List.map_map]
    exact congrArg Except.ok (List.attach_map_subtype_val found).symm

theorem inlineNodes_ok {origin : Pointer} {raw : Members} {list : List (Pointer × Smaller raw)}
    (h : inlineNodes origin raw = .ok list) :
    ∃ roots, typeRoots origin raw = .ok roots ∧
      inlineInRoots roots = list.map fun e => (e.1, e.2.1) := by
  unfold inlineNodes at h
  split at h
  · cases h
  · rename_i roots hr
    cases h
    refine ⟨roots, hr, ?_⟩
    rw [List.map_map]
    exact (List.attach_map_subtype_val (inlineInRoots roots)).symm

/-! ## Distinct keys -/

theorem distinctKeys_member {raw : Members} (h : Value.distinctKeysInMembers raw) (key : Text) :
    (member raw key).hasDistinctKeys := by
  unfold member
  cases hv : member? raw key with
  | none => rfl
  | some v => exact (distinctKeysInMembers_iff.1 h).2 (key, v) (Table.mem_of_get? hv)

theorem distinctKeys_of_mem_nodes {v : Value} {list : List (Nat × Members)} {i : Nat}
    {m : Members} (h : nodes v = .ok list) (hm : (i, m) ∈ list) (hv : v.hasDistinctKeys) :
    Value.distinctKeysInMembers m := by
  obtain ⟨items, rfl, hi⟩ := mem_nodes h hm
  exact distinctKeysInItems_iff.1 hv _ (List.mem_of_getElem? hi)

theorem distinctKeys_of_mem_inlineIn {address p : Pointer} {m : Members} (v : Value)
    (h : (p, m) ∈ inlineIn address v) :
    v.hasDistinctKeys → Value.distinctKeysInMembers m := by
  refine inlineIn_induction
    (P := fun _ v e => v.hasDistinctKeys → Value.distinctKeysInMembers e.2) ?_ ?_ h
  · intro address node declaration hd hv
    have inner := distinctKeys_member hv "declaration"
    rwa [(inlineDeclaration?_eq_some.1 hd).2] at inner
  · intro address v step w e hw inside hv
    exact inside (Value.hasDistinctKeys_of_mem_entries hv hw)

end DocShape.Document
