import DocShape.Command.Run
import DocShape.Proofs.Json.Keys
import DocShape.Yaml.Block

/-!
The program's own reader of configuration files gives no mapping that repeats a key, which is what is relied on
of a reader (`read_repeatsNoKey`). The readers of mappings put one member after another into the members before
it, so that the keys of these stay distinct; every other reader only passes values on.
-/

namespace DocShape.Yaml

open Json (Value Members distinctKeysInItems_iff distinctKeysInMembers_put)

/-! ## Scalars -/

theorem resolve_hasDistinctKeys (t : Text) : (resolve t).hasDistinctKeys := by
  unfold resolve
  split_ifs <;> try rfl
  split
  · rfl
  · split <;> rfl

section

variable {s r : Text} {v : Value}

theorem plain?_hasDistinctKeys (h : plain? s = some (v, r)) : v.hasDistinctKeys := by
  unfold plain? at h
  split at h
  · split at h
    · cases h
      exact resolve_hasDistinctKeys _
    · cases h
  · cases h

theorem plainValue?_hasDistinctKeys {n : Nat} {ls ls' : List Text}
    (h : plainValue? n s ls = some (v, ls')) : v.hasDistinctKeys := by
  unfold plainValue? at h
  split at h
  · obtain ⟨_, -, he⟩ := Option.map_eq_some_iff.1 h
    cases he
    exact resolve_hasDistinctKeys _
  · split at h
    · cases h
      exact resolve_hasDistinctKeys _
    · cases h

end

private theorem items_cons {v : Value} {vs : List Value} (hv : v.hasDistinctKeys)
    (hvs : Value.distinctKeysInItems vs) : Value.distinctKeysInItems (v :: vs) :=
  distinctKeysInItems_iff.2 (List.forall_mem_cons.2 ⟨hv, distinctKeysInItems_iff.1 hvs⟩)

/-! ## Flow collections -/

mutual

theorem node?_hasDistinctKeys {fuel : Nat} {s r : Text} {v : Value} (h : node? fuel s = some (v, r)) :
    v.hasDistinctKeys := by
  cases fuel with
  | zero => cases h
  | succ fuel =>
    rw [node?] at h
    split at h
    · cases h
    · split_ifs at h
      · obtain ⟨_, hi, he⟩ := Option.map_eq_some_iff.1 h
        cases he
        exact items?_hasDistinctKeys hi
      · obtain ⟨_, hm, he⟩ := Option.map_eq_some_iff.1 h
        cases he
        exact members?_hasDistinctKeys rfl hm
      · obtain ⟨_, -, he⟩ := Option.map_eq_some_iff.1 h
        cases he
        rfl
      · exact plain?_hasDistinctKeys h

theorem items?_hasDistinctKeys {fuel : Nat} {s r : Text} {vs : List Value}
    (h : items? fuel s = some (vs, r)) : Value.distinctKeysInItems vs := by
  cases fuel with
  | zero => cases h
  | succ fuel =>
    rw [items?] at h
    split at h
    · cases h
    · split_ifs at h
      · cases h
        rfl
      · split at h
        · cases h
        · rename_i hnode
          split at h
          · cases h
          · rename_i hentry
            have hv := entry?_hasDistinctKeys (node?_hasDistinctKeys hnode) hentry
            split at h
            · cases h
            · split_ifs at h
              · obtain ⟨_, hi, he⟩ := Option.map_eq_some_iff.1 h
                cases he
                exact items_cons hv (items?_hasDistinctKeys hi)
              · cases h
                exact items_cons hv rfl

theorem entry?_hasDistinctKeys {fuel : Nat} {s r : Text} {v w : Value} (hv : v.hasDistinctKeys)
    (h : entry? fuel v s = some (w, r)) : w.hasDistinctKeys := by
  cases fuel with
  | zero => cases h
  | succ fuel =>
    unfold entry? at h
    split at h
    · split_ifs at h
      · split at h
        · rename_i hvalue
          cases h
          have empty : Value.distinctKeysInMembers [] := rfl
          exact distinctKeysInMembers_put empty (value?_hasDistinctKeys hvalue)
        · cases h
      · cases h
        exact hv
    · cases h

theorem value?_hasDistinctKeys {fuel : Nat} {s r : Text} {v : Value} (h : value? fuel s = some (v, r)) :
    v.hasDistinctKeys := by
  cases fuel with
  | zero => cases h
  | succ fuel =>
    rw [value?] at h
    split at h
    · cases h
    · split_ifs at h
      · cases h
        rfl
      · exact node?_hasDistinctKeys h

theorem members?_hasDistinctKeys {fuel : Nat} {before members : Members} {s r : Text}
    (hb : Value.distinctKeysInMembers before) (h : members? fuel before s = some (members, r)) :
    Value.distinctKeysInMembers members := by
  cases fuel with
  | zero => cases h
  | succ fuel =>
    rw [members?] at h
    split at h
    · cases h
    · split_ifs at h
      · cases h
        exact hb
      · split at h
        · cases h
        · split at h
          · dsimp only at h
            split at h
            · cases h
            · rename_i v r hpair
              have hv : v.hasDistinctKeys := by
                split_ifs at hpair
                · exact value?_hasDistinctKeys hpair
                · cases hpair
                  rfl
              split at h
              · cases h
              · split_ifs at h
                · exact members?_hasDistinctKeys (distinctKeysInMembers_put hb hv) h
                · cases h
                  exact distinctKeysInMembers_put hb hv
          · cases h

end

/-! ## Values in lines -/

theorem inline?_hasDistinctKeys {n : Nat} {s : Text} {ls ls' : List Text} {v : Value}
    (h : inline? n s ls = some (v, ls')) : v.hasDistinctKeys := by
  unfold inline? at h
  dsimp only at h
  split at h
  · cases h
  · split_ifs at h
    -- What may stand behind a value is looked at after the value is read, and does not change it.
    · obtain ⟨⟨w, r⟩, hf, h⟩ := Option.bind_eq_some_iff.1 h
      have distinct : w.hasDistinctKeys := node?_hasDistinctKeys hf
      dsimp only at h
      split at h
      · cases h
        exact distinct
      · split_ifs at h
        cases h
        exact distinct
    · obtain ⟨⟨t, r⟩, -, h⟩ := Option.bind_eq_some_iff.1 h
      dsimp only at h
      split at h
      · cases h
        rfl
      · split_ifs at h
        cases h
        rfl
    · exact plainValue?_hasDistinctKeys h

/-! ## Blocks -/

mutual

theorem block_hasDistinctKeys {fuel n : Nat} {ls ls' : List Text} {v : Value}
    (h : block fuel n ls = some (v, ls')) : v.hasDistinctKeys := by
  cases fuel with
  | zero =>
    rw [block] at h
    cases h
  | succ fuel =>
    rw [block] at h
    split at h
    · cases h
      rfl
    · dsimp only at h
      split_ifs at h
      · cases h
        rfl
      · obtain ⟨_, hi, he⟩ := Option.map_eq_some_iff.1 h
        cases he
        exact items_hasDistinctKeys hi
      · obtain ⟨_, hm, he⟩ := Option.map_eq_some_iff.1 h
        cases he
        exact members_hasDistinctKeys rfl hm
      · exact inline?_hasDistinctKeys h

theorem items_hasDistinctKeys {fuel i : Nat} {ls ls' : List Text} {vs : List Value}
    (h : items fuel i ls = some (vs, ls')) : Value.distinctKeysInItems vs := by
  cases fuel with
  | zero =>
    rw [items] at h
    cases h
  | succ fuel =>
    rw [items] at h
    split at h
    · cases h
      rfl
    · dsimp only at h
      split_ifs at h
      · split at h
        · cases h
        · rename_i hblock
          obtain ⟨_, hi, he⟩ := Option.map_eq_some_iff.1 h
          cases he
          exact items_cons (block_hasDistinctKeys hblock) (items_hasDistinctKeys hi)
      · cases h
        rfl

theorem members_hasDistinctKeys {fuel i : Nat} {before members' : Members} {ls ls' : List Text}
    (hb : Value.distinctKeysInMembers before) (h : members fuel i before ls = some (members', ls')) :
    Value.distinctKeysInMembers members' := by
  cases fuel with
  | zero =>
    rw [members] at h
    cases h
  | succ fuel =>
    rw [members] at h
    split at h
    · cases h
      exact hb
    · split at h
      · cases h
      · split at h
        · cases h
          exact hb
        · split at h
          · split at h
            · cases h
              exact hb
            · cases h
          · split at h
            · rename_i hvalue
              have hv := value_hasDistinctKeys hvalue
              exact members_hasDistinctKeys (distinctKeysInMembers_put hb hv) h
            · cases h

theorem value_hasDistinctKeys {fuel i : Nat} {behind : Text} {ls ls' : List Text} {v : Value}
    (h : value fuel i behind ls = some (v, ls')) : v.hasDistinctKeys := by
  cases fuel with
  | zero =>
    rw [value] at h
    cases h
  | succ fuel =>
    rw [value] at h
    split_ifs at h
    · split at h
      · cases h
        rfl
      · split_ifs at h
        · obtain ⟨_, hi, he⟩ := Option.map_eq_some_iff.1 h
          cases he
          exact items_hasDistinctKeys hi
        · exact block_hasDistinctKeys h
    · exact inline?_hasDistinctKeys h

end

/-! ## Documents -/

theorem document?_hasDistinctKeys {ls ls' : List Text} {v : Value}
    (h : document? ls = some (v, ls')) : v.hasDistinctKeys := by
  unfold document? at h
  dsimp only at h
  split at h
  · cases h
    rfl
  · split_ifs at h
    · exact block_hasDistinctKeys h
    · exact inline?_hasDistinctKeys h
    · exact block_hasDistinctKeys h

theorem read_repeatsNoKey : Command.ConfigReader.RepeatsNoKey read := by
  intro t v h
  unfold read at h
  dsimp only at h
  split_ifs at h
  split at h
  · rename_i hd
    split_ifs at h
    cases h
    exact document?_hasDistinctKeys hd
  · cases h

end DocShape.Yaml
