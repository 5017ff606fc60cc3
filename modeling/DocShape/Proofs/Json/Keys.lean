import DocShape.Journal
import DocShape.Json.Entries
import DocShape.Json.Reader
import DocShape.Proofs.Table

/-!
Values that are read from text repeat no key in any object (`read_hasDistinctKeys`): every step of the
reader keeps this of all values that it holds, since a later member replaces an earlier one.
-/

namespace DocShape.Json

/-! ## Objects and arrays -/

/-- Whether a value holds others. -/
def Value.isContainer : Value → Bool
  | .array _ | .object _ => true
  | _ => false

theorem distinctKeysInItems_iff {items : List Value} :
    Value.distinctKeysInItems items ↔ ∀ v ∈ items, v.hasDistinctKeys := by
  induction items with
  | nil => simp [Value.distinctKeysInItems]
  | cons v rest ih => simp [Value.distinctKeysInItems, ih]

theorem distinctKeysInMembers_iff {members : Members} :
    Value.distinctKeysInMembers members ↔
      (Table.keys members).Nodup ∧ ∀ e ∈ members, e.2.hasDistinctKeys := by
  induction members with
  | nil => simp [Value.distinctKeysInMembers, Table.keys]
  | cons e rest ih =>
    obtain ⟨key, v⟩ := e
    simp only [Value.distinctKeysInMembers, Table.keys, Bool.and_eq_true, ih, List.map_cons,
      List.nodup_cons, List.mem_cons, forall_eq_or_imp, Bool.not_eq_true', List.contains_eq_mem,
      decide_eq_false_iff_not]
    tauto

namespace Value

variable {v : Value}

/-- Entries stand at steps of their own. -/
theorem nodup_steps (distinct : v.hasDistinctKeys) : (v.entries.map (·.1)).Nodup := by
  cases v with
  | array items =>
    have positions : (array items).entries.map (·.1) = (items.zipIdx.map Prod.snd).map .index := by
      rw [entries, List.map_map, List.map_map]
      rfl
    rw [positions, List.zipIdx_map_snd]
    exact List.Nodup.map (fun _ _ he => Step.index.inj he) List.nodup_range'
  | object members =>
    have keys : (object members).entries.map (·.1) = (Table.keys members).map .key := by
      rw [entries, Table.keys, List.map_map, List.map_map]
      rfl
    rw [keys]
    exact (distinctKeysInMembers_iff.1 distinct).1.map fun _ _ he => Step.key.inj he
  | _ => exact List.nodup_nil

theorem hasDistinctKeys_of_mem_entries (distinct : v.hasDistinctKeys) {e : Step × Value}
    (h : e ∈ v.entries) : e.2.hasDistinctKeys := by
  cases v with
  | array items =>
    obtain ⟨⟨item, i⟩, hi, rfl⟩ := List.mem_map.1 h
    exact distinctKeysInItems_iff.1 distinct item (List.fst_mem_of_mem_zipIdx hi)
  | object members =>
    obtain ⟨member, hm, rfl⟩ := List.mem_map.1 h
    exact (distinctKeysInMembers_iff.1 distinct).2 member hm
  | _ => cases h

end Value

theorem distinctKeysInMembers_put {members : Members} {key : Text} {v : Value}
    (hm : Value.distinctKeysInMembers members) (hv : v.hasDistinctKeys) :
    Value.distinctKeysInMembers (Table.put members key v) := by
  rw [distinctKeysInMembers_iff] at hm ⊢
  refine ⟨Table.nodup_keys_put hm.1 key v, fun e he => ?_⟩
  rcases Table.mem_put he with h | h
  · rw [h]
    exact hv
  · exact hm.2 e h

/-! ## Tokens -/

/-- The value of a token that is a value by itself. -/
def Token.Distinct : Token → Prop
  | .scalar v => v.hasDistinctKeys
  | _ => True

private theorem magnitude_distinct {negative : Bool} {s rest : Text} {token : Token}
    (h : magnitude? negative s = some (token, rest)) : token.Distinct := by
  unfold magnitude? at h
  split at h
  · cases h
  · simp only [Option.some.injEq, Prod.mk.injEq] at h
    rw [← h.1]
    split
    · split
      · trivial
      · rfl
    · rfl

private theorem next_distinct {s rest : Text} {token : Token}
    (h : Token.next? s = some (token, rest)) : token.Distinct := by
  unfold Token.next? at h
  split at h
  · cases h
  · rename_i c tail
    split at h
    · rename_i t hp
      cases h
      unfold punctuation? at hp
      split at hp <;> cases hp <;> trivial
    · rcases Option.or_eq_some_iff.1 h with h | ⟨-, h⟩
      · unfold string? at h
        dsimp only at h
        split at h
        · obtain ⟨_, -, ⟨⟩⟩ := Option.map_eq_some_iff.1 h
          trivial
        · cases h
      · rcases Option.or_eq_some_iff.1 h with h | ⟨-, h⟩
        · have words : ∀ entry ∈ wordTable, entry.2.hasDistinctKeys := by decide
          obtain ⟨entry, he, ⟨⟩⟩ := Option.map_eq_some_iff.1 h
          exact words entry (List.mem_of_find?_eq_some he)
        · unfold number? at h
          dsimp only at h
          split at h
          · exact magnitude_distinct h
          · exact magnitude_distinct h

private theorem tokens_distinct (s : Text) : ∀ token ∈ tokens s, token.Distinct := by
  fun_induction tokens s with
  | case1 => simp
  | case2 c rest hs ih => exact ih
  | case3 c rest hs hn => simp [Token.Distinct]
  | case4 c rest hs token rest' hn ih =>
    intro t ht
    rcases List.mem_cons.1 ht with rfl | ht
    · exact next_distinct hn
    · exact ih t ht

/-! ## Steps and runs -/

def Frame.Distinct : Frame → Prop
  | .array items => Value.distinctKeysInItems items
  | .object members _ => Value.distinctKeysInMembers members

def Expectation.Distinct : Expectation → Prop
  | .key members => Value.distinctKeysInMembers members
  | .colon members _ => Value.distinctKeysInMembers members
  | .finished v => v.hasDistinctKeys
  | .value | .firstItem | .firstKey => True

/-- No value that a reading holds repeats a key in an object. -/
structure Reading.Distinct (r : Reading) : Prop where
  next : r.next.Distinct
  stack : ∀ f ∈ r.stack, f.Distinct

namespace Reading

private theorem stepValue_distinct {token : Token} {stack : List Frame} {r : Reading}
    (ht : token.Distinct) (hs : ∀ f ∈ stack, f.Distinct) (h : stepValue token stack = .ok r) :
    r.Distinct := by
  cases token <;> cases h
  · exact ⟨trivial, hs⟩
  · exact ⟨trivial, hs⟩
  · exact ⟨rfl, hs⟩
  · exact ⟨ht, hs⟩

private theorem stepFinished_distinct {token : Token} {v : Value} {stack : List Frame}
    {r : Reading} (hv : v.hasDistinctKeys) (hs : ∀ f ∈ stack, f.Distinct)
    (h : stepFinished token v stack = .ok r) : r.Distinct := by
  unfold stepFinished at h
  split at h
  · rename_i items stack
    cases h
    obtain ⟨hf, hs⟩ := List.forall_mem_cons.1 hs
    refine ⟨trivial, List.forall_mem_cons.2 ⟨?_, hs⟩⟩
    simpa [Frame.Distinct, Value.distinctKeysInItems, hv] using hf
  · rename_i members key stack
    cases h
    obtain ⟨hf, hs⟩ := List.forall_mem_cons.1 hs
    exact ⟨distinctKeysInMembers_put hf hv, hs⟩
  · rename_i items stack
    cases h
    obtain ⟨hf, hs⟩ := List.forall_mem_cons.1 hs
    refine ⟨distinctKeysInItems_iff.2 fun w hw => ?_, hs⟩
    rcases List.mem_cons.1 (List.mem_reverse.1 hw) with rfl | hw
    · exact hv
    · exact distinctKeysInItems_iff.1 hf w hw
  · rename_i members key stack
    cases h
    obtain ⟨hf, hs⟩ := List.forall_mem_cons.1 hs
    exact ⟨distinctKeysInMembers_put hf hv, hs⟩
  · cases h

theorem step_distinct {token : Token} {r r' : Reading} (ht : token.Distinct) (hr : r.Distinct)
    (h : r.step token = .ok r') : r'.Distinct := by
  obtain ⟨next, stack⟩ := r
  obtain ⟨hn, hs⟩ := hr
  unfold step at h
  split at h
  · exact stepValue_distinct ht hs h
  · cases h
    exact ⟨rfl, hs⟩
  · refine stepValue_distinct ht (List.forall_mem_cons.2 ⟨?_, hs⟩) h
    exact (rfl : Value.distinctKeysInItems [] = true)
  · cases h
    exact ⟨rfl, hs⟩
  · cases h
    exact ⟨rfl, hs⟩
  · rename_i hnext
    cases h
    cases hnext
    exact ⟨hn, hs⟩
  · rename_i hnext
    cases h
    cases hnext
    exact ⟨trivial, List.forall_mem_cons.2 ⟨hn, hs⟩⟩
  · rename_i hnext
    cases hnext
    exact stepFinished_distinct hn hs h
  · cases h

theorem run_distinct {l : List Token} {r r' : Reading} (ht : ∀ token ∈ l, token.Distinct)
    (hr : r.Distinct) (h : run l r = .ok r') : r'.Distinct := by
  induction l generalizing r with
  | nil =>
    cases h
    exact hr
  | cons token rest ih =>
    obtain ⟨htoken, hrest⟩ := List.forall_mem_cons.1 ht
    rw [run] at h
    split at h
    · rename_i r₁ hstep
      exact ih hrest (step_distinct htoken hr hstep) h
    · cases h

end Reading

theorem read_hasDistinctKeys {s : Text} {v : Value} (h : read s = .ok v) : v.hasDistinctKeys := by
  unfold read at h
  obtain ⟨r, hr, h⟩ := bind_eq_ok.1 h
  have start : Reading.Distinct ⟨.value, []⟩ := ⟨trivial, by simp⟩
  have hd := Reading.run_distinct (tokens_distinct s) start hr
  unfold Reading.value? at h
  split at h
  · cases h
    exact hd.next
  · cases h

end DocShape.Json
