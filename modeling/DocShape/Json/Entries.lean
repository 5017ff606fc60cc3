import DocShape.Json.Value

/-!
# Entries of values

* `Json.Value.entries` lists what a value holds one level down, each value with the step to it;
  `Json.Value.byEntries` is the induction from these;
* `Json.Value.size` counts the values in a value, `Json.Value.totalSize` those in some values;
* `Json.Value.at?` is the value at an address inside a value.
-/

namespace DocShape.Json.Value

/-- The items of an array or the members of an object, in order, each with the step to it. -/
def entries : Value → List (Step × Value)
  | .array items => items.zipIdx.map fun (v, i) => (.index i, v)
  | .object members => members.map fun (key, v) => (.key key, v)
  | _ => []

theorem sizeOf_lt_of_mem_entries {v : Value} {e : Step × Value} (h : e ∈ v.entries) :
    sizeOf e.2 < sizeOf v := by
  cases v with
  | array items =>
    obtain ⟨⟨item, i⟩, hi, rfl⟩ := List.mem_map.1 h
    have : sizeOf item < sizeOf items := List.sizeOf_lt_of_mem (List.fst_mem_of_mem_zipIdx hi)
    simp only [array.sizeOf_spec]
    omega
  | object members =>
    obtain ⟨⟨key, w⟩, hm, rfl⟩ := List.mem_map.1 h
    have := List.sizeOf_lt_of_mem hm
    simp only [object.sizeOf_spec, Prod.mk.sizeOf_spec] at this ⊢
    omega
  | _ => cases h

/-- Induction from the entries of a value. -/
theorem byEntries {P : Value → Prop} (step : ∀ v, (∀ e ∈ v.entries, P e.2) → P v) (v : Value) : P v :=
  step v fun e _ => byEntries step e.2
termination_by sizeOf v
decreasing_by exact sizeOf_lt_of_mem_entries ‹_›

mutual

/-- How many values there are in a value, itself included. -/
def size : Value → Nat
  | .array items => itemsSize items + 1
  | .object members => membersSize members + 1
  | _ => 1

def itemsSize : List Value → Nat
  | [] => 0
  | item :: rest => item.size + itemsSize rest

def membersSize : List (Text × Value) → Nat
  | [] => 0
  | (_, v) :: rest => v.size + membersSize rest

end

/-- How many values there are in some values, whatever they are labelled with. -/
def totalSize {κ : Type} : List (κ × Value) → Nat
  | [] => 0
  | (_, v) :: rest => v.size + totalSize rest

section

variable {κ μ : Type}

theorem totalSize_append (l l' : List (κ × Value)) :
    totalSize (l ++ l') = totalSize l + totalSize l' := by
  induction l with
  | nil => simp [totalSize]
  | cons e rest ih =>
    simp only [List.cons_append, totalSize, ih]
    omega

theorem totalSize_reverse (l : List (κ × Value)) : totalSize l.reverse = totalSize l := by
  induction l with
  | nil => rfl
  | cons e rest ih =>
    simp only [List.reverse_cons, totalSize_append, totalSize, ih]
    omega

theorem totalSize_map (f : κ → μ) (l : List (κ × Value)) :
    totalSize (l.map fun (label, v) => (f label, v)) = totalSize l := by
  induction l with
  | nil => rfl
  | cons e rest ih => simp only [List.map_cons, totalSize, ih]

end

private theorem itemsSize_eq (i : Nat) (items : List Value) :
    itemsSize items = totalSize ((items.zipIdx i).map fun (v, i) => (Step.index i, v)) := by
  induction items generalizing i with
  | nil => rfl
  | cons item rest ih => rw [itemsSize, ih (i + 1), List.zipIdx_cons, List.map_cons, totalSize]

private theorem membersSize_eq (members : List (Text × Value)) :
    membersSize members = totalSize members := by
  induction members with
  | nil => rfl
  | cons e rest ih => rw [membersSize, ih, totalSize]

theorem size_eq (v : Value) : v.size = totalSize v.entries + 1 := by
  cases v with
  | array items => rw [size, itemsSize_eq 0, entries]
  | object members => rw [size, membersSize_eq, entries, totalSize_map]
  | _ => rfl

/-- The value at an address inside a value; the innermost step of the address comes first. -/
def at? (v : Value) : Pointer → Option Value
  | [] => some v
  | step :: outer => (v.at? outer).bind fun w => w.entries.lookup step

end DocShape.Json.Value
