import DocShape.Document.Node
import DocShape.Journal
import DocShape.Json.Entries

/-!
# Inline declarations

An inline declaration hangs off a type, at any depth below the types of a declaration, of its
signatures and of their parameters.

* `Document.Scan` is a search for them with a stack, and `Document.inlineInRoots` what it finds below
  some values, the last value first;
* `Document.inlineIn` lists those of one value by recursion, in document order; what is shown of them
  is shown by `Document.inlineIn_induction`;
* `Document.inlineNodes` finds those below the types of one declaration and shows each to be smaller
  than the declaration.
-/

namespace DocShape.Document

open Json

/-! ## Below one value -/

/-- The declaration of a type node that is an inline declaration. -/
def inlineDeclaration? (node : Members) : Option Members :=
  if (member node "type").isText "reflection" then object? node "declaration" else none

theorem inlineDeclaration?_eq_some {node m : Members} :
    inlineDeclaration? node = some m ↔
      member node "type" = .text "reflection" ∧ member node "declaration" = .object m := by
  unfold inlineDeclaration? object?
  constructor
  · intro h
    split at h
    · rename_i type
      split at h
      · rename_i members declaration
        cases h
        exact ⟨Value.isText_iff.1 type, declaration⟩
      · cases h
    · cases h
  · rintro ⟨type, declaration⟩
    rw [if_pos (Value.isText_iff.2 type), declaration]

mutual

/-- The outermost inline declarations of the value at an address. -/
def inlineIn (address : Pointer) : Value → List (Pointer × Members)
  | .array items => inlineInItems address 0 items
  | .object node =>
    match inlineDeclaration? node with
    | some declaration => [(.key "declaration" :: address, declaration)]
    | none => inlineInMembers address node
  | .null | .bool _ | .int _ | .float _ | .text _ => []

/-- The same for the items of an array, numbered from `i`. -/
def inlineInItems (address : Pointer) (i : Nat) : List Value → List (Pointer × Members)
  | [] => []
  | item :: rest => inlineIn (.index i :: address) item ++ inlineInItems address (i + 1) rest

/-- The same for the members of an object. -/
def inlineInMembers (address : Pointer) : List (Text × Value) → List (Pointer × Members)
  | [] => []
  | (key, v) :: rest => inlineIn (.key key :: address) v ++ inlineInMembers address rest

end

/-! ## The scan -/

/-- The inline declaration of the type node that a value at an address is. -/
def inlineAt? (address : Pointer) : Value → Option (Pointer × Members)
  | .object node => (inlineDeclaration? node).map fun m => (.key "declaration" :: address, m)
  | _ => none

/-- A scan for inline declarations: those found so far, and the values that are still to be looked
at, the next one first. -/
structure Scan where
  found : List (Pointer × Members)
  stack : List (Pointer × Value)

namespace Scan

/-- The last of some values is looked at first. -/
def start (roots : List (Pointer × Value)) : Scan := ⟨[], roots.reverse⟩

/-- One round takes the next value off the stack. A node with an inline declaration is not entered;
the entries of any other value take its place. -/
def round : Scan → Scan
  | ⟨found, []⟩ => ⟨found, []⟩
  | ⟨found, (address, v) :: rest⟩ =>
    match inlineAt? address v with
    | some declaration => ⟨found ++ [declaration], rest⟩
    | none => ⟨found, (v.entries.map fun (step, w) => (step :: address, w)) ++ rest⟩

/-- How many values there are on the stack and in what lies on it. -/
def size (s : Scan) : Nat := Value.totalSize s.stack

theorem size_round_lt {found : List (Pointer × Members)} {next : Pointer × Value}
    {rest : List (Pointer × Value)} :
    (round ⟨found, next :: rest⟩).size < size ⟨found, next :: rest⟩ := by
  obtain ⟨address, v⟩ := next
  have opened := v.size_eq
  have kept : Value.totalSize (v.entries.map fun (step, w) => (step :: address, w)) =
      Value.totalSize v.entries := Value.totalSize_map (· :: address) v.entries
  simp only [round]
  split <;> simp only [size, Value.totalSize, Value.totalSize_append, kept] <;> omega

/-- Rounds are made until no value is left. -/
def run : Scan → List (Pointer × Members)
  | ⟨found, []⟩ => found
  | ⟨found, next :: rest⟩ => run (round ⟨found, next :: rest⟩)
termination_by s => s.size
decreasing_by exact size_round_lt

/-- What is still to be found. -/
def pending (s : Scan) : List (Pointer × Members) := s.stack.flatMap fun e => inlineIn e.1 e.2

end Scan

/-! ## What is found -/

private theorem inlineInItems_eq (address : Pointer) (i : Nat) (items : List Value) :
    inlineInItems address i items =
      (items.zipIdx i).flatMap fun e => inlineIn (.index e.2 :: address) e.1 := by
  induction items generalizing i with
  | nil => rfl
  | cons item rest ih => rw [inlineInItems, ih, List.zipIdx_cons, List.flatMap_cons]

private theorem inlineInMembers_eq (address : Pointer) (members : Members) :
    inlineInMembers address members =
      members.flatMap fun e => inlineIn (.key e.1 :: address) e.2 := by
  induction members with
  | nil => rfl
  | cons e rest ih => rw [inlineInMembers, ih, List.flatMap_cons]

/-- A node that has an inline declaration has just this one; any other value has those of its
entries. -/
theorem inlineIn_eq (address : Pointer) (v : Value) :
    inlineIn address v = match inlineAt? address v with
      | some declaration => [declaration]
      | none => v.entries.flatMap fun e => inlineIn (e.1 :: address) e.2 := by
  cases v with
  | array items =>
    simp only [inlineAt?, Value.entries]
    rw [inlineIn, inlineInItems_eq, List.flatMap_map]
  | object node =>
    simp only [inlineIn, inlineAt?, Value.entries]
    cases inlineDeclaration? node with
    | some m => rfl
    | none =>
      simp only [Option.map_none]
      rw [inlineInMembers_eq, List.flatMap_map]
  | _ => rfl

/-- What is inside a value is its own inline declaration, or it is inside one of its entries. -/
theorem inlineIn_induction {P : Pointer → Value → Pointer × Members → Prop}
    (own : ∀ address node declaration, inlineDeclaration? node = some declaration →
      P address (.object node) (.key "declaration" :: address, declaration))
    (entry : ∀ address v step w e, (step, w) ∈ v.entries → P (step :: address) w e → P address v e)
    {address : Pointer} {v : Value} {e : Pointer × Members} (h : e ∈ inlineIn address v) :
    P address v e := by
  induction v using Value.byEntries generalizing address with
  | step v ih =>
    rw [inlineIn_eq] at h
    cases found : inlineAt? address v with
    | some d =>
      rw [found] at h
      obtain rfl := List.mem_singleton.1 h
      cases v with
      | object node =>
        obtain ⟨declaration, hd, rfl⟩ := Option.map_eq_some_iff.1 found
        exact own address node declaration hd
      | _ => cases found
    | none =>
      rw [found] at h
      obtain ⟨⟨step, w⟩, hw, he⟩ := List.mem_flatMap.1 h
      exact entry address v step w e hw (ih (step, w) hw he)

/-- What is inside an entry is inside the value, unless the value has an inline declaration. -/
theorem mem_inlineIn_of_entry {address : Pointer} {v w : Value} {step : Step}
    {e : Pointer × Members} (hn : inlineAt? address v = none) (hw : (step, w) ∈ v.entries)
    (he : e ∈ inlineIn (step :: address) w) : e ∈ inlineIn address v := by
  rw [inlineIn_eq, hn]
  exact List.mem_flatMap.2 ⟨(step, w), hw, he⟩

private theorem sizeOf_inlineDeclaration?_lt {node declaration : Members}
    (h : inlineDeclaration? node = some declaration) : sizeOf declaration < sizeOf node := by
  unfold inlineDeclaration? at h
  split at h
  · exact sizeOf_object?_lt h
  · simp at h

theorem sizeOf_lt_of_mem_inlineIn {address p : Pointer} {m : Members} (v : Value)
    (h : (p, m) ∈ inlineIn address v) : sizeOf m < sizeOf v := by
  refine inlineIn_induction (P := fun _ v e => sizeOf e.2 < sizeOf v) ?_ ?_ h
  · intro address node declaration hd
    have := sizeOf_inlineDeclaration?_lt hd
    simp only [Value.object.sizeOf_spec]
    omega
  · intro address v step w e hw inside
    exact Nat.lt_trans inside (Value.sizeOf_lt_of_mem_entries hw)

namespace Scan

/-- What has been found and what is still to be found is, together, the same after a round. -/
theorem found_round (s : Scan) : s.round.found ++ s.round.pending = s.found ++ s.pending := by
  obtain ⟨found, _ | ⟨⟨address, v⟩, rest⟩⟩ := s
  · rfl
  · simp only [round, pending, List.flatMap_cons]
    rw [inlineIn_eq address v]
    cases inlineAt? address v with
    | some declaration => rw [List.append_assoc]
    | none => rw [List.flatMap_append, List.flatMap_map]

/-- A scan ends with what it has found and what is still to be found. -/
theorem run_eq (s : Scan) : s.run = s.found ++ s.pending := by
  fun_induction run s with
  | case1 found => exact (List.append_nil found).symm
  | case2 found next rest ih => rw [ih, found_round]

end Scan

/-- The outermost inline declarations of some values, as a scan finds them. -/
def inlineInRoots (roots : List (Pointer × Value)) : List (Pointer × Members) :=
  (Scan.start roots).run

/-- The inline declarations of each value, the last value first. -/
theorem inlineInRoots_eq (roots : List (Pointer × Value)) :
    inlineInRoots roots = roots.reverse.flatMap fun root => inlineIn root.1 root.2 :=
  Scan.run_eq (Scan.start roots)

theorem mem_inlineInRoots_iff {roots : List (Pointer × Value)} {e : Pointer × Members} :
    e ∈ inlineInRoots roots ↔ ∃ root ∈ roots, e ∈ inlineIn root.1 root.2 := by
  rw [inlineInRoots_eq]
  simp only [List.mem_flatMap, List.mem_reverse]

/-! ## Below the types of a declaration -/

/-- The types of the parameters of a signature and its own type, which comes first. -/
def signatureRoots (address : Pointer) (signature : Members) :
    Except Fault (List (Pointer × Value)) := do
  let parameters ← nodes (member signature "parameters")
  return (.key "type" :: address, member signature "type") ::
    parameters.map fun (i, p) => (.key "type" :: .index i :: .key "parameters" :: address,
      member p "type")

/-- The types of some signatures. -/
def signaturesRoots (address : Pointer) :
    List (Nat × Members) → Except Fault (List (Pointer × Value))
  | [] => .ok []
  | (i, signature) :: rest => do
    let roots ← signatureRoots (.index i :: .key "signatures" :: address) signature
    let others ← signaturesRoots address rest
    return roots ++ others

/-- The types that belong to a declaration and to its signatures, in document order. -/
def typeRoots (address : Pointer) (raw : Members) : Except Fault (List (Pointer × Value)) := do
  let signatures ← nodes (member raw "signatures")
  let roots ← signaturesRoots address signatures
  return (.key "type" :: address, member raw "type") :: roots

theorem signatureRoots_ok {address : Pointer} {signature : Members}
    {roots : List (Pointer × Value)} (h : signatureRoots address signature = .ok roots) :
    ∃ parameters, nodes (member signature "parameters") = .ok parameters ∧
      roots = (.key "type" :: address, member signature "type") ::
        parameters.map fun e => (.key "type" :: .index e.1 :: .key "parameters" :: address,
          member e.2 "type") := by
  obtain ⟨parameters, hp, h⟩ := bind_eq_ok.1 h
  exact ⟨parameters, hp, (Except.ok.inj h).symm⟩

theorem signaturesRoots_ok {address : Pointer} {entry : Nat × Members}
    {rest : List (Nat × Members)} {roots : List (Pointer × Value)}
    (h : signaturesRoots address (entry :: rest) = .ok roots) :
    ∃ first others,
      signatureRoots (.index entry.1 :: .key "signatures" :: address) entry.2 = .ok first ∧
      signaturesRoots address rest = .ok others ∧ roots = first ++ others := by
  obtain ⟨first, hf, h⟩ := bind_eq_ok.1 h
  obtain ⟨others, ho, h⟩ := bind_eq_ok.1 h
  exact ⟨first, others, hf, ho, (Except.ok.inj h).symm⟩

theorem typeRoots_ok {address : Pointer} {raw : Members} {roots : List (Pointer × Value)}
    (h : typeRoots address raw = .ok roots) :
    ∃ signatures others, nodes (member raw "signatures") = .ok signatures ∧
      signaturesRoots address signatures = .ok others ∧
      roots = (.key "type" :: address, member raw "type") :: others := by
  obtain ⟨signatures, hs, h⟩ := bind_eq_ok.1 h
  obtain ⟨others, ho, h⟩ := bind_eq_ok.1 h
  exact ⟨signatures, others, hs, ho, (Except.ok.inj h).symm⟩

theorem sizeOf_member_le (raw : Members) (key : Text) : sizeOf (member raw key) ≤ sizeOf raw := by
  unfold member
  cases h : member? raw key with
  | none =>
    cases raw with
    | nil => simp
    | cons =>
      simp
      omega
  | some v =>
    have := sizeOf_get?_lt h
    simp only [Option.getD_some]
    omega

private theorem sizeOf_signatureRoots_le {address p : Pointer} {signature : Members} {v : Value}
    {roots : List (Pointer × Value)} (h : signatureRoots address signature = .ok roots)
    (hm : (p, v) ∈ roots) : sizeOf v ≤ sizeOf signature := by
  obtain ⟨parameters, hp, rfl⟩ := signatureRoots_ok h
  rcases List.mem_cons.1 hm with hm | hm
  · cases hm
    exact sizeOf_member_le _ _
  · obtain ⟨⟨i, m⟩, hi, heq⟩ := List.mem_map.1 hm
    cases heq
    exact Nat.le_of_lt (Nat.lt_of_le_of_lt (sizeOf_member_le m "type")
      (sizeOf_lt_of_mem_nodes hp hi))

private theorem sizeOf_signaturesRoots_le {address p : Pointer} {v : Value} {bound : Nat}
    (signatures : List (Nat × Members)) {roots : List (Pointer × Value)}
    (small : ∀ i m, (i, m) ∈ signatures → sizeOf m ≤ bound)
    (h : signaturesRoots address signatures = .ok roots) (hm : (p, v) ∈ roots) :
    sizeOf v ≤ bound := by
  induction signatures generalizing roots with
  | nil => simp_all [signaturesRoots]
  | cons entry rest ih =>
    obtain ⟨first, others, hf, ho, rfl⟩ := signaturesRoots_ok h
    rcases List.mem_append.1 hm with hm | hm
    · exact Nat.le_trans (sizeOf_signatureRoots_le hf hm) (small _ _ (List.mem_cons_self ..))
    · exact ih (fun i m hm => small i m (List.mem_cons_of_mem _ hm)) ho hm

theorem sizeOf_typeRoots_le {address p : Pointer} {raw : Members} {v : Value}
    {roots : List (Pointer × Value)} (h : typeRoots address raw = .ok roots)
    (hm : (p, v) ∈ roots) : sizeOf v ≤ sizeOf raw := by
  obtain ⟨signatures, others, hs, ho, rfl⟩ := typeRoots_ok h
  rcases List.mem_cons.1 hm with hm | hm
  · cases hm
    exact sizeOf_member_le _ _
  · exact sizeOf_signaturesRoots_le signatures
      (fun _ _ hi => Nat.le_of_lt (sizeOf_lt_of_mem_nodes hs hi)) ho hm

/-! ## Smaller nodes -/

/-- A node inside an object, known to be smaller than it. -/
abbrev Smaller (raw : Members) := { m : Members // sizeOf m < sizeOf raw }

/-- The objects that a member lists. -/
def childNodes (raw : Members) (key : Text) : Except Fault (List (Nat × Smaller raw)) :=
  match h : nodes (member raw key) with
  | .error e => .error e
  | .ok list => .ok (list.attach.map fun ⟨(i, m), hm⟩ => (i, ⟨m, sizeOf_lt_of_mem_nodes h hm⟩))

private theorem sizeOf_lt_of_mem_array {raw m : Members} {key : Text} {items : List Value}
    (h : member raw key = .array items) (hm : .object m ∈ items) : sizeOf m < sizeOf raw := by
  have h₁ := sizeOf_member_le raw key
  have h₂ := List.sizeOf_lt_of_mem hm
  simp only [h, Value.array.sizeOf_spec, Value.object.sizeOf_spec] at h₁ h₂
  omega

/-- Everything that a member lists, objects and others. -/
def childElements (raw : Members) (key : Text) : Except Fault (List (Option (Smaller raw))) :=
  match h : member raw key with
  | .array items => .ok (items.attach.map fun
    | ⟨.object m, hm⟩ => some ⟨m, sizeOf_lt_of_mem_array h hm⟩
    | _ => none)
  | v => (elements v).map fun list => list.map fun _ => none

/-- The object that a member is. -/
def childNode? (raw : Members) (key : Text) : Option (Smaller raw) :=
  match h : object? raw key with
  | none => none
  | some m => some ⟨m, sizeOf_object?_lt h⟩

private theorem sizeOf_lt_of_mem_inlineInRoots {address p : Pointer} {raw m : Members}
    {roots : List (Pointer × Value)} (h : typeRoots address raw = .ok roots)
    (hm : (p, m) ∈ inlineInRoots roots) : sizeOf m < sizeOf raw := by
  obtain ⟨⟨q, v⟩, hq, hm⟩ := mem_inlineInRoots_iff.1 hm
  have h₁ := sizeOf_typeRoots_le h hq
  have h₂ := sizeOf_lt_of_mem_inlineIn v hm
  omega

/-- The outermost inline declarations below the types of a declaration. -/
def inlineNodes (address : Pointer) (raw : Members) :
    Except Fault (List (Pointer × Smaller raw)) :=
  match h : typeRoots address raw with
  | .error e => .error e
  | .ok roots => .ok ((inlineInRoots roots).attach.map fun ⟨(p, m), hm⟩ =>
      (p, ⟨m, sizeOf_lt_of_mem_inlineInRoots h hm⟩))

end DocShape.Document
