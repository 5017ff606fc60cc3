import DocShape.Proofs.Document.Address
import DocShape.Proofs.Json.Equivalence
import DocShape.Proofs.Table
import Mathlib.Logic.Function.Iterate

/-!
What the scan for inline declarations finds, and that it ends. Each round takes a value off the stack and leaves
what has been found together with what is still to be found as it is (`Scan.found_round`), so that the stack is
empty after at most as many rounds as there are values (`Scan.exists_rounds`). The nodes of what is found below
one value are the outermost ones with an inline declaration (`mem_inlineIn_iff`), in the order of the document
(`inlineIn_ordered`).
-/

namespace DocShape

open Json

/-! ## Values at addresses -/

namespace Json.Value

variable {v w : Value} {p : Pointer} {s : Step}

theorem lookup_entries_iff (distinct : v.hasDistinctKeys) :
    v.entries.lookup s = some w ↔ (s, w) ∈ v.entries := by
  constructor
  · intro h
    obtain ⟨before, after, split, -⟩ := List.lookup_eq_some_iff.1 h
    rw [split]
    exact List.mem_append_right _ (List.mem_cons_self ..)
  · exact Table.lookup_of_mem (nodup_steps distinct)

/-- The outermost step of an address comes last. -/
theorem at?_append (v : Value) (p : Pointer) (s : Step) :
    v.at? (p ++ [s]) = (v.entries.lookup s).bind fun w => w.at? p := by
  induction p with
  | nil => cases h : v.entries.lookup s <;> simp [at?, h]
  | cons t p ih =>
    rw [List.cons_append, at?, ih, Option.bind_assoc]
    rfl

theorem at?_of_mem_entries (distinct : v.hasDistinctKeys) (h : (s, w) ∈ v.entries) :
    v.at? (p ++ [s]) = w.at? p := by
  rw [at?_append, (lookup_entries_iff distinct).2 h, Option.bind_some]

end Json.Value

namespace Document

variable {v w : Value} {p q address : Pointer} {s : Step} {m : Members}

/-! ## Nodes with inline declarations -/

/-- A value is a type node that has an inline declaration. -/
def Declares (v : Value) (m : Members) : Prop :=
  ∃ node, v = .object node ∧ member node "type" = .text "reflection" ∧ member node "declaration" = .object m

/-- The value at an address inside a value is such a node. -/
def DeclaresAt (v : Value) (p : Pointer) (m : Members) : Prop := ∃ w, v.at? p = some w ∧ Declares w m

/-- It is the outermost one: it lies in no other such node. -/
structure OutermostAt (v : Value) (p : Pointer) (m : Members) : Prop where
  declares : DeclaresAt v p m
  outermost : ∀ q n, DeclaresAt v q n → q <:+ p → q = p

theorem Declares.unique {n : Members} (h : Declares v m) (h' : Declares v n) : m = n := by
  obtain ⟨node, rfl, -, hm⟩ := h
  obtain ⟨node', ⟨⟩, -, hn⟩ := h'
  exact Value.object.inj (hm.symm.trans hn)

theorem inlineAt?_eq_some {e : Pointer × Members} :
    inlineAt? address v = some e ↔ ∃ m, Declares v m ∧ e = (.key "declaration" :: address, m) := by
  cases v with
  | object node =>
    simp only [inlineAt?, Option.map_eq_some_iff, inlineDeclaration?_eq_some, Declares,
      Value.object.injEq, exists_eq_left']
    exact exists_congr fun m => and_congr_right fun _ => eq_comm
  | _ => simp [inlineAt?, Declares]

theorem declaresAt_nil : DeclaresAt v [] m ↔ Declares v m := by
  simp [DeclaresAt, Value.at?]

theorem declaresAt_append (distinct : v.hasDistinctKeys) :
    DeclaresAt v (p ++ [s]) m ↔ ∃ w, (s, w) ∈ v.entries ∧ DeclaresAt w p m := by
  simp only [DeclaresAt, Value.at?_append, Option.bind_eq_some_iff, Value.lookup_entries_iff distinct]
  constructor
  · rintro ⟨u, ⟨w, hw, hu⟩, declares⟩
    exact ⟨w, hw, u, hu, declares⟩
  · rintro ⟨w, hw, u, hu, declares⟩
    exact ⟨u, ⟨w, hw, hu⟩, declares⟩

/-- A node that has an inline declaration is the outermost one itself. -/
theorem outermostAt_of_declares (h : Declares v m) {n : Members} :
    OutermostAt v p n ↔ p = [] ∧ n = m := by
  constructor
  · intro outer
    obtain rfl := outer.outermost [] m (declaresAt_nil.2 h) List.nil_suffix
    exact ⟨rfl, (declaresAt_nil.1 outer.declares).unique h⟩
  · rintro ⟨rfl, rfl⟩
    exact ⟨declaresAt_nil.2 h, fun q n _ hq => List.suffix_nil.1 hq⟩

/-- In any other value the outermost ones are those of its entries. -/
theorem outermostAt_of_not_declares (distinct : v.hasDistinctKeys) (h : ∀ n, ¬ Declares v n) :
    OutermostAt v p m ↔ ∃ s w q, (s, w) ∈ v.entries ∧ p = q ++ [s] ∧ OutermostAt w q m := by
  constructor
  · intro outer
    rcases List.eq_nil_or_concat' p with rfl | ⟨q, s, rfl⟩
    · exact absurd (declaresAt_nil.1 outer.declares) (h m)
    · obtain ⟨w, hw, declares⟩ := (declaresAt_append distinct).1 outer.declares
      refine ⟨s, w, q, hw, rfl, declares, fun q' n inner hq => ?_⟩
      have same := outer.outermost (q' ++ [s]) n ((declaresAt_append distinct).2 ⟨w, hw, inner⟩)
        (List.suffix_concat_iff.2 (Or.inr ⟨q', rfl, hq⟩))
      exact List.append_cancel_right same
  · rintro ⟨s, w, q, hw, rfl, outer⟩
    refine ⟨(declaresAt_append distinct).2 ⟨w, hw, outer.declares⟩, fun _ n inner around => ?_⟩
    rcases List.suffix_concat_iff.1 around with rfl | ⟨q', rfl, hq⟩
    · exact absurd (declaresAt_nil.1 inner) (h n)
    · obtain ⟨w', hw', inner⟩ := (declaresAt_append distinct).1 inner
      have same : w' = w := by
        have := ((Value.lookup_entries_iff distinct).2 hw').symm.trans
          ((Value.lookup_entries_iff distinct).2 hw)
        exact Option.some.inj this
      rw [outer.outermost q' n (same ▸ inner) hq]

/-! ## What is found below one value -/

/-- Exactly the declarations of the outermost nodes are listed. -/
theorem mem_inlineIn_iff (distinct : v.hasDistinctKeys) :
    (p, m) ∈ inlineIn address v ↔
      ∃ q, p = .key "declaration" :: (q ++ address) ∧ OutermostAt v q m := by
  induction v using Value.byEntries generalizing p address with
  | step v ih =>
    rw [inlineIn_eq]
    cases found : inlineAt? address v with
    | some e =>
      obtain ⟨n, declares, rfl⟩ := inlineAt?_eq_some.1 found
      simp only [List.mem_singleton, Prod.mk.injEq, outermostAt_of_declares declares]
      constructor
      · rintro ⟨rfl, rfl⟩
        exact ⟨[], rfl, rfl, rfl⟩
      · rintro ⟨q, rfl, rfl, rfl⟩
        exact ⟨rfl, rfl⟩
    | none =>
      have other : ∀ n, ¬ Declares v n := by
        intro n declares
        have here : inlineAt? address v = some (.key "declaration" :: address, n) :=
          inlineAt?_eq_some.2 ⟨n, declares, rfl⟩
        rw [found] at here
        cases here
      simp only [List.mem_flatMap, outermostAt_of_not_declares distinct other]
      constructor
      · rintro ⟨⟨s, w⟩, hw, hm⟩
        obtain ⟨q, rfl, outer⟩ := (ih (s, w) hw
          (Value.hasDistinctKeys_of_mem_entries distinct hw)).1 hm
        exact ⟨q ++ [s], by simp, s, w, q, hw, rfl, outer⟩
      · rintro ⟨_, rfl, s, w, q, hw, rfl, outer⟩
        refine ⟨(s, w), hw, (ih (s, w) hw
          (Value.hasDistinctKeys_of_mem_entries distinct hw)).2 ⟨q, by simp, outer⟩⟩

/-- In a value at an address, one address stands before another one: where the two part, it leads to the earlier
entry. -/
def StandsBefore (address : Pointer) (v : Value) (p q : Pointer) : Prop :=
  ∃ base w s t, v.at? base = some w ∧ [s, t].Sublist (w.entries.map (·.1)) ∧
    s :: (base ++ address) <:+ p ∧ t :: (base ++ address) <:+ q

theorem StandsBefore.of_entry (distinct : v.hasDistinctKeys) (h : (s, w) ∈ v.entries)
    (before : StandsBefore (s :: address) w p q) : StandsBefore address v p q := by
  obtain ⟨base, u, a, b, hu, order, hp, hq⟩ := before
  refine ⟨base ++ [s], u, a, b, ?_, order, ?_, ?_⟩
  · rw [Value.at?_of_mem_entries distinct h, hu]
  · simpa using hp
  · simpa using hq

theorem inlineIn_ordered (address : Pointer) (distinct : v.hasDistinctKeys) :
    (inlineIn address v).Pairwise fun a b => StandsBefore address v a.1 b.1 := by
  induction v using Value.byEntries generalizing address with
  | step v ih =>
    rw [inlineIn_eq]
    cases inlineAt? address v with
    | some e => exact List.pairwise_singleton ..
    | none =>
      refine List.pairwise_flatMap.2 ⟨fun e he => ?_, ?_⟩
      · exact (ih e he _ (Value.hasDistinctKeys_of_mem_entries distinct he)).imp
          (.of_entry distinct he)
      · refine List.pairwise_iff_forall_sublist.2 fun {e f} order x hx y hy => ?_
        exact ⟨[], v, e.1, f.1, rfl, order.map _, suffix_of_mem_inlineIn e.2 hx,
          suffix_of_mem_inlineIn f.2 hy⟩

/-! ## The scan -/

namespace Scan

/-- After as many rounds as there are values, or fewer, no value is left. -/
theorem exists_rounds (s : Scan) : ∃ n ≤ s.size, round^[n] s = ⟨s.run, []⟩ := by
  fun_induction run s with
  | case1 found => exact ⟨0, Nat.zero_le _, rfl⟩
  | case2 found next rest ih =>
    obtain ⟨n, hn, ends⟩ := ih
    have smaller : (round ⟨found, next :: rest⟩).size < size ⟨found, next :: rest⟩ := size_round_lt
    exact ⟨n + 1, by omega, ends⟩

end Scan

/-- Some declarations are those of the outermost nodes in a value at an address: each is there once, and they
come in the order of the document. -/
structure ListsOutermost (address : Pointer) (v : Value) (found : List (Pointer × Members)) : Prop where
  mem_iff : ∀ p m, (p, m) ∈ found ↔
    ∃ q, p = .key "declaration" :: (q ++ address) ∧ OutermostAt v q m
  once : (found.map (·.1)).Nodup
  ordered : found.Pairwise fun a b => StandsBefore address v a.1 b.1

theorem nodup_of_apart {found : List (Pointer × Members)}
    (h : found.Pairwise fun a b => Apart a.1 b.1) : (found.map (·.1)).Nodup := by
  rw [List.nodup_iff_pairwise_ne, List.pairwise_map]
  exact h.imp Apart.ne

theorem listsOutermost_inlineIn (address : Pointer) (distinct : v.hasDistinctKeys) :
    ListsOutermost address v (inlineIn address v) where
  mem_iff _ _ := mem_inlineIn_iff distinct
  once := nodup_of_apart (inlineIn_pairwise address v distinct)
  ordered := inlineIn_ordered address distinct

/-- A scan for inline declarations ends: after at most as many rounds as there are values in all, no value is
left. It has then found, value by value and the last value first, exactly the declarations of the outermost
nodes that have one, each once and in the order of the document; and none twice at all where no value is inside
another one. -/
theorem scan_outermost {roots : List (Pointer × Value)}
    (distinct : ∀ root ∈ roots, root.2.hasDistinctKeys) :
    (∃ rounds ≤ Value.totalSize roots,
      Scan.round^[rounds] (Scan.start roots) = ⟨inlineInRoots roots, []⟩) ∧
    (∃ finds, List.Forall₂ (fun root found => ListsOutermost root.1 root.2 found) roots finds ∧
      inlineInRoots roots = finds.reverse.flatten) ∧
    (roots.Pairwise (fun a b => Apart a.1 b.1) → ((inlineInRoots roots).map (·.1)).Nodup) := by
  refine ⟨?_, ⟨roots.map fun root => inlineIn root.1 root.2, ?_, ?_⟩, fun apart => ?_⟩
  · obtain ⟨n, hn, ends⟩ := (Scan.start roots).exists_rounds
    rw [Scan.size, Scan.start, Value.totalSize_reverse] at hn
    exact ⟨n, hn, ends⟩
  · rw [List.forall₂_map_right_iff, List.forall₂_same]
    exact fun root hroot => listsOutermost_inlineIn root.1 (distinct root hroot)
  · rw [inlineInRoots_eq, ← List.map_reverse, List.flatMap_def]
  · exact nodup_of_apart (inlineInRoots_pairwise apart distinct)

/-- A type node with an inline declaration and nothing else. -/
def typeLiteral (m : Members) : Value :=
  .object [("type", .text "reflection"), ("declaration", .object m)]

/-- Two values: a list of two types, the first with an inline declaration that has another one inside it and the
second an array of such a type, and a type with an inline declaration. -/
def nestedTypes : List (Pointer × Value) :=
  [([.index 0], .object [("types", .array
      [typeLiteral [("type", typeLiteral [])], .object [("elementType", typeLiteral [])]])]),
    ([.index 1], typeLiteral [])]

/-- The last value comes first, and the inner declaration is not found. -/
theorem scan_outermost_nestedTypes :
    (∀ root ∈ nestedTypes, root.2.hasDistinctKeys) ∧
    (∃ rounds ≤ 15, Scan.round^[rounds] (Scan.start nestedTypes) = ⟨inlineInRoots nestedTypes, []⟩) ∧
    (inlineInRoots nestedTypes).map (·.1) = [[.key "declaration", .index 1],
      [.key "declaration", .index 0, .key "types", .index 0],
      [.key "declaration", .key "elementType", .index 1, .key "types", .index 0]] ∧
    ((inlineInRoots nestedTypes).map (·.1)).Nodup := by
  have distinct : ∀ root ∈ nestedTypes, root.2.hasDistinctKeys := by decide
  have apart : nestedTypes.Pairwise fun a b => Apart a.1 b.1 := by
    refine List.pairwise_pair.2 ?_
    exact apart_of_step_ne [] (by decide)
  obtain ⟨ends, -, once⟩ := scan_outermost distinct
  exact ⟨distinct, ends, by decide +kernel, once apart⟩

/-- A type node with an inline declaration that holds, beside it, another such node. -/
def besideDeclaration : Value :=
  .object [("type", .text "reflection"), ("declaration", .object []), ("extra", typeLiteral [])]

/-- The declaration of the node beside it lies in no other declaration, but in the node of one, and is not
found. -/
theorem beside_declaration_not_found :
    besideDeclaration.hasDistinctKeys ∧ DeclaresAt besideDeclaration [.key "extra"] [] ∧
    (∀ q n, DeclaresAt besideDeclaration q n →
      .key "declaration" :: q <:+ [.key "declaration", .key "extra"] → q = [.key "extra"]) ∧
    (inlineInRoots [([], besideDeclaration)]).map (·.1) = [[.key "declaration"]] := by
  refine ⟨by decide, ⟨_, rfl, _, rfl, rfl, rfl⟩, fun q n _ around => ?_, by decide +kernel⟩
  rcases List.suffix_cons_iff.1 around with same | inside
  · exact (List.cons.inj same).2
  · rcases List.suffix_cons_iff.1 inside with same | inside
    · exact absurd (List.cons.inj same).1 (by decide)
    · exact absurd (List.suffix_nil.1 inside) (List.cons_ne_nil _ _)

end Document

end DocShape
