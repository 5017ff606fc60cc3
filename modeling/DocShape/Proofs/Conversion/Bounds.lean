import DocShape.Document.Project
import DocShape.Proofs.Conversion.Nodes
import DocShape.Proofs.Conversion.WellFormed

/-!
The bounds of converted arrays. Tuples and object literals have one length, and an intersection takes the
greater minimum and the smaller maximum of its operands, each for itself. So a minimum exceeds a maximum at
the intersections of arrays that allow no common length, and nowhere else (`convert_bounds`); a document can
hold one (`minimum_above_maximum`).
-/

namespace DocShape

open Link (Resolver)

/-- An array that was made of an intersection below an entry, of two arrays that allow no common length. -/
inductive IsEmptyIntersection (resolver : Resolver) (e : Entry) (s : Shape) : Prop
  | intro {owner : Declaration} {a b : TypeNode} {sa sb merged : Shape} :
    Relation.ReflTransGen Visits e (.type owner (.intersection [a, b])) →
    (convertType resolver .elsewhere owner a).outcome = .ok sa →
    (convertType resolver .elsewhere owner b).outcome = .ok sb →
    sa.intersect? sb = some merged → merged.Relabelled s →
    (∀ length, ¬ (sa.Allows length ∧ sb.Allows length)) →
    IsEmptyIntersection resolver e s

section

variable {resolver : Resolver} {e : Entry} {position : Position} {s : Shape} {label : Label}
  {element : Option Shape} {low high : Int}

theorem Shape.Relabelled.array (h : s.Relabelled (.array label element (some low) (some high))) :
    ∃ label', s = .array label' element (some low) (some high) := by
  cases s with
  | array => cases h <;> exact ⟨_, rfl⟩
  | _ => cases h

theorem Converts.boundsPositive (h : Converts resolver position e s) : s.BoundsPositive := by
  have made := (h.rendered .refl).built.wellFormed.2.here.made
  cases s with
  | array => exact made.2
  | _ => trivial

/-- Both bounds of an array are one length, or it is what an intersection below is merged to. -/
theorem Converts.bounds (h : Converts resolver position e s)
    (hs : s = .array label element (some low) (some high)) :
    low = high ∨ ∃ owner a b sa sb,
      Relation.ReflTransGen Visits e (.type owner (.intersection [a, b])) ∧
      Converts resolver .elsewhere (.type owner a) sa ∧
      Converts resolver .elsewhere (.type owner b) sb ∧ sa.intersect? sb = some s := by
  induction h using Converts.induction with
  | step position e s h rule =>
    cases rule with
    | @leaf owner t _ ht ho =>
      subst hs
      cases t with
      | stringLiteral => cases position <;> cases ho
      | intrinsic | typeParameter => cases ho
      | _ => cases ht
    | reference _ _ ho =>
      obtain ⟨_, _, _, rfl⟩ := referenceShape_eq ho
      cases hs
    | tuple =>
      cases hs
      exact Or.inl rfl
    | @intersection owner a b sa sb belowA belowB =>
      obtain ⟨-, convertsA, -⟩ := belowA
      obtain ⟨-, convertsB, -⟩ := belowB
      cases hi : sa.intersect? sb with
      | none =>
        rw [hi] at hs
        cases hs
      | some s => exact Or.inr ⟨owner, a, b, sa, sb, .refl, convertsA, convertsB, hi⟩
    | inline below | ownType _ below =>
      obtain ⟨visits, _, ih⟩ := below
      rcases ih hs with same | ⟨owner, a, b, sa, sb, reached, rest⟩
      · exact Or.inl same
      · exact Or.inr ⟨owner, a, b, sa, sb, .head visits reached, rest⟩
    | object =>
      rcases objectShape_eq _ _ _ _ with ⟨_, _, ho⟩ | ⟨_, _, _, ha⟩
      · rw [ho] at hs
        cases hs
      · rw [ha] at hs
        cases hs
        exact Or.inl rfl
    | _ => cases hs

end

/-- Of a converted declaration, just the arrays that stand for empty intersections have a minimum above
their maximum. -/
theorem convert_bounds (resolver : Resolver) (d : Declaration) {s n : Shape} {label : Label}
    {element : Option Shape} {low high : Int} (h : (convert resolver d).outcome = .ok s)
    (hn : s.IsNode n) (ha : n = .array label element (some low) (some high)) :
    high < low ↔ IsEmptyIntersection resolver (.declaration d) n := by
  have positive : 1 ≤ low := by
    have made := ((convert_wellFormed resolver d s h).2 n hn).made
    rw [ha] at made
    exact made.2.1 low rfl
  constructor
  · intro above
    obtain ⟨position, e, s', reached, converts, relabelled⟩ := convert_node h hn
    obtain ⟨label', rfl⟩ := (ha ▸ relabelled).array
    rcases converts.bounds rfl with same | ⟨owner, a, b, sa, sb, below, ca, cb, merged⟩
    · omega
    · have none := (Shape.lt_iff_not_allows label' element positive).1 above
      have both := Shape.allows_of_intersect? ca.boundsPositive cb.boundsPositive merged
      cases ca with
      | type outcomeA =>
        cases cb with
        | type outcomeB =>
          exact .intro (reached.trans below) outcomeA outcomeB merged relabelled
            fun length allowed => none length ((both length).2 allowed)
  · rintro ⟨-, outcomeA, outcomeB, merged, relabelled, none⟩
    obtain ⟨label', rfl⟩ := (ha ▸ relabelled).array
    have both := Shape.allows_of_intersect? (Converts.type outcomeA).boundsPositive
      (Converts.type outcomeB).boundsPositive merged
    exact (Shape.lt_iff_not_allows label' element positive).2 fun length allowed =>
      none length ((both length).1 allowed)

/-- A list of pairs that are single items as well. -/
def clashes : Declaration :=
  { origin := [], segment := ⟨"Clashes", none⟩, enclosing := [], id := none, isOptional := false,
    comment := none, typeParameters := [], signatures := [], children := []
    type := some (.array (.intersection
      [.tuple [.intrinsic "string", .intrinsic "string"],
        .intersection [.array (.intrinsic "string"), .tuple [.intrinsic "string"]]])) }

theorem convert_bounds_clashes :
    let clash : Shape := .array {} (some (.primitive {} (some "string") none)) (some 2) (some 1)
    let s : Shape := .array {} (some clash) none none
    (convert .none clashes).outcome = .ok s ∧ s.IsNode clash ∧
      ((1 : Int) < 2 ↔ IsEmptyIntersection .none (.declaration clashes) clash) :=
  have inside := .part .root (List.mem_singleton.2 rfl)
  ⟨rfl, inside, convert_bounds .none clashes rfl inside rfl⟩

/-- A document that declares a pair that is a single item as well. -/
def clashDocument : Json.Members :=
  let string : Json.Value := .object [("type", .text "intrinsic"), ("name", .text "string")]
  let tuple (elements : List Json.Value) : Json.Value :=
    .object [("type", .text "tuple"), ("elements", .array elements)]
  [("name", .text "p"), ("kind", .int 0), ("children", .array
    [.object [("id", .int 1), ("name", .text "Clash"), ("kind", .int 32),
      ("type", .object [("type", .text "intersection"),
        ("types", .array [tuple [string, string], tuple [string]])])]])]

/-- An array of at least two and at most one items. -/
private def isClash : Shape → Bool
  | .array _ _ (some low) (some high) => low = 2 && high = 1
  | _ => false

/-- The declaration loads and converts, to an array whose minimum is above its maximum. -/
theorem minimum_above_maximum :
    ∃ project, Project.ofMembers clashDocument = .ok project ∧ ∃ d ∈ project.root.children,
      ∃ label element, (convert .none d).outcome = .ok (.array label element (some 2) (some 1)) := by
  have clash : (Project.ofMembers clashDocument).toOption.any fun project =>
      project.root.children.any fun d => (convert .none d).outcome.toOption.any isClash := by
    decide +kernel
  obtain ⟨project, hp, clash⟩ := Journal.exists_ok_of_any clash
  obtain ⟨d, hd, clash⟩ := List.any_eq_true.1 clash
  obtain ⟨s, hs, clash⟩ := Journal.exists_ok_of_any clash
  refine ⟨project, hp, d, hd, ?_⟩
  unfold isClash at clash
  split at clash
  · simp only [Bool.and_eq_true, decide_eq_true_eq] at clash
    obtain ⟨rfl, rfl⟩ := clash
    exact ⟨_, _, hs⟩
  · cases clash

end DocShape
